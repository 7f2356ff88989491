import SlgServer.MeldRows
import SlgServer.Scan
import SlgServer.Tiles
import Mathlib.Data.List.TakeWhile

/-!
# The older checkers (`mjlib/gui/hulib.lua`, `mjlib/hubei_huanghuang/mjlib.lua`)

The two files hold the same functions and differ in the tables they load. They
cut the suits into runs like the checker of `mjlib/base`, but never write to the
tables, hand a run over only at the gap behind it, search for the pair when a
run is not in the table with eye, and note only the pairs of honours.

`getHuInfo_iff`: on tables that decide the runs of up to eight counts, a hand is
accepted iff it looks won to these tests.
-/

namespace SlgServer.Older

open Melds Scan

/-! ## The checks -/

/-- The two tables a checker loads, as their keys. -/
structure Tables : Type where
  /-- `wave_table` -/
  waveTable : List ℕ
  /-- `wave_table_eye` -/
  waveTableEye : List ℕ

variable (t : Tables)

/-- `check_wave`. -/
def checkWave (tbl : List ℕ) : Bool := decide (key tbl ∈ t.waveTable)

/-- One round of the search for the pair: two tiles are taken away at `i`, where
there are `v`, and what is left is looked up. -/
def checkWithoutPair (tbl : List ℕ) (i v : ℕ) : Bool :=
  if v < 2 then false
  else
    let (tmp₁, tmp₂) :=
      if v > 2 then (tbl.set i (v - 2), [])
      else if i = 0 then (tbl.drop 1, [])
      else if i = tbl.length - 1 then (tbl.dropLast, [])
      -- `tmp_tbl_1[i] = nil` leaves a hole, at which `ipairs` stops
      else (tbl.take i, tbl.drop (i + 1))
    checkWave t tmp₁ && (tmp₂.isEmpty || checkWave t tmp₂)

/-- `check_wave_and_eye`. -/
def checkWaveAndEye (tbl : List ℕ) : Bool :=
  if tbl.length = 1 then true
  else if key tbl ∈ t.waveTableEye then true
  else tbl.zipIdx.any fun v => checkWithoutPair t tbl v.2 v.1

/-- `check_sub`; `eye` is `info.eye`, which it reads only. -/
def checkSub (tbl : List ℕ) (eye : Bool) : Bool :=
  let yu := tbl.sum % 3
  if yu = 1 then false
  else if yu = 2 then if eye then false else checkWaveAndEye t tbl
  else checkWave t tbl

/-- The loop of `check_color_chi` over the indices still to come; `tbl` is the run
being read. A run that reaches the last index is not checked. -/
def checkColorChiFrom (cards : ℕ → ℕ) : List ℕ → List ℕ → Bool → Bool
  | [], _, _ => true
  | i :: is, tbl, eye =>
    let count := cards i
    if count > 0 then checkColorChiFrom cards is (tbl ++ [count]) eye
    else if tbl = [] then checkColorChiFrom cards is tbl eye
    else if checkSub t tbl eye then checkColorChiFrom cards is [] eye
    else false

/-- `check_color_chi`. -/
def checkColorChi (cards : ℕ → ℕ) (cfg : CardCfg) (eye : Bool) : Bool × Bool :=
  (checkColorChiFrom t cards cfg.indices [] eye, eye)

/-- The body of the loop of `check_color`, for the count of one honour. -/
def checkColorCount (count : ℕ) (eye : Bool) : Bool × Bool :=
  if count = 1 ∨ count = 4 then (false, eye)
  else if count = 2 then if eye then (false, eye) else (true, true)
  else (true, eye)

/-- `check_color`. -/
def checkColor (cards : ℕ → ℕ) (cfg : CardCfg) (eye : Bool) : Bool × Bool :=
  scanAll (fun i => checkColorCount (cards i)) cfg.indices eye

/-- The check of one colour. -/
def checkColour (cards : ℕ → ℕ) (cfg : CardCfg) (eye : Bool) : Bool × Bool :=
  if cfg.chi then checkColorChi t cards cfg eye else checkColor cards cfg eye

/-- `get_hu_info`; `order` is the order in which `pairs` visits the colours. -/
def getHuInfo (order : List CardCfg) (handCards : ℕ → ℕ) (otherCard : Option ℕ) : Bool :=
  let cards := match otherCard with
    | none => handCards
    | some c => Function.update handCards c (handCards c + 1)
  (scanAll (checkColour t cards) order false).1

variable {t}

/-! ## One run -/

theorem checkWave_eq_true {tbl : List ℕ} : checkWave t tbl = true ↔ key tbl ∈ t.waveTable :=
  decide_eq_true_iff

/-- **One round of the search**: the place holds a pair and more, and what is left
is in the table; or it holds the pair, and the run falls into two. -/
theorem checkWithoutPair_iff {l₁ l₂ : List ℕ} {v : ℕ} (hne : l₁ ≠ [] ∨ l₂ ≠ []) :
    checkWithoutPair t (l₁ ++ v :: l₂) l₁.length v = true ↔
      (2 < v ∧ checkWave t (l₁ ++ (v - 2) :: l₂) = true) ∨
        (v = 2 ∧ ∀ l ∈ [l₁, l₂], l ≠ [] → checkWave t l = true) := by
  rw [checkWithoutPair]
  obtain hlt | rfl | hgt : v < 2 ∨ v = 2 ∨ 2 < v := by omega
  · rw [if_pos hlt]
    simp only [Bool.false_eq_true, false_iff]
    omega
  · rw [if_neg (by decide), if_neg (by decide)]
    simp only [lt_irrefl, false_and, false_or, true_and, List.forall_mem_cons,
      List.not_mem_nil, false_implies, implies_true, and_true]
    by_cases hfirst : l₁ = []
    · subst hfirst
      have hl₂ : l₂ ≠ [] := hne.resolve_left (by simp)
      simp [hl₂]
    · have hpos : l₁.length ≠ 0 := fun h => hfirst (List.eq_nil_of_length_eq_zero h)
      rw [if_neg hpos]
      by_cases hlast : l₂ = []
      · subst hlast
        simp [hfirst]
      · have hpos₂ : l₂.length ≠ 0 := fun h => hlast (List.eq_nil_of_length_eq_zero h)
        rw [if_neg (by simp; omega)]
        have hdrop : (l₁ ++ 2 :: l₂).drop (l₁.length + 1) = l₂ := by
          rw [List.drop_append]
          simp
        rw [hdrop]
        simp [hfirst, hlast]
  · rw [if_neg (by omega), if_pos hgt]
    have hset : (l₁ ++ v :: l₂).set l₁.length (v - 2) = l₁ ++ (v - 2) :: l₂ := by simp
    have hv : v ≠ 2 := by omega
    rw [hset]
    simp [hgt, hv]

/-- The pair of a run can be taken away at some place so that what is left is in
the table. -/
def PairFound (t : Tables) (r : List ℕ) : Prop :=
  ∃ l₁ v l₂, r = l₁ ++ v :: l₂ ∧
    ((2 < v ∧ checkWave t (l₁ ++ (v - 2) :: l₂) = true) ∨
      (v = 2 ∧ ∀ l ∈ [l₁, l₂], l ≠ [] → checkWave t l = true))

theorem checkWaveAndEye_iff {r : List ℕ} :
    checkWaveAndEye t r = true ↔ r.length = 1 ∨ key r ∈ t.waveTableEye ∨ PairFound t r := by
  rw [checkWaveAndEye]
  by_cases hone : r.length = 1
  · simp [hone]
  rw [if_neg hone]
  by_cases heye : key r ∈ t.waveTableEye
  · simp [heye]
  rw [if_neg heye, List.any_eq_true]
  simp only [hone, heye, false_or]
  have hne : ∀ {l₁ l₂ : List ℕ} {v : ℕ}, r = l₁ ++ v :: l₂ → l₁ ≠ [] ∨ l₂ ≠ [] := by
    rintro l₁ l₂ v rfl
    by_contra hnil
    obtain ⟨rfl, rfl⟩ := not_or.mp hnil |>.imp not_not.mp not_not.mp
    exact hone rfl
  refine ⟨?_, ?_⟩
  · rintro ⟨⟨v, i⟩, hmem, hround⟩
    have hget : r[i]? = some v := by simpa [List.mem_zipIdx_iff_getElem?] using hmem
    obtain ⟨hlt, hv⟩ := List.getElem?_eq_some_iff.mp hget
    have hr : r = r.take i ++ v :: r.drop (i + 1) := by
      rw [← hv, List.getElem_cons_drop, List.take_append_drop]
    have hlen : (r.take i).length = i := by
      rw [List.length_take]
      omega
    refine ⟨_, v, _, hr, (checkWithoutPair_iff (hne hr)).mp ?_⟩
    rwa [hlen, ← hr]
  · rintro ⟨l₁, v, l₂, rfl, hfound⟩
    refine ⟨(v, l₁.length), ?_, (checkWithoutPair_iff (hne rfl)).mpr hfound⟩
    rw [List.mem_zipIdx_iff_getElem?]
    simp

/-- The search finds pairs that are there. -/
theorem PairFound.splits {r : List ℕ}
    (hwave : ∀ l, IsRow 8 12 l → checkWave t l = true → Splits true 0 0 0 l)
    (hr : IsRow 8 14 r) (h : PairFound t r) : Splits true 0 0 1 r := by
  obtain ⟨l₁, v, l₂, rfl, ⟨hv, hleft⟩ | ⟨rfl, hleft⟩⟩ := h
  · have hs := hwave _ (hr.without_pair.1 hv) hleft
    have hv' : v - 2 + 2 = v := by omega
    rw [← hv']
    exact hs.put_pair
  · have hpart : ∀ l ∈ [l₁, l₂], IsRow 8 12 l → Splits true 0 0 0 l := by
      intro l hl hrow
      by_cases hnil : l = []
      · rw [hnil]
        exact .nil
      · exact hwave l hrow (hleft l hl hnil)
    obtain ⟨hrow₁, hrow₂⟩ := hr.without_pair.2 rfl
    have hs := splits_append_zero.mpr
      ⟨0, 0, rfl, hpart l₁ (by simp) hrow₁, hpart l₂ (by simp) hrow₂⟩
    exact hs.put_pair

/-- The search finds a pair that is there. -/
theorem pairFound_of_splits {r : List ℕ}
    (hwave : ∀ l, IsRow 8 12 l → l ≠ [] → Splits true 0 0 0 l → checkWave t l = true)
    (hr : IsRow 8 14 r) (hs : Splits true 0 0 1 r) : PairFound t r := by
  obtain ⟨l₁, c, l₂, rfl, hpair⟩ := hs.exists_pair
  refine ⟨l₁, c + 2, l₂, rfl, ?_⟩
  cases c with
  | succ c => exact .inl ⟨by omega, hwave _ (hr.without_pair.1 (by omega)) (by simp) hpair⟩
  | zero =>
    -- the pair was all there was: the rest falls into two runs
    obtain ⟨e₁, e₂, he, hs₁, hs₂⟩ := splits_append_zero.mp hpair
    obtain ⟨rfl, rfl⟩ : e₁ = 0 ∧ e₂ = 0 := by omega
    obtain ⟨hrow₁, hrow₂⟩ := hr.without_pair.2 rfl
    refine .inr ⟨rfl, ?_⟩
    simp only [List.forall_mem_cons, List.not_mem_nil, false_implies, implies_true, and_true]
    exact ⟨fun hne => hwave l₁ hrow₁ hne hs₁, fun hne => hwave l₂ hrow₂ hne hs₂⟩

/-- On runs of up to eight counts the tables find those that are melds, or melds
and a pair, other than `missing`. -/
structure Decides (t : Tables) (missing : List (List ℕ)) : Prop where
  /-- runs without the pair -/
  wave : ∀ r, IsRow 8 12 r → r ≠ [] →
    (checkWave t r = true ↔ Splits true 0 0 0 r ∧ r ∉ missing)
  /-- runs with the pair -/
  waveAndEye : ∀ r, IsRow 8 14 r → r ≠ [] → r.sum % 3 = 2 →
    (checkWaveAndEye t r = true ↔ Splits true 0 0 1 r ∧ r ∉ missing)

/-- **One run**: it is melds and at most a pair, the pair only while the eye is
free. -/
theorem checkSub_iff {missing : List (List ℕ)} (ht : Decides t missing) {r : List ℕ}
    (hr : IsRow 8 14 r) (hne : r ≠ []) (eye : Bool) :
    checkSub t r eye = true ↔
      ((∃ e, e ≤ 1 ∧ Splits true 0 0 e r) ∧ (eye = true → r.sum % 3 ≠ 2)) ∧ r ∉ missing := by
  have hpairs : (∃ e, e ≤ 1 ∧ Splits true 0 0 e r) ↔
      (r.sum % 3 = 0 ∧ Splits true 0 0 0 r) ∨ (r.sum % 3 = 2 ∧ Splits true 0 0 1 r) := by
    refine ⟨?_, ?_⟩
    · rintro ⟨e, he, hs⟩
      have hmod := hs.sum_mod
      obtain rfl | rfl : e = 0 ∨ e = 1 := by omega
      · exact .inl ⟨hmod, hs⟩
      · exact .inr ⟨hmod, hs⟩
    · rintro (⟨-, hs⟩ | ⟨-, hs⟩)
      · exact ⟨0, by decide, hs⟩
      · exact ⟨1, by decide, hs⟩
  rw [hpairs, checkSub]
  obtain h | h | h : r.sum % 3 = 0 ∨ r.sum % 3 = 1 ∨ r.sum % 3 = 2 := by omega
  · have hsum := hr.sum_le
    have hlight : IsRow 8 12 r := ⟨hr.length_le, hr.counts, by omega⟩
    simp [h, ht.wave r hlight hne]
  · simp [h]
  · cases eye <;> simp [h, ht.waveAndEye r hr hne h]

/-! ## Colours -/

/-- **A suit is checked by its inner runs**; the run that reaches the last rank is
never handed over. -/
theorem checkColorChiFrom_eq (cards : ℕ → ℕ) (is tbl : List ℕ) (eye : Bool) :
    checkColorChiFrom t cards is tbl eye =
      (innerRunsFrom tbl (is.map cards)).all fun r => checkSub t r eye := by
  induction is generalizing tbl with
  | nil => rfl
  | cons i is ih =>
    rw [checkColorChiFrom, List.map_cons]
    rcases hc : cards i with _ | c
    · simp only [innerRunsFrom, ih]
      by_cases htbl : tbl = []
      · simp [htbl]
      · cases h : checkSub t tbl eye <;> simp [htbl, h]
    · simpa [innerRunsFrom] using ih (tbl ++ [c + 1])

/-- Suits leave `info` as it is. -/
theorem scanAll_suits (cards : ℕ → ℕ) {cfgs : List CardCfg} (hchi : ∀ cfg ∈ cfgs, cfg.chi = true)
    (eye : Bool) :
    scanAll (checkColour t cards) cfgs eye = (cfgs.all fun cfg =>
      (innerRuns (cfg.counts cards)).all fun r => checkSub t r eye, eye) := by
  induction cfgs with
  | nil => rfl
  | cons cfg cfgs ih =>
    obtain ⟨hcfg, hcfgs⟩ := List.forall_mem_cons.mp hchi
    have hcheck : checkColour t cards cfg eye =
        ((innerRuns (cfg.counts cards)).all fun r => checkSub t r eye, eye) := by
      rw [checkColour, if_pos hcfg, checkColorChi, checkColorChiFrom_eq]
      rfl
    rw [scanAll, hcheck, List.all_cons]
    cases (innerRuns (cfg.counts cards)).all fun r => checkSub t r eye
    · rfl
    · exact ih hcfgs

/-- Honours pass if each is held twice or thrice, if at all, and at most one
twice, the pair found before counted in. -/
theorem checkColor_iff (cards : ℕ → ℕ) (is : List ℕ) (eye : Bool) :
    (scanAll (fun i => checkColorCount (cards i)) is eye).1 = true ↔
      (∀ c ∈ is.map cards, c ≠ 1 ∧ c ≠ 4) ∧ eye.toNat + (is.map cards).count 2 ≤ 1 := by
  induction is generalizing eye with
  | nil => cases eye <;> simp
  | cons i is ih =>
    rw [List.map_cons, List.forall_mem_cons, List.count_cons, scanAll, checkColorCount]
    by_cases h14 : cards i = 1 ∨ cards i = 4
    · have hbad : ¬ (cards i ≠ 1 ∧ cards i ≠ 4) := by omega
      simp [h14, hbad]
    · have hgood : cards i ≠ 1 ∧ cards i ≠ 4 := by omega
      rw [if_neg h14]
      by_cases h2 : cards i = 2
      · cases eye
        · simp [h2, ih]
        · simp [h2]
      · simp [h2, ih, hgood]

/-- Honours that pass take the eye if one of them is a pair. -/
theorem checkColor_eye (cards : ℕ → ℕ) {is : List ℕ} {eye : Bool}
    (h : (scanAll (fun i => checkColorCount (cards i)) is eye).1 = true) :
    (scanAll (fun i => checkColorCount (cards i)) is eye).2 =
      (eye || decide (2 ∈ is.map cards)) := by
  induction is generalizing eye with
  | nil => simp
  | cons i is ih =>
    rw [scanAll, checkColorCount] at h ⊢
    by_cases h14 : cards i = 1 ∨ cards i = 4
    · simp [h14] at h
    · rw [if_neg h14] at h ⊢
      by_cases h2 : cards i = 2
      · cases eye
        · rw [if_pos h2, if_neg (by decide)] at h ⊢
          simp only at h ⊢
          rw [ih h]
          simp [h2]
        · simp [h2] at h
      · have h2' : 2 ≠ cards i := Ne.symm h2
        simp only [h2, if_false] at h ⊢
        rw [ih h]
        simp [h2']

/-! ## Hands -/

/-- The honours. -/
def zi : CardCfg := ⟨28, 34, false⟩

/-- The colours that are visited after the honours. -/
def afterZi (order : List CardCfg) : List CardCfg := (order.dropWhile CardCfg.chi).tail

/-- Nothing the checkers look at speaks against the hand. They do not look at the
runs that reach the last rank, and do not count the pairs of the suits. -/
structure LooksWon (order : List CardCfg) (cards : ℕ → ℕ) : Prop where
  /-- an inner run is melds and at most a pair -/
  runs : ∀ cfg ∈ colours, cfg.chi = true → ∀ r ∈ innerRuns (cfg.counts cards),
    ∃ e, e ≤ 1 ∧ Splits true 0 0 e r
  /-- an honour is a pair or a triplet -/
  honours : ∀ c ∈ zi.counts cards, c ≠ 1 ∧ c ≠ 4
  /-- at most one honour is a pair -/
  onePair : (zi.counts cards).count 2 ≤ 1
  /-- after a pair of honours no inner run may hold one -/
  eye : 2 ∈ zi.counts cards → ∀ cfg ∈ afterZi order, ∀ r ∈ innerRuns (cfg.counts cards),
    r.sum % 3 ≠ 2

/-- The colours that are visited before the honours. -/
def beforeZi (order : List CardCfg) : List CardCfg := order.takeWhile CardCfg.chi

/-- The honours are visited once, between suits. -/
theorem order_eq {order : List CardCfg} (horder : VisitOrder order) :
    order = beforeZi order ++ zi :: afterZi order := by
  have hsplit := order.takeWhile_append_dropWhile (p := CardCfg.chi)
  have honly : ∀ cfg ∈ colours, cfg.chi = false → cfg = zi := by decide
  rw [beforeZi, afterZi]
  rcases hdrop : order.dropWhile CardCfg.chi with _ | ⟨cfg, post⟩
  · have hzi := List.dropWhile_eq_nil_iff.mp hdrop zi (horder.mem_iff.mpr (by decide))
    exact absurd hzi (by decide)
  · have hchi : cfg.chi = false := by
      have hhead := List.head?_dropWhile_not CardCfg.chi order
      simpa [hdrop] using hhead
    rw [hdrop] at hsplit
    have hmem : cfg ∈ order := by
      rw [← hsplit]
      exact List.mem_append_right _ (List.mem_cons_self ..)
    obtain rfl : cfg = zi := honly cfg (horder.mem_iff.mp hmem) hchi
    exact hsplit.symm

/-- Suits are visited before the honours or after them. -/
theorem mem_suits {order : List CardCfg} (horder : VisitOrder order) {cfg : CardCfg} :
    cfg ∈ beforeZi order ∨ cfg ∈ afterZi order ↔ cfg ∈ colours ∧ cfg.chi = true := by
  have hmem : cfg ∈ colours ↔ cfg ∈ beforeZi order ∨ cfg = zi ∨ cfg ∈ afterZi order := by
    rw [← horder.mem_iff, order_eq horder, List.mem_append, List.mem_cons, ← order_eq horder]
  refine ⟨fun h => ⟨?_, ?_⟩, ?_⟩
  · rw [hmem]
    tauto
  · rcases h with h | h
    · exact List.mem_takeWhile_imp h
    · -- a second colour that is no suit would be counted too
      have hone : order.countP (fun cfg => !cfg.chi) = 1 := horder.countP_eq _
      rw [order_eq horder, List.countP_append, List.countP_cons_of_pos (by decide)] at hone
      have hzero : (afterZi order).countP (fun cfg => !cfg.chi) = 0 := by omega
      simpa using List.countP_eq_zero.mp hzero cfg h
  · rintro ⟨h, hchi⟩
    rcases hmem.mp h with h | rfl | h
    · exact .inl h
    · exact absurd hchi (by decide)
    · exact .inr h

/-- **The scan**: suits, honours, suits. The honours alone move the eye. -/
theorem scan_iff {order : List CardCfg} (horder : VisitOrder order) (cards : ℕ → ℕ) :
    (scanAll (checkColour t cards) order false).1 = true ↔
      (∀ cfg ∈ beforeZi order, ∀ r ∈ innerRuns (cfg.counts cards), checkSub t r false = true) ∧
        (checkColor cards zi false).1 = true ∧
        ∀ cfg ∈ afterZi order, ∀ r ∈ innerRuns (cfg.counts cards),
          checkSub t r (checkColor cards zi false).2 = true := by
  have hbefore : ∀ cfg ∈ beforeZi order, cfg.chi = true :=
    fun cfg hcfg => ((mem_suits horder).mp (.inl hcfg)).2
  have hafter : ∀ cfg ∈ afterZi order, cfg.chi = true :=
    fun cfg hcfg => ((mem_suits horder).mp (.inr hcfg)).2
  have hzi : checkColour t cards zi false = checkColor cards zi false := rfl
  conv_lhs => rw [order_eq horder, scanAll_append, scanAll_suits cards hbefore]
  simp only [← List.all_eq_true]
  cases (beforeZi order).all fun cfg =>
      (innerRuns (cfg.counts cards)).all fun r => checkSub t r false
  · simp
  · simp only [true_and]
    rw [scanAll, hzi]
    rcases checkColor cards zi false with ⟨_ | _, eye⟩
    · simp
    · simp only [true_and]
      rw [scanAll_suits cards hafter]

/-- An inner run of a suit leaves a rank free. -/
theorem isRow_of_mem_innerRuns {cards : ℕ → ℕ} (hle : ∀ i, cards i ≤ 4) {cfg : CardCfg}
    (hcfg : cfg ∈ colours) (hsum : (cfg.counts cards).sum ≤ 14) {r : List ℕ}
    (hr : r ∈ innerRuns (cfg.counts cards)) : IsRow 8 14 r ∧ r ≠ [] := by
  obtain ⟨hne, hcounts, -, hrsum⟩ := mem_runs (mem_runs_of_mem_innerRuns hr)
  have hlen := length_lt_of_mem_innerRunsFrom hr
  have hwidth := visitOrder_colours.length_counts_le hcfg cards
  refine ⟨⟨by simp at hlen; omega, fun c hc => ?_, by omega⟩, hne⟩
  obtain ⟨hmem, hpos⟩ := hcounts c hc
  obtain ⟨i, -, rfl⟩ := List.mem_map.mp hmem
  have := hle i
  omega

/-- **The hands that are accepted** are those that look won and have no inner run
that the tables miss. -/
theorem getHuInfo_iff {missing : List (List ℕ)} (ht : Decides t missing) {order : List CardCfg}
    (horder : VisitOrder order) {cards : ℕ → ℕ} (hle : ∀ i, cards i ≤ 4)
    (hsum : ∀ cfg ∈ colours, cfg.chi = true → (cfg.counts cards).sum ≤ 14) :
    (scanAll (checkColour t cards) order false).1 = true ↔
      LooksWon order cards ∧ ∀ cfg ∈ colours, cfg.chi = true →
        ∀ r ∈ innerRuns (cfg.counts cards), r ∉ missing := by
  have hrun : ∀ {cfg}, cfg ∈ beforeZi order ∨ cfg ∈ afterZi order →
      ∀ r ∈ innerRuns (cfg.counts cards), ∀ eye, (checkSub t r eye = true ↔
        ((∃ e, e ≤ 1 ∧ Splits true 0 0 e r) ∧ (eye = true → r.sum % 3 ≠ 2)) ∧ r ∉ missing) := by
    intro cfg hcfg r hr eye
    obtain ⟨hcolour, hchi⟩ := (mem_suits horder).mp hcfg
    obtain ⟨hrow, hne⟩ := isRow_of_mem_innerRuns hle hcolour (hsum cfg hcolour hchi) hr
    exact checkSub_iff ht hrow hne eye
  have hzi : (checkColor cards zi false).1 = true ↔
      (∀ c ∈ zi.counts cards, c ≠ 1 ∧ c ≠ 4) ∧ (zi.counts cards).count 2 ≤ 1 := by
    simpa [checkColor, CardCfg.counts] using checkColor_iff cards zi.indices false
  have heye : (checkColor cards zi false).1 = true →
      (checkColor cards zi false).2 = decide (2 ∈ zi.counts cards) := by
    intro h
    rw [checkColor, checkColor_eye cards h, Bool.false_or]
    rfl
  rw [scan_iff horder]
  refine ⟨?_, ?_⟩
  · rintro ⟨hfirst, hhon, hlast⟩
    rw [heye hhon] at hlast
    have hall : ∀ cfg ∈ colours, cfg.chi = true → ∀ r ∈ innerRuns (cfg.counts cards),
        (∃ e, e ≤ 1 ∧ Splits true 0 0 e r) ∧ r ∉ missing := by
      intro cfg hcfg hchi r hr
      rcases (mem_suits horder).mpr ⟨hcfg, hchi⟩ with h | h
      · obtain ⟨⟨hs, -⟩, hmiss⟩ := (hrun (.inl h) r hr false).mp (hfirst cfg h r hr)
        exact ⟨hs, hmiss⟩
      · obtain ⟨⟨hs, -⟩, hmiss⟩ := (hrun (.inr h) r hr _).mp (hlast cfg h r hr)
        exact ⟨hs, hmiss⟩
    obtain ⟨hhonours, hpair⟩ := hzi.mp hhon
    refine ⟨⟨fun cfg hcfg hchi r hr => (hall cfg hcfg hchi r hr).1, hhonours, hpair, ?_⟩,
      fun cfg hcfg hchi r hr => (hall cfg hcfg hchi r hr).2⟩
    intro h2 cfg hcfg r hr
    obtain ⟨⟨-, hfree⟩, -⟩ := (hrun (.inr hcfg) r hr _).mp (hlast cfg hcfg r hr)
    exact hfree (decide_eq_true h2)
  · rintro ⟨⟨hruns, hhonours, hpair, hfree⟩, hmiss⟩
    have hhon := hzi.mpr ⟨hhonours, hpair⟩
    refine ⟨fun cfg hcfg r hr => ?_, hhon, fun cfg hcfg r hr => ?_⟩
    · obtain ⟨hcolour, hchi⟩ := (mem_suits horder).mp (.inl hcfg)
      exact (hrun (.inl hcfg) r hr false).mpr
        ⟨⟨hruns cfg hcolour hchi r hr, by simp⟩, hmiss cfg hcolour hchi r hr⟩
    · obtain ⟨hcolour, hchi⟩ := (mem_suits horder).mp (.inr hcfg)
      rw [heye hhon]
      exact (hrun (.inr hcfg) r hr _).mpr
        ⟨⟨hruns cfg hcolour hchi r hr, fun h2 => hfree (of_decide_eq_true h2) cfg hcfg r hr⟩,
          hmiss cfg hcolour hchi r hr⟩

end SlgServer.Older
