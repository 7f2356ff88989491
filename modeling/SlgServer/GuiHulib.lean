import SlgServer.BaseWinning
import SlgServer.GuiTables
import SlgServer.OlderHulib

/-!
# The older checker (`mjlib/gui/hulib.lua`)

It cuts the suits into runs like the one of `mjlib/base`, but never writes to
its tables, hands a run over only at the gap behind it, and searches for the pair
when a run is not in the table with eye. The joker tables were generated with it.

`getHuInfo_of_splits`: it accepts every hand of suits that is made of melds and
a pair.
-/

namespace SlgServer.Gui

open Melds Scan

/-! ## The checks -/

/-- `check_wave`. -/
def checkWave (tbl : List ℕ) : Bool := decide (key tbl ∈ autoTable)

/-- One round of the search for the pair: two tiles are taken away at `i`, where
there are `v`, and what is left is looked up. -/
def checkWithoutPair (tbl : List ℕ) (i v : ℕ) : Bool :=
  if v < 2 then false
  else
    let (tmp₁, tmp₂) :=
      if v > 2 then (tbl.set i (v - 2), [])
      else if i = 0 then (tbl.drop 1, [])
      else if i = tbl.length - 1 then (tbl.dropLast, [])
      -- `tmp_tbl_1[i] = nil` leaves a hole, at which `ipairs` stops
      else (tbl.take i, tbl.drop (i + 1))
    checkWave tmp₁ && (tmp₂.isEmpty || checkWave tmp₂)

/-- `check_wave_and_eye`. -/
def checkWaveAndEye (tbl : List ℕ) : Bool :=
  if tbl.length = 1 then true
  else if key tbl ∈ autoTableWithEye then true
  else tbl.zipIdx.any fun v => checkWithoutPair tbl v.2 v.1

/-- `check_sub`; `eye` is `info.eye`, which it reads only. -/
def checkSub (tbl : List ℕ) (eye : Bool) : Bool :=
  let yu := tbl.sum % 3
  if yu = 1 then false
  else if yu = 2 then if eye then false else checkWaveAndEye tbl
  else checkWave tbl

/-- The loop of `check_color_chi` over the indices still to come; `tbl` is the run
being read. A run that reaches the last index is not checked. -/
def checkColorChiFrom (cards : ℕ → ℕ) : List ℕ → List ℕ → Bool → Bool
  | [], _, _ => true
  | i :: is, tbl, eye =>
    let count := cards i
    if count > 0 then checkColorChiFrom cards is (tbl ++ [count]) eye
    else if tbl = [] then checkColorChiFrom cards is tbl eye
    else if checkSub tbl eye then checkColorChiFrom cards is [] eye
    else false

/-- `check_color_chi`. -/
def checkColorChi (cards : ℕ → ℕ) (cfg : CardCfg) (eye : Bool) : Bool × Bool :=
  (checkColorChiFrom cards cfg.indices [] eye, eye)

/-- The body of the loop of `check_color`, for the count of one honour. -/
def checkColorCount (count : ℕ) (eye : Bool) : Bool × Bool :=
  if count = 1 ∨ count = 4 then (false, eye)
  else if count = 2 then if eye then (false, eye) else (true, true)
  else (true, eye)

/-- `check_color`. -/
def checkColor (cards : ℕ → ℕ) (cfg : CardCfg) (eye : Bool) : Bool × Bool :=
  scanAll (fun i => checkColorCount (cards i)) cfg.indices eye

/-- `get_hu_info`; `order` is the order in which `pairs` visits the colours. -/
def getHuInfo (order : List CardCfg) (handCards : ℕ → ℕ) (otherCard : Option ℕ) : Bool :=
  let cards := match otherCard with
    | none => handCards
    | some c => Function.update handCards c (handCards c + 1)
  (scanAll (fun cfg : CardCfg =>
    if cfg.chi then checkColorChi cards cfg else checkColor cards cfg) order false).1

/-! ## The functions shared with the other older checker -/

/-- The tables of this directory. -/
def tables : Older.Tables := ⟨autoTable, autoTableWithEye⟩

theorem checkColorChiFrom_eq (cards : ℕ → ℕ) (is tbl : List ℕ) (eye : Bool) :
    checkColorChiFrom cards is tbl eye = Older.checkColorChiFrom tables cards is tbl eye := by
  induction is generalizing tbl with
  | nil => rfl
  | cons i is ih =>
    rw [checkColorChiFrom, Older.checkColorChiFrom]
    simp only [ih]
    rfl

theorem getHuInfo_eq (order : List CardCfg) (handCards : ℕ → ℕ) (otherCard : Option ℕ) :
    getHuInfo order handCards otherCard = Older.getHuInfo tables order handCards otherCard := by
  have hcolour : ∀ cards : ℕ → ℕ, (fun cfg : CardCfg =>
      if cfg.chi then checkColorChi cards cfg else checkColor cards cfg) =
        Older.checkColour tables cards := by
    intro cards
    funext cfg eye
    rw [Older.checkColour]
    split_ifs
    · rw [checkColorChi, Older.checkColorChi, checkColorChiFrom_eq]
    · rfl
  have hscan : ∀ cards : ℕ → ℕ, (scanAll (fun cfg : CardCfg =>
      if cfg.chi then checkColorChi cards cfg else checkColor cards cfg) order false).1 =
        (scanAll (Older.checkColour tables cards) order false).1 := by
    intro cards
    rw [hcolour]
  cases otherCard with
  | none => exact hscan _
  | some c => exact hscan _

/-! ## The tables of this directory decide the inner runs -/

/-- The shipped table has all runs of up to eight counts that are sums of melds. -/
theorem autoTable_eq : rowKeys 8 12 [(0, 0, 0)] 0 = 0 :: autoTable := by
  decide +kernel

/-- The shipped table with eye is part of that of `mjlib/base`. -/
theorem autoTableWithEye_sublist :
    autoTableWithEye.isSublist baseAutoTableWithEye = true := by
  decide +kernel

theorem digits_of_isRow {n w : ℕ} {r : List ℕ} (hr : IsRow n w r) : ∀ c ∈ r, 0 < c ∧ c < 10 := by
  intro c hc
  have := hr.counts c hc
  omega

/-- A run that ends before the last rank is in the table iff it is a sum of melds. -/
theorem checkWave_iff {r : List ℕ} (hr : IsRow 8 12 r) (hne : r ≠ []) :
    Older.checkWave tables r = true ↔ Splits true 0 0 0 r := by
  have hkey : key r ∈ autoTable ↔ key r ∈ rowKeys 8 12 [(0, 0, 0)] 0 := by
    have hzero : key r ≠ 0 := fun h =>
      hne (key_injective (digits_of_isRow hr) (by simp) (h.trans rfl))
    rw [autoTable_eq, List.mem_cons]
    exact ⟨.inr, fun h => h.resolve_left hzero⟩
  rw [Older.checkWave_eq_true]
  apply hkey.trans
  rw [mem_rowKeys_start (by decide)]
  refine ⟨?_, fun hs => ?_⟩
  · rintro ⟨l, hl, hs, hkey⟩
    rwa [key_injective (digits_of_isRow hr) (digits_of_isRow hl) hkey]
  · exact ⟨r, hr, hs, rfl⟩

/-- A run whose key is in the table with eye is melds and a pair. -/
theorem splits_of_mem_autoTableWithEye {r : List ℕ} (hr : IsRow 8 14 r)
    (h : key r ∈ autoTableWithEye) : Splits true 0 0 1 r := by
  have hmem := (List.isSublist_iff_sublist.mp autoTableWithEye_sublist).subset h
  rw [← Base.baseAutoTableWithEye_eq] at hmem
  have hrow : IsRow 9 14 r := ⟨Nat.le_succ_of_le hr.length_le, hr.counts, hr.sum_le⟩
  exact (Base.key_mem_rowKeys (by decide) hrow).mp (List.mem_of_mem_erase hmem)

/-- **The tables of this directory miss no inner run.** -/
theorem decides : Older.Decides tables [] where
  wave r hr hne := by simpa using checkWave_iff hr hne
  waveAndEye r hr hne hmod := by
    have hsound : ∀ l, IsRow 8 12 l → Older.checkWave tables l = true → Splits true 0 0 0 l := by
      intro l hl h
      by_cases hnil : l = []
      · rw [hnil]
        exact .nil
      · exact (checkWave_iff hl hnil).mp h
    rw [Older.checkWaveAndEye_iff]
    simp only [List.not_mem_nil, not_false_iff, and_true]
    refine ⟨?_, fun hs => ?_⟩
    · rintro (hone | hkey | hpair)
      · -- the run of a single pair
        obtain ⟨c, rfl⟩ := List.length_eq_one_iff.mp hone
        have := hr.counts c (List.mem_singleton_self c)
        rw [List.sum_singleton] at hmod
        obtain rfl : c = 2 := by omega
        decide
      · exact splits_of_mem_autoTableWithEye hr hkey
      · exact hpair.splits hsound hr
    · refine .inr (.inr (Older.pairFound_of_splits (fun l hl hne => ?_) hr hs))
      exact (checkWave_iff hl hne).mpr

/-! ## Hands that are accepted -/

/-- **The hands that are accepted** are those that look won. -/
theorem looksWon_iff {order : List CardCfg} (horder : VisitOrder order) {cards : ℕ → ℕ}
    (hle : ∀ i, cards i ≤ 4)
    (hsum : ∀ cfg ∈ colours, cfg.chi = true → (cfg.counts cards).sum ≤ 14) :
    (scanAll (Older.checkColour tables cards) order false).1 = true ↔
      Older.LooksWon order cards := by
  rw [Older.getHuInfo_iff decides horder hle hsum]
  simp

/-- **A hand of suits is accepted** if each suit is a sum of melds and at most
one pair, and there are no honours. -/
theorem getHuInfo_of_splits {order : List CardCfg} (horder : VisitOrder order) {cards : ℕ → ℕ}
    (hcards : ∀ i, cards i ≤ 4)
    (hsuit : ∀ cfg ∈ colours, cfg.chi = true → (cfg.counts cards).sum ≤ 14 ∧
      ∃ e, e ≤ 1 ∧ Splits true 0 0 e (cfg.counts cards))
    (hzi : ∀ cfg ∈ colours, cfg.chi = false → ∀ i ∈ cfg.indices, cards i = 0) :
    getHuInfo order cards none = true := by
  have hzero : ∀ c ∈ Older.zi.counts cards, c = 0 := by
    intro c hc
    obtain ⟨i, hi, rfl⟩ := List.mem_map.mp hc
    exact hzi Older.zi (by decide) rfl i hi
  have hnotTwo : 2 ∉ Older.zi.counts cards := fun h => absurd (hzero 2 h) (by decide)
  rw [getHuInfo_eq, Older.getHuInfo,
    looksWon_iff horder hcards fun cfg hcfg hchi => (hsuit cfg hcfg hchi).1]
  refine ⟨fun cfg hcfg hchi r hr => ?_, fun c hc => ?_, ?_, fun h => absurd h hnotTwo⟩
  · -- a run takes at most the pairs of its row
    obtain ⟨-, e, he, hs⟩ := hsuit cfg hcfg hchi
    obtain ⟨e', he', hs'⟩ := (splits_iff_runs.mp hs).exists_of_mem
      (List.mem_map_of_mem (mem_runs_of_mem_innerRuns hr))
    exact ⟨e', he'.trans he, hs'⟩
  · rw [hzero c hc]
    decide
  · rw [List.count_eq_zero_of_not_mem hnotTwo]
    decide

end SlgServer.Gui
