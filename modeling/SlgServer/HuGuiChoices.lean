import SlgServer.GuiTableKeys
import SlgServer.HuGuiLib

/-!
# What the jokers can do for each colour

The lists of `list_probability` hold what the jokers can do for one colour
(`Listed.fills`, `listed_of_fills`), with one exception: the entry of
`check_feng_eye_table` for four jokers is the table for three, and no honours are
ever found there.

`getHuInfo_iff_shares`: the checker accepts a hand iff the jokers can be shared out
among the colours, some being left perhaps, so that each is completed.

`checkProbability_exact`: the search is exact, and so are its shortcuts for the hands that
are split at all.
-/

namespace SlgServer.HuGui

open Melds Scan Gui

variable {order : List CardCfg}

theorem splitTable_eq : splitTable = colours := rfl

/-! ## The tables -/

theorem length_counts {v : CardCfg} (hv : v ∈ splitTable) (t : ℕ → ℕ) :
    (v.counts t).length = if v.chi then 9 else 7 := by
  simp only [splitTable, List.mem_cons, List.not_mem_nil, or_false] at hv
  rcases hv with rfl | rfl | rfl | rfl <;> rfl

/-- The table for suits that `check_table` looks into. -/
theorem checkTable_chi_eq {key k : ℕ} {eye : Bool} :
    checkTable order key k eye true = true ↔
      k ≤ 4 ∧ key ∈ (genGuiTable autoGui order).tables eye k := by
  simp only [checkTable, if_true]
  match k with
  | 0 | 1 | 2 | 3 | 4 => cases eye <;> simp [checkTables, checkEyeTables]
  | k + 5 => cases eye <;> simp [checkTables, checkEyeTables]

/-- The table for honours that `check_table` looks into: with a pair, the one for three
jokers serves for four as well. -/
theorem checkTable_feng_eq {key k : ℕ} {eye : Bool} :
    checkTable order key k eye false = true ↔
      k ≤ 4 ∧ key ∈ (genGuiTable autoFengGui order).tables eye
        (if eye = true ∧ k = 4 then 3 else k) := by
  simp only [checkTable, Bool.false_eq_true, if_false]
  match k with
  | 0 | 1 | 2 | 3 | 4 => cases eye <;> simp [checkFengTables, checkFengEyeTables]
  | k + 5 => cases eye <;> simp [checkFengTables, checkFengEyeTables]

/-- A choice that is listed for a colour: what `list_probability` finds for its
counts. -/
def Listed (order : List CardCfg) (t : ℕ → ℕ) (guiNum : ℕ) (v : CardCfg) (e k : ℕ) : Prop :=
  ∃ eye : Bool, e = eye.toNat ∧
    ⟨eye, k⟩ ∈ listProbability order guiNum (v.counts t).sum (key (v.counts t)) v.chi

theorem mem_listProbability {guiNum num key k : ℕ} {eye chi : Bool} :
    (⟨eye, k⟩ : Choice) ∈ listProbability order guiNum num key chi ↔
      k ≤ guiNum ∧ (num + k) % 3 = 2 * eye.toNat ∧ checkTable order key k eye chi = true := by
  have hround : ∀ i, probability order num key chi i = some ⟨eye, k⟩ ↔
      i = k ∧ (num + k) % 3 = 2 * eye.toNat ∧ checkTable order key k eye chi = true := by
    intro i
    simp only [probability]
    refine ⟨fun h => ?_, ?_⟩
    · split_ifs at h with hmod htable hmod' htable <;> cases h
      · exact ⟨rfl, hmod, htable⟩
      · exact ⟨rfl, hmod', htable⟩
    · rintro ⟨rfl, hmod, htable⟩
      cases eye with
      | false =>
        simp only [Bool.toNat_false] at hmod
        rw [if_pos hmod, if_pos htable]
      | true =>
        simp only [Bool.toNat_true] at hmod
        rw [if_neg (by omega), if_pos hmod, if_pos htable]
  simp only [listProbability, List.mem_filterMap, List.mem_range, hround]
  refine ⟨?_, ?_⟩
  · rintro ⟨i, hi, rfl, h⟩
    exact ⟨by omega, h⟩
  · rintro ⟨hk, h⟩
    exact ⟨k, by omega, rfl, h⟩

theorem counts_le {t : ℕ → ℕ} (ht : ∀ i, t i ≤ 4) (v : CardCfg) : ∀ c ∈ v.counts t, c ≤ 4 := by
  intro c hc
  obtain ⟨i, -, rfl⟩ := List.mem_map.mp hc
  exact ht i

/-- Honours are never found to take four jokers with a pair: the rows of the table in
its place have another remainder. -/
theorem not_listed_four (horder : VisitOrder order) {t : ℕ → ℕ} (ht : ∀ i, t i ≤ 4) {guiNum : ℕ}
    {v : CardCfg} (hv : v ∈ splitTable) (hchi : v.chi = false) : ¬ Listed order t guiNum v 1 4 := by
  rintro ⟨eye, heye, hlisted⟩
  obtain rfl : eye = true := by
    cases eye
    · cases heye
    · rfl
  obtain ⟨-, hmod, htable⟩ := mem_listProbability.mp hlisted
  have hlen := length_counts hv t
  rw [hchi] at htable hlen
  obtain ⟨-, hmem⟩ := checkTable_feng_eq.mp htable
  obtain ⟨-, -, hfills⟩ := (mem_tables sound_autoFengGui horder hlen (counts_le ht v)).mp hmem
  have hmod' := hfills.sum_mod
  simp only [Bool.toNat_true, and_self, if_true] at hmod hmod'
  omega

/-- What is listed can be done with the jokers. -/
theorem Listed.fills (horder : VisitOrder order) {t : ℕ → ℕ} (ht : ∀ i, t i ≤ 4) {guiNum e k : ℕ}
    {v : CardCfg} (hv : v ∈ splitTable) (h : Listed order t guiNum v e k) :
    e ≤ 1 ∧ k ≤ guiNum ∧ Fills v.chi e k (v.counts t) := by
  have hlost : v.chi = false → ¬ Listed order t guiNum v 1 4 := not_listed_four horder ht hv
  obtain ⟨eye, rfl, hlisted⟩ := h
  obtain ⟨hk, -, htable⟩ := mem_listProbability.mp hlisted
  have hlen := length_counts hv t
  refine ⟨Bool.toNat_le eye, hk, ?_⟩
  cases hchi : v.chi with
  | true =>
    rw [hchi] at htable hlen
    obtain ⟨-, hmem⟩ := checkTable_chi_eq.mp htable
    exact ((mem_tables sound_autoGui horder hlen (counts_le ht v)).mp hmem).2.2
  | false =>
    have hpair : ¬ (eye = true ∧ k = 4) := by
      rintro ⟨rfl, rfl⟩
      exact hlost hchi ⟨true, rfl, hlisted⟩
    rw [hchi] at htable hlen
    obtain ⟨-, hmem⟩ := checkTable_feng_eq.mp htable
    rw [if_neg hpair] at hmem
    exact ((mem_tables sound_autoFengGui horder hlen (counts_le ht v)).mp hmem).2.2

/-- What the jokers can do is listed, except for honours that take all four with a
pair. -/
theorem listed_of_fills (horder : VisitOrder order) {t : ℕ → ℕ} (ht : ∀ i, t i ≤ 4)
    {guiNum e k : ℕ} {v : CardCfg} (hv : v ∈ splitTable) (he : e ≤ 1) (hk : k ≤ guiNum)
    (hk4 : k ≤ 4) (hsum : (v.counts t).sum + k ≤ 14) (h : Fills v.chi e k (v.counts t))
    (hslip : ¬ (v.chi = false ∧ e = 1 ∧ k = 4)) : Listed order t guiNum v e k := by
  obtain ⟨eye, rfl⟩ : ∃ eye : Bool, e = eye.toNat := by
    obtain rfl | rfl : e = 0 ∨ e = 1 := by omega
    · exact ⟨false, rfl⟩
    · exact ⟨true, rfl⟩
  have hlen := length_counts hv t
  have hcounts := counts_le ht v
  have hmod := h.sum_mod
  have hsum' : (v.counts t).sum + k ≤ 12 + 2 * eye.toNat := by omega
  refine ⟨eye, rfl, mem_listProbability.mpr ⟨hk, by omega, ?_⟩⟩
  cases hchi : v.chi with
  | true =>
    rw [hchi] at h hlen
    exact checkTable_chi_eq.mpr
      ⟨hk4, (mem_tables sound_autoGui horder hlen hcounts).mpr ⟨hk4, hsum', h⟩⟩
  | false =>
    rw [hchi] at h hlen
    have hpair : ¬ (eye = true ∧ k = 4) := fun hpair => hslip ⟨hchi, by rw [hpair.1]; rfl, hpair.2⟩
    refine checkTable_feng_eq.mpr ⟨hk4, ?_⟩
    rw [if_neg hpair]
    exact (mem_tables sound_autoFengGui horder hlen hcounts).mpr ⟨hk4, hsum', h⟩

/-! ## The colours together -/

/-- What is chosen for a colour: something listed if it has tiles, else nothing. -/
def Chosen (order : List CardCfg) (t : ℕ → ℕ) (guiNum : ℕ) (v : CardCfg) (e k : ℕ) : Prop :=
  if (v.counts t).sum > 0 then Listed order t guiNum v e k else e = 0 ∧ k = 0

/-- The lists of `split_info` are not empty and ask for no more jokers than there are. -/
theorem splitInfoFrom_lists {t : ℕ → ℕ} {guiNum : ℕ} {vs : List CardCfg}
    {splited : List (List Choice)} (h : splitInfoFrom order t guiNum vs = some splited) :
    ∀ choices ∈ splited, choices ≠ [] ∧ ∀ v ∈ choices, v.guiNum ≤ guiNum := by
  induction vs generalizing splited with
  | nil =>
    cases h
    simp
  | cons v vs ih =>
    simp only [splitInfoFrom] at h
    split_ifs at h with hnum hempty
    · obtain ⟨rest, hrest, rfl⟩ := Option.map_eq_some_iff.mp h
      refine List.forall_mem_cons.mpr ⟨⟨fun hnil => hempty (by rw [hnil]; rfl), fun c hc => ?_⟩,
        ih hrest⟩
      exact (mem_listProbability.mp hc).1
    · exact ih h

/-- The choices of `split_info` are shared out among the colours. -/
theorem shares_chosen_iff {t : ℕ → ℕ} {guiNum e k : ℕ} {vs : List CardCfg} :
    Shares (Chosen order t guiNum) e k vs ↔ ∃ splited cs,
      splitInfoFrom order t guiNum vs = some splited ∧ Picks cs splited ∧ eyes cs = e ∧
        jokers cs = k := by
  induction vs generalizing e k with
  | nil =>
    refine ⟨?_, ?_⟩
    · rintro ⟨rfl, rfl⟩
      exact ⟨[], [], rfl, .nil, rfl, rfl⟩
    · rintro ⟨_, cs, hsome, hpicks, rfl, rfl⟩
      cases hsome
      cases hpicks
      exact ⟨rfl, rfl⟩
  | cons v vs ih =>
    simp only [Shares, ih, Chosen, splitInfoFrom]
    by_cases hnum : (v.counts t).sum > 0
    · simp only [if_pos hnum]
      refine ⟨?_, ?_⟩
      · rintro ⟨_, _, _, _, rfl, rfl, ⟨eye, rfl, hlisted⟩, splited, cs, hsome, hpicks, rfl, rfl⟩
        -- `split_info` gives up at an empty list only
        have hne : ¬ (listProbability order guiNum (v.counts t).sum (key (v.counts t))
            v.chi).length = 0 := fun h => by
          rw [List.eq_nil_of_length_eq_zero h] at hlisted
          cases hlisted
        rw [if_neg hne, hsome]
        exact ⟨_, _ :: cs, rfl, .cons hlisted hpicks, rfl, rfl⟩
      · rintro ⟨_, cs, hsome, hpicks, rfl, rfl⟩
        split_ifs at hsome
        obtain ⟨rest, hrest, rfl⟩ := Option.map_eq_some_iff.mp hsome
        cases hpicks with
        | @cons c _ cs _ hc hcs =>
          exact ⟨c.eye.toNat, _, c.guiNum, _, rfl, rfl, ⟨c.eye, rfl, hc⟩, rest, cs, hrest, hcs,
            rfl, rfl⟩
    · simp only [if_neg hnum]
      refine ⟨?_, ?_⟩
      · rintro ⟨_, _, _, _, rfl, rfl, ⟨rfl, rfl⟩, splited, cs, hsome, hpicks, rfl, rfl⟩
        exact ⟨splited, cs, hsome, hpicks, (Nat.zero_add _).symm, (Nat.zero_add _).symm⟩
      · rintro ⟨splited, cs, hsome, hpicks, rfl, rfl⟩
        exact ⟨0, _, 0, _, (Nat.zero_add _).symm, (Nat.zero_add _).symm, ⟨rfl, rfl⟩, splited, cs,
          hsome, hpicks, rfl, rfl⟩

/-- What is chosen for a colour fixes the remainder of its tiles and jokers. -/
theorem Chosen.mod {t : ℕ → ℕ} {guiNum e k : ℕ} {v : CardCfg} (h : Chosen order t guiNum v e k) :
    ((v.counts t).sum + k) % 3 = 2 * e % 3 := by
  rw [Chosen] at h
  split_ifs at h with hnum
  · obtain ⟨eye, rfl, hlisted⟩ := h
    have hmod := (mem_listProbability.mp hlisted).2.1
    have := Bool.toNat_le eye
    omega
  · omega

/-- A pair can always be made of the jokers that are left, if none was made before. -/
theorem jokers_left {t : ℕ → ℕ} {guiNum n : ℕ} (htotal : total t + guiNum = 3 * n + 2)
    {splited : List (List Choice)} (h : splitInfo order t guiNum = some splited) {vs : List Choice}
    (hvs : Picks vs splited) (he : eyes vs = 0) (hk : jokers vs ≤ guiNum) :
    jokers vs + 2 ≤ guiNum := by
  have hshares : Shares (Chosen order t guiNum) (eyes vs) (jokers vs) splitTable :=
    shares_chosen_iff.mpr ⟨splited, vs, h, hvs, rfl, rfl⟩
  have hmod := hshares.mod (f := fun v => (v.counts t).sum) fun _ _ _ _ hchosen => hchosen.mod
  rw [splitTable_eq, total_eq visitOrder_colours] at hmod
  omega

/-- Taking the jokers out of a hand. -/
theorem total_update (cards : ℕ → ℕ) {gui : ℕ} (hgui : 1 ≤ gui ∧ gui ≤ 34) :
    total (Function.update cards gui 0) + cards gui = total cards := by
  have hmem : gui ∈ List.range' 1 34 := List.mem_range'_1.mpr (by omega)
  have hsum := sum_map_update List.nodup_range' hmem cards 0
  rw [total, total]
  omega

/-- **The checker accepts** iff pairs and jokers can be shared out among the colours,
one pair at most and no more jokers than there are. The shortcuts for no colour and
for one give the same answer, and so does the test for two jokers left. -/
theorem getHuInfo_iff_shares {cards : ℕ → ℕ} {gui n : ℕ} (hgui : 1 ≤ gui ∧ gui ≤ 34)
    (htotal : total cards = 3 * n + 2) :
    getHuInfo order cards gui = true ↔ ∃ e k, e ≤ 1 ∧ k ≤ cards gui ∧
      Shares (Chosen order (Function.update cards gui 0) (cards gui)) e k splitTable := by
  have hrest : total (Function.update cards gui 0) + cards gui = 3 * n + 2 := by
    rw [total_update cards hgui, htotal]
  cases hsplit : splitInfo order (Function.update cards gui 0) (cards gui) with
  | none =>
    simp only [getHuInfo, hsplit]
    refine iff_of_false (by simp) ?_
    rintro ⟨e, k, -, -, h⟩
    obtain ⟨splited, vs, hsome, -⟩ := shares_chosen_iff.mp h
    rw [splitInfo, hsome] at hsplit
    cases hsplit
  | some splited =>
    simp only [getHuInfo, hsplit]
    rw [checkProbability_iff_of_left (splitInfoFrom_lists hsplit) fun vs =>
      jokers_left hrest hsplit]
    refine ⟨?_, ?_⟩
    · rintro ⟨vs, hvs, he, hk⟩
      exact ⟨eyes vs, jokers vs, he, hk, shares_chosen_iff.mpr ⟨splited, vs, hsplit, hvs, rfl, rfl⟩⟩
    · rintro ⟨e, k, he, hk, h⟩
      obtain ⟨_, vs, hsome, hvs, rfl, rfl⟩ := shares_chosen_iff.mp h
      obtain rfl := Option.some.inj (hsplit.symm.trans hsome)
      exact ⟨vs, hvs, he, hk⟩

/-- **Combining colours is an exact search.** For two lists or more `check_probability`
succeeds iff one choice a colour can be made that fits: one pair at most, no more jokers
than there are, and two of them left if there is no pair. What fails leaves `info` as it
was, a single branch and a whole level. On the lists of `split_info` for a hand of
`3 * n + 2` tiles the shortcuts for no colour and for one agree with this rule. -/
theorem checkProbability_exact :
    (∀ (splited : List (List Choice)) (guiNum : ℕ), 2 ≤ splited.length →
        (∀ choices ∈ splited, choices ≠ [] ∧ ∀ v ∈ choices, v.guiNum ≤ guiNum) →
        (checkProbability splited guiNum = true ↔
          ∃ vs, Picks vs splited ∧ Fits ⟨false, guiNum⟩ vs)) ∧
      (∀ (rest : List (List Choice)) (v : Choice),
        Undoes (checkChoice (checkProbabilitySub rest) rest.isEmpty v)) ∧
      (∀ splited, Undoes (checkProbabilitySub splited)) ∧
      ∀ (order : List CardCfg) (t : ℕ → ℕ) (guiNum n : ℕ) (splited : List (List Choice)),
        total t + guiNum = 3 * n + 2 → splitInfo order t guiNum = some splited →
        (checkProbability splited guiNum = true ↔
          ∃ vs, Picks vs splited ∧ Fits ⟨false, guiNum⟩ vs) := by
  have hundoes : ∀ splited, Undoes (checkProbabilitySub splited) := by
    intro splited
    by_cases hne : splited = []
    · subst hne
      exact fun _ _ => rfl
    · exact (checkProbabilitySub_spec hne).1
  refine ⟨fun splited guiNum hlen hlists => ?_, fun rest v => checkChoice_undoes (hundoes rest) _ v,
    hundoes, fun order t guiNum n splited htotal h => ?_⟩
  · exact checkProbability_iff hlen fun choices hc => (hlists choices hc).2
  · rw [checkProbability_iff_of_left (splitInfoFrom_lists h) fun vs => jokers_left htotal h]
    refine exists_congr fun vs => and_congr_right fun hvs => ?_
    simp only [Fits, Bool.toNat_false, Nat.zero_add]
    refine ⟨?_, ?_⟩
    · rintro ⟨he, hk⟩
      exact ⟨he, hk, fun h0 => jokers_left htotal h hvs h0 hk⟩
    · rintro ⟨he, hk, -⟩
      exact ⟨he, hk⟩

/-- With three jokers and, for each of two colours, one joker without a pair, no pair can
be made. -/
theorem checkProbability_exact_oneLeft :
    ¬ ∃ vs, Picks vs [[⟨false, 1⟩], [⟨false, 1⟩]] ∧ Fits ⟨false, 3⟩ vs := by
  have hexact := checkProbability_exact.1 [[⟨false, 1⟩], [⟨false, 1⟩]] 3 (by decide) (by decide)
  rw [← hexact]
  decide

end SlgServer.HuGui
