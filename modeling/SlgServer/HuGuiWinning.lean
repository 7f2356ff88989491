import SlgServer.HuGuiChoices

/-!
# Which hands win with jokers

A hand is `Completable` if its jokers can be replaced by other tiles so that it
wins. `getHuInfo_iff`: the checker accepts exactly the hands that are completable
and not `FengEyeLost`, those that need the missing table for honours with a pair and
four jokers.
-/

namespace SlgServer.HuGui

open Melds Scan Gui

variable {order : List CardCfg}

/-! ## Completing the colours -/

/-- Colours that do not share a kind. -/
def Apart (vs : List CardCfg) : Prop :=
  vs.Pairwise fun v v' => ∀ i ∈ v.indices, i ∉ v'.indices

instance (vs : List CardCfg) : Decidable (Apart vs) := by
  unfold Apart
  infer_instance

theorem counts_congr {v : CardCfg} {t u : ℕ → ℕ} (h : ∀ i ∈ v.indices, u i = t i) :
    v.counts u = v.counts t := List.map_congr_left h

/-- The counts of all the kinds of some colours. -/
def kinds (vs : List CardCfg) : List ℕ := vs.flatMap CardCfg.indices

theorem kinds_cons (v : CardCfg) (vs : List CardCfg) : kinds (v :: vs) = v.indices ++ kinds vs := rfl

/-- **Colours completed one by one** are completed together. -/
theorem exists_counts_of_shares {vs : List CardCfg} (hvs : Apart vs) {t : ℕ → ℕ} {e k : ℕ}
    (h : Shares (fun v e k => Fills v.chi e k (v.counts t)) e k vs) :
    ∃ u, Lowers (kinds vs) k u t ∧ (∀ i ∈ kinds vs, u i ≤ 4) ∧ (∀ i, i ∉ kinds vs → u i = t i) ∧
      SplitsAll e (rows vs u) := by
  induction vs generalizing e k with
  | nil =>
    obtain ⟨rfl, rfl⟩ := h
    exact ⟨t, lowers_zero.mpr rfl, by simp [kinds], fun _ _ => rfl, rfl⟩
  | cons v vs ih =>
    obtain ⟨hv, hvs⟩ := List.pairwise_cons.mp hvs
    obtain ⟨e₁, e₂, k₁, k₂, rfl, rfl, hfills, h⟩ := h
    obtain ⟨u₂, hlow₂, hfour₂, hout₂, hsplits₂⟩ := ih hvs h
    have hoff : ∀ i ∈ v.indices, i ∉ kinds vs := by
      intro i hi hmem
      obtain ⟨v', hv', hi'⟩ := List.mem_flatMap.mp hmem
      exact hv v' hv' i hi hi'
    have hsame₂ : ∀ i ∈ v.indices, t i = u₂ i := fun i hi => (hout₂ i (hoff i hi)).symm
    have hnd : v.indices.Nodup := List.nodup_range'
    rw [counts_congr hsame₂] at hfills
    obtain ⟨u, hlow, hfour, hout, hsplits⟩ := Fills.exists_counts hnd hfills
    have hrest : ∀ i ∈ kinds vs, u i = u₂ i := fun i hi => hout i fun h => hoff i h hi
    have hrows : rows vs u = rows vs u₂ := List.map_congr_left fun v' hv' => by
      rw [CardCfg.row, CardCfg.row,
        counts_congr fun i hi => hrest i (List.mem_flatMap.mpr ⟨v', hv', hi⟩)]
    rw [kinds_cons]
    simp only [List.forall_mem_append]
    simp only [List.mem_append, not_or]
    refine ⟨u, lowers_append.mpr ⟨k₁, k₂, rfl, ?_, ?_⟩, ⟨hfour, fun i hi => ?_⟩, fun i hi => ?_,
      e₁, e₂, rfl, hsplits, ?_⟩
    · exact hlow.congr (fun _ _ => rfl) hsame₂
    · exact hlow₂.congr hrest fun _ _ => rfl
    · rw [hrest i hi]
      exact hfour₂ i hi
    · rw [hout i hi.1, hout₂ i hi.2]
    · change SplitsAll e₂ (rows vs u)
      rwa [hrows]

/-- Colours completed together are completed one by one. -/
theorem shares_of_splitsAll {vs : List CardCfg} {t u : ℕ → ℕ} {e k : ℕ}
    (hlow : Lowers (kinds vs) k u t) (hfour : ∀ i ∈ kinds vs, u i ≤ 4)
    (h : SplitsAll e (rows vs u)) :
    Shares (fun v e k => Fills v.chi e k (v.counts t)) e k vs := by
  induction vs generalizing e k with
  | nil => exact ⟨h, by simpa [kinds] using hlow.2.symm⟩
  | cons v vs ih =>
    rw [kinds_cons] at hlow hfour
    obtain ⟨hfour₁, hfour₂⟩ := List.forall_mem_append.mp hfour
    obtain ⟨k₁, k₂, hk, hlow₁, hlow₂⟩ := lowers_append.mp hlow
    obtain ⟨e₁, e₂, he, hs₁, hs₂⟩ := h
    exact ⟨e₁, e₂, k₁, k₂, he, hk, hlow₁.fills hfour₁ hs₁, ih hlow₂ hfour₂ hs₂⟩

/-! ## Hands with jokers -/

/-- The jokers of a hand can be replaced by tiles of any kinds, so that there are
still at most four of each, and one pair and `n` melds in all. -/
def Completable (h : Hand) (gui n : ℕ) : Prop :=
  ∃ h' : Hand, (∀ i, i ≠ gui → h.count i ≤ h'.count i) ∧ total h'.count = total h.count ∧
    Winning h'.count n

/-- The counts of a hand without its jokers. -/
def rest (h : Hand) (gui : ℕ) : ℕ → ℕ := Function.update h.count gui 0

theorem rest_le (h : Hand) (gui i : ℕ) : rest h gui i ≤ h.count i := by
  rw [rest, Function.update_apply]
  split_ifs
  · exact Nat.zero_le _
  · exact Nat.le_refl _

theorem rest_le_iff {h : Hand} {gui : ℕ} {u : ℕ → ℕ} :
    (∀ i, rest h gui i ≤ u i) ↔ ∀ i, i ≠ gui → h.count i ≤ u i := by
  refine ⟨fun hle i hi => ?_, fun hle i => ?_⟩
  · have := hle i
    rwa [rest, Function.update_of_ne hi] at this
  · by_cases hi : i = gui
    · rw [hi, rest, Function.update_self]
      exact Nat.zero_le _
    · rw [rest, Function.update_of_ne hi]
      exact hle i hi

theorem mem_kinds {i : ℕ} : i ∈ kinds splitTable ↔ 1 ≤ i ∧ i ≤ 34 := by
  rw [kinds, splitTable_eq, flatMap_indices, List.mem_range'_1]
  omega

theorem sum_kinds (cards : ℕ → ℕ) : ((kinds splitTable).map cards).sum = total cards := by
  rw [kinds, splitTable_eq, flatMap_indices, total]

/-- Fourteen tiles leave some kind free. -/
theorem exists_free {u : ℕ → ℕ} (h : total u ≤ 14) : ∃ i, (1 ≤ i ∧ i ≤ 34) ∧ u i = 0 := by
  by_contra hno
  have hone : ∀ c ∈ (List.range' 1 34).map u, 1 ≤ c := by
    intro c hc
    obtain ⟨i, hi, rfl⟩ := List.mem_map.mp hc
    rw [List.mem_range'_1] at hi
    by_contra hzero
    exact hno ⟨i, by omega, by omega⟩
  have := List.length_le_sum_of_one_le _ hone
  rw [List.length_map, List.length_range'] at this
  rw [total] at h
  omega

/-- Counts that are a deal but for `c` tiles of a free kind `j`, which with the melds
`ms'` and the pairs `ps'` make up a hand that wins. -/
theorem completable_of_free {h : Hand} {gui n j p : ℕ} {u : ℕ → ℕ} {ms : List Meld}
    {ps : List ℕ} (c : ℕ) (ms' : List Meld) (ps' : List ℕ)
    (htotal : total h.count = 3 * n + 2) (hle : ∀ i, rest h gui i ≤ u i)
    (hfour : ∀ i, u i ≤ 4) (hsupport : ∀ i, u i ≠ 0 → 1 ≤ i ∧ i ≤ 34) (hms : ∀ m ∈ ms, LegalMeld m)
    (hdeals : Deals ms ps u) (hj : 1 ≤ j ∧ j ≤ 34) (hfree : u j = 0) (hc : c ≤ 4)
    (hleft : total u + c = total h.count) (hms' : ∀ m ∈ ms', LegalMeld m)
    (hdeal' : ∀ x, tileCount ms' x + 2 * ps'.count x = if x = j then c else 0)
    (hp : 1 ≤ p ∧ p ≤ 34) (hps : ps' ++ ps = [p]) : Completable h gui n := by
  have hfour' : ∀ i, Function.update u j c i ≤ 4 := by
    intro i
    rw [Function.update_apply]
    split_ifs
    · exact hc
    · exact hfour i
  have hsupport' : ∀ i, Function.update u j c i ≠ 0 → 1 ≤ i ∧ i ≤ 34 := by
    intro i hi
    by_cases hij : i = j
    · exact hij ▸ hj
    · rw [Function.update_of_ne hij] at hi
      exact hsupport i hi
  -- kind `j` is free in `u`, so the hand without jokers has no tile of it either
  have hle' : ∀ i, rest h gui i ≤ Function.update u j c i := by
    intro i
    have hi := hle i
    rw [Function.update_apply]
    split_ifs with hij
    · rw [hij, hfree] at hi
      rw [hij]
      omega
    · exact hi
  have htotal' : total (Function.update u j c) = total h.count := by
    have hupdate := sum_map_update List.nodup_range'
      (List.mem_range'_1.mpr (by omega) : j ∈ List.range' 1 34) u c
    rw [total] at hleft ⊢
    omega
  have hdeals' : Deals (ms' ++ ms) [p] (Function.update u j c) := by
    intro x
    have hx := hdeals x
    have hx' := hdeal' x
    rw [← hps, tileCount_append, List.count_append, Function.update_apply]
    split_ifs at hx' ⊢ with hxj
    · rw [hxj] at hx hx' ⊢
      omega
    · omega
  exact ⟨⟨Function.update u j c, hfour', hsupport'⟩, rest_le_iff.mp hle', htotal',
    winning_of_deals (List.forall_mem_append.mpr ⟨hms', hms⟩) hp hdeals' (htotal'.trans htotal)⟩

/-- **The jokers left over** make up a triplet or the pair, of a kind that is free. -/
theorem completable_of_counts {h : Hand} {gui n e left : ℕ} {u : ℕ → ℕ}
    (htotal : total h.count = 3 * n + 2) (hn : n ≤ 4) (hle : ∀ i, rest h gui i ≤ u i)
    (hfour : ∀ i, u i ≤ 4) (hsupport : ∀ i, u i ≠ 0 → 1 ≤ i ∧ i ≤ 34) (he : e ≤ 1)
    (hsplits : SplitsAll e (rows splitTable u)) (hleft : total u + left = total h.count)
    (hleft4 : left ≤ 4) : Completable h gui n := by
  obtain ⟨ms, ps, hms, rfl, hps, hdeals⟩ := exists_deals hsupport hsplits
  have hsum := total_of_deals hms hps hdeals
  obtain ⟨j, hj, hfree⟩ := exists_free (u := u) (by omega)
  obtain hpair | hpair : ps.length = 0 ∨ ps.length = 1 := by omega
  · -- without a pair two jokers are left, the number modulo 3 being what it is
    obtain rfl := List.eq_nil_of_length_eq_zero hpair
    refine completable_of_free 2 [] [j] htotal hle hfour hsupport hms hdeals hj hfree (by decide)
      (by omega) (by simp) (fun x => ?_) hj rfl
    by_cases hx : x = j
    · simp [hx]
    · simp [hx, Ne.symm hx]
  · -- with a pair there are none or three
    obtain ⟨p, rfl⟩ := List.length_eq_one_iff.mp hpair
    have hp := hps p (List.mem_singleton_self p)
    obtain rfl | rfl : left = 0 ∨ left = 3 := by omega
    · exact completable_of_free 0 [] [] htotal hle hfour hsupport hms hdeals hj hfree (by decide)
        hleft (by simp) (by simp) hp rfl
    · refine completable_of_free 3 [.triplet j] [] htotal hle hfour hsupport hms hdeals hj hfree
        (by decide) hleft (by simpa [LegalMeld] using hj) (fun x => ?_) hp rfl
      rw [tileCount_cons, Meld.count_triplet]
      by_cases hx : x = j
      · simp [hx]
      · simp [hx, Ne.symm hx]

section Hands

variable {h : Hand} {gui n : ℕ}

theorem rest_le_four (h : Hand) (gui i : ℕ) : rest h gui i ≤ 4 :=
  Nat.le_trans (rest_le h gui i) (h.le_four i)

theorem completable_of_shares (hgui : 1 ≤ gui ∧ gui ≤ 34) (htotal : total h.count = 3 * n + 2)
    (hn : n ≤ 4) {e k : ℕ} (he : e ≤ 1) (hk : k ≤ h.count gui)
    (hs : Shares (fun v e k => Fills v.chi e k (v.counts (rest h gui))) e k splitTable) :
    Completable h gui n := by
  obtain ⟨u, hlow, hfour, hout, hsplits⟩ := exists_counts_of_shares (by decide) hs
  have hoff : ∀ i, i ∉ kinds splitTable → u i = 0 := by
    intro i hi
    have hle := rest_le h gui i
    by_contra hne
    rw [hout i hi] at hne
    exact hi (mem_kinds.mpr (h.support i (by omega)))
  have hsum := hlow.2
  rw [sum_kinds, sum_kinds] at hsum
  have hrest : total (rest h gui) + h.count gui = total h.count := total_update h.count hgui
  have hgui4 := h.le_four gui
  have hleft : total u + (h.count gui - k) = total h.count := by omega
  refine completable_of_counts htotal hn (fun i => ?_) (fun i => ?_) (fun i hi => ?_) he hsplits
    hleft (by omega)
  · by_cases hi : i ∈ kinds splitTable
    · exact hlow.1 i hi
    · exact Nat.le_of_eq (hout i hi).symm
  · by_cases hi : i ∈ kinds splitTable
    · exact hfour i hi
    · rw [hoff i hi]
      exact Nat.zero_le 4
  · by_contra hno
    exact hi (hoff i fun hmem => hno (mem_kinds.mp hmem))

theorem shares_of_completable (hgui : 1 ≤ gui ∧ gui ≤ 34) (htotal : total h.count = 3 * n + 2)
    (hc : Completable h gui n) :
    Shares (fun v e k => Fills v.chi e k (v.counts (rest h gui))) 1 (h.count gui) splitTable := by
  obtain ⟨h', hle, htotal', hwin⟩ := hc
  have hrest : total (rest h gui) + h.count gui = total h.count := total_update h.count hgui
  refine shares_of_splitsAll ⟨fun i _ => rest_le_iff.mpr hle i, ?_⟩ (fun i _ => h'.le_four i)
    ((winning_iff visitOrder_colours (htotal'.trans htotal)).mp hwin)
  rw [sum_kinds, sum_kinds]
  omega

/-- Four jokers, suits that are sums of melds without them, and honours, none of them
four times, to which five tiles are missing: the jokers must make the pair and all
that is missing there. -/
structure FengEyeLost (h : Hand) (gui : ℕ) : Prop where
  /-- the jokers -/
  four : h.count gui = 4
  /-- the suits -/
  suits : ∀ v ∈ splitTable, v.chi = true → Splits true 0 0 0 (v.counts (rest h gui))
  /-- the honours -/
  honours : ∀ v ∈ splitTable, v.chi = false →
    4 ∉ v.counts (rest h gui) ∧ need (v.counts (rest h gui)) = 5

theorem le_sum_map {vs : List CardCfg} (f : CardCfg → ℕ) {v : CardCfg} (hv : v ∈ vs) :
    f v ≤ (vs.map f).sum :=
  List.single_le_sum (fun _ _ => Nat.zero_le _) _ (List.mem_map_of_mem hv)

theorem add_le_sum_map {vs : List CardCfg} (f : CardCfg → ℕ) {v v' : CardCfg} (hv : v ∈ vs)
    (hv' : v' ∈ vs) (hne : v' ≠ v) : f v + f v' ≤ (vs.map f).sum := by
  have hperm := List.perm_cons_erase hv
  have hmem : v' ∈ vs.erase v := (List.mem_erase_of_ne hne).mpr hv'
  have hle := le_sum_map f hmem
  rw [(hperm.map f).sum_eq, List.map_cons, List.sum_cons]
  omega

/-- There is one colour of honours. -/
theorem eq_of_chi {v v' : CardCfg} (hv : v ∈ splitTable) (hv' : v' ∈ splitTable)
    (hchi : v.chi = false) (hchi' : v'.chi = false) : v = v' := by
  have hzi : ∀ v ∈ splitTable, v.chi = false → v = ⟨28, 34, false⟩ := by decide
  rw [hzi v hv hchi, hzi v' hv' hchi']

theorem Chosen.fills (horder : VisitOrder order) {t : ℕ → ℕ} (ht : ∀ i, t i ≤ 4) {guiNum e k : ℕ}
    {v : CardCfg} (hv : v ∈ splitTable) (hchosen : Chosen order t guiNum v e k) :
    Fills v.chi e k (v.counts t) := by
  rw [Chosen] at hchosen
  split_ifs at hchosen with hnum
  · exact (hchosen.fills horder ht hv).2.2
  · obtain ⟨rfl, rfl⟩ := hchosen
    exact fills_of_sum_eq_zero (by omega)

/-- A hand that needs the missing table is not accepted. -/
theorem FengEyeLost.not_shares (horder : VisitOrder order) (hlost : FengEyeLost h gui) {e k : ℕ}
    (he : e ≤ 1) (hk : k ≤ h.count gui) :
    ¬ Shares (Chosen order (rest h gui) (h.count gui)) e k splitTable := by
  intro hs
  obtain ⟨E, K, hEK, rfl, rfl⟩ := (shares_iff (by decide)).mp hs
  have hzi : (⟨28, 34, false⟩ : CardCfg) ∈ splitTable := by decide
  have hchosen := hEK _ hzi
  have hneed := (hchosen.fills horder (rest_le_four h gui) hzi).need_le
  have hle := le_sum_map E hzi
  have hle' := le_sum_map K hzi
  have hfour := hlost.four
  rw [(hlost.honours _ hzi rfl).2] at hneed
  obtain ⟨hE, hK⟩ : E ⟨28, 34, false⟩ = 1 ∧ K ⟨28, 34, false⟩ = 4 := by omega
  rw [Chosen, hE, hK] at hchosen
  split_ifs at hchosen
  · exact not_listed_four horder (rest_le_four h gui) hzi rfl hchosen
  · cases hchosen.1

/-- What the jokers do for a colour of a hand that does not need the missing table can
be chosen, or something with fewer of them. -/
theorem exists_chosen (horder : VisitOrder order) {v : CardCfg} (hv : v ∈ splitTable) {e k : ℕ}
    (hfills : Fills v.chi e k (v.counts (rest h gui))) (he : e ≤ 1) (hk : k ≤ h.count gui)
    (hsum : (v.counts (rest h gui)).sum + k ≤ 14)
    (hneed : v.chi = false → e = 1 → k = 4 → need (v.counts (rest h gui)) ≠ 5) :
    ∃ e' k', e' ≤ e ∧ k' ≤ k ∧ Chosen order (rest h gui) (h.count gui) v e' k' := by
  have hgui4 := h.le_four gui
  simp only [Chosen]
  by_cases hnum : (v.counts (rest h gui)).sum > 0
  · simp only [if_pos hnum]
    by_cases hslip : v.chi = false ∧ e = 1 ∧ k = 4
    · -- one joker does as well: two tiles are missing
      obtain ⟨hchi, rfl, rfl⟩ := hslip
      have hfive := hneed hchi rfl rfl
      have hno4 : 4 ∉ v.counts (rest h gui) := by
        rw [hchi] at hfills
        exact hfills.four_not_mem he
      have hthree : ∀ c ∈ v.counts (rest h gui), c ≤ 3 := by
        intro c hc
        have hc4 := counts_le (rest_le_four h gui) v c hc
        have hne : c ≠ 4 := fun h => hno4 (h ▸ hc)
        omega
      have hmod := hfills.sum_mod
      have hmod' := sum_add_need_mod hthree
      have hle : need (v.counts (rest h gui)) ≤ 4 + 1 := by
        rw [hchi] at hfills
        exact hfills.need_le
      have hone : Fills v.chi 1 1 (v.counts (rest h gui)) := by
        rw [hchi]
        exact fills_need_pair hthree (by omega)
      exact ⟨1, 1, by omega, by omega, listed_of_fills horder (rest_le_four h gui) hv he (by omega)
        (by omega) (by omega) hone (by simp)⟩
    · exact ⟨e, k, Nat.le_refl e, Nat.le_refl k, listed_of_fills horder (rest_le_four h gui) hv he hk
        (by omega) hsum hfills hslip⟩
  · simp only [if_neg hnum]
    exact ⟨0, 0, Nat.zero_le e, Nat.zero_le k, rfl, rfl⟩

/-- If the honours get four jokers and the pair, there is nothing for the suits. -/
theorem fengEyeLost_of_parts {E K : CardCfg → ℕ}
    (hfills : ∀ v ∈ splitTable, Fills v.chi (E v) (K v) (v.counts (rest h gui)))
    (hE : (splitTable.map E).sum = 1) (hK : (splitTable.map K).sum = h.count gui) {v : CardCfg}
    (hv : v ∈ splitTable) (hchi : v.chi = false) (hpair : E v = 1) (hfour : K v = 4)
    (hneed : need (v.counts (rest h gui)) = 5) : FengEyeLost h gui := by
  have hgui4 := h.le_four gui
  have hKv := le_sum_map K hv
  have hno4 : 4 ∉ v.counts (rest h gui) := by
    have hv4 := hfills v hv
    rw [hchi] at hv4
    exact hv4.four_not_mem (by omega)
  have hother : ∀ v' ∈ splitTable, v'.chi = true → E v' = 0 ∧ K v' = 0 := by
    intro v' hv' hchi'
    have hne : v' ≠ v := fun heq => by
      rw [heq, hchi] at hchi'
      cases hchi'
    have hEtwo := add_le_sum_map E hv hv' hne
    have hKtwo := add_le_sum_map K hv hv' hne
    omega
  refine ⟨by omega, fun v' hv' hchi' => ?_, fun v' hv' hchi' => ?_⟩
  · obtain ⟨hE0, hK0⟩ := hother v' hv' hchi'
    have hv0 := hfills v' hv'
    rw [hchi', hE0, hK0] at hv0
    exact hv0.splits
  · obtain rfl := eq_of_chi hv hv' hchi hchi'
    exact ⟨hno4, hneed⟩

/-- **Which hands win with jokers**: those that can be completed, except for those that
need the missing table. -/
theorem getHuInfo_iff (horder : VisitOrder order) (hgui : 1 ≤ gui ∧ gui ≤ 34)
    (htotal : total h.count = 3 * n + 2) (hn : n ≤ 4) :
    getHuInfo order h.count gui = true ↔ Completable h gui n ∧ ¬ FengEyeLost h gui := by
  rw [getHuInfo_iff_shares hgui htotal]
  change (∃ e k, e ≤ 1 ∧ k ≤ h.count gui ∧
    Shares (Chosen order (rest h gui) (h.count gui)) e k splitTable) ↔ _
  refine ⟨?_, ?_⟩
  · rintro ⟨e, k, he, hk, hs⟩
    exact ⟨completable_of_shares hgui htotal hn he hk
      (hs.mono fun v hv e k hchosen => hchosen.fills horder (rest_le_four h gui) hv),
      fun hlost => hlost.not_shares horder he hk hs⟩
  · rintro ⟨hc, hlost⟩
    obtain ⟨E, K, hfills, hE, hK⟩ :=
      (shares_iff (by decide)).mp (shares_of_completable hgui htotal hc)
    have hrest : total (rest h gui) + h.count gui = total h.count := total_update h.count hgui
    have hsum : (splitTable.map fun v => (v.counts (rest h gui)).sum + K v).sum = total h.count := by
      rw [List.sum_map_add, splitTable_eq, total_eq visitOrder_colours, ← splitTable_eq, ← hK, hrest]
    have hchosen : ∀ v ∈ splitTable, ∃ e k, e ≤ E v ∧ k ≤ K v ∧
        Chosen order (rest h gui) (h.count gui) v e k := by
      intro v hv
      have hEv := le_sum_map E hv
      have hKv := le_sum_map K hv
      have hsumv := le_sum_map (fun v => (v.counts (rest h gui)).sum + K v) hv
      refine exists_chosen horder hv (hfills v hv) (by omega) (by omega) (by omega) ?_
      intro hchi hE1 hK4 hneed
      exact hlost (fengEyeLost_of_parts hfills hE.symm hK.symm hv hchi hE1 hK4 hneed)
    choose! E' K' hE' hK' hchosen using hchosen
    refine ⟨_, _, ?_, ?_, (shares_iff (by decide)).mpr ⟨E', K', hchosen, rfl, rfl⟩⟩
    · rw [hE]
      exact List.sum_le_sum hE'
    · rw [hK]
      exact List.sum_le_sum hK'

/-- Every hand that the missing table loses could be completed. -/
theorem FengEyeLost.completable (hlost : FengEyeLost h gui) (hgui : 1 ≤ gui ∧ gui ≤ 34)
    (htotal : total h.count = 3 * n + 2) (hn : n ≤ 4) : Completable h gui n := by
  refine completable_of_shares hgui htotal hn (Nat.le_refl 1) (Nat.le_of_eq hlost.four.symm)
    ((shares_iff (by decide)).mpr ⟨fun v => if v.chi then 0 else 1, fun v => if v.chi then 0 else 4,
      fun v hv => ?_, rfl, rfl⟩)
  change Fills v.chi (if v.chi then 0 else 1) (if v.chi then 0 else 4) (v.counts (rest h gui))
  have hle := counts_le (rest_le_four h gui) v
  cases hchi : v.chi with
  | true => exact (hlost.suits v hv hchi).fills hle
  | false =>
    obtain ⟨hno4, hneed⟩ := hlost.honours v hv hchi
    refine fills_need_pair (fun c hc => ?_) hneed
    have hc4 := hle c hc
    have hne : c ≠ 4 := fun h => hno4 (h ▸ hc)
    omega

/-- A winning hand is not lost, whichever kind is the joker. -/
theorem FengEyeLost.not_winning (hlost : FengEyeLost h gui) (htotal : total h.count = 3 * n + 2) :
    ¬ Winning h.count n := by
  intro hwin
  have hsame : Lowers (kinds splitTable) 0 h.count h.count := lowers_zero.mpr rfl
  have hshares := shares_of_splitsAll hsame (fun i _ => h.le_four i)
    ((winning_iff visitOrder_colours htotal).mp hwin)
  obtain ⟨E, K, hfills, hE, hK⟩ := (shares_iff (by decide)).mp hshares
  have hzi : (⟨28, 34, false⟩ : CardCfg) ∈ splitTable := by decide
  have hle := le_sum_map E hzi
  have hle' := le_sum_map K hzi
  have hgui : gui ∉ (⟨28, 34, false⟩ : CardCfg).indices := by
    intro hmem
    refine (hfills _ hzi).four_not_mem (by omega) ?_
    rw [← hlost.four]
    exact List.mem_map_of_mem hmem
  have hrest : (⟨28, 34, false⟩ : CardCfg).counts (rest h gui) =
      (⟨28, 34, false⟩ : CardCfg).counts h.count :=
    counts_congr fun i hi => Function.update_of_ne (fun heq : i = gui => hgui (heq ▸ hi)) _ _
  have hneed := (hfills _ hzi).need_le
  rw [← hrest, (hlost.honours _ hzi rfl).2] at hneed
  omega

end Hands

/-! ## No false win -/

/-- **No false win**: an accepted hand can be completed. -/
theorem completable_of_getHuInfo {h : Hand} {gui n : ℕ} (horder : VisitOrder order)
    (hgui : 1 ≤ gui ∧ gui ≤ 34) (htotal : total h.count = 3 * n + 2) (hn : n ≤ 4)
    (haccept : getHuInfo order h.count gui = true) : Completable h gui n :=
  ((getHuInfo_iff horder hgui htotal hn).mp haccept).1

/-- The sequence 1, 2, 3, an east wind, and a south wind for the joker. -/
def windAndJoker : Hand :=
  Hand.ofArray ([1, 1, 1] ++ List.replicate 24 0 ++ [1, 1]) (by decide) (by decide)

theorem getHuInfo_windAndJoker : getHuInfo colours windAndJoker.count 29 = true := by
  refine (getHuInfo_iff_shares (n := 1) (by decide)
    (by decide)).mpr ⟨1, 1, by decide, by decide, ?_⟩
  have hrest := rest_le_four windAndJoker 29
  have hsuit : Fills true 0 0 [1, 1, 1, 0, 0, 0, 0, 0, 0] :=
    Splits.fills (by decide) (by decide)
  have hwind : Fills false 1 1 [1, 0, 0, 0, 0, 0, 0] := fills_need_pair (by decide) (by decide)
  refine (shares_iff (by decide)).mpr
    ⟨fun v => if v.chi then 0 else 1, fun v => if v.chi then 0 else 1, ?_, rfl, rfl⟩
  intro v hv
  simp only [splitTable, List.mem_cons, List.not_mem_nil, or_false] at hv
  rcases hv with rfl | rfl | rfl | rfl
  · rw [Chosen, if_pos (by decide)]
    exact listed_of_fills visitOrder_colours hrest (by decide) (by decide) (by decide) (by decide)
      (by decide) hsuit (by decide)
  · rw [Chosen, if_neg (by decide)]
    exact ⟨rfl, rfl⟩
  · rw [Chosen, if_neg (by decide)]
    exact ⟨rfl, rfl⟩
  · rw [Chosen, if_pos (by decide)]
    exact listed_of_fills visitOrder_colours hrest (by decide) (by decide) (by decide) (by decide)
      (by decide) hwind (by decide)

theorem completable_windAndJoker : Completable windAndJoker 29 1 :=
  completable_of_getHuInfo visitOrder_colours (by decide) (by decide) (by decide)
    getHuInfo_windAndJoker

/-! ## Missed wins -/

/-- **When no win is missed**: a hand that can be completed is accepted iff it is not
one that the missing table loses; and a hand that wins as it is stays accepted. -/
theorem getHuInfo_of_completable_iff {h : Hand} {gui n : ℕ} (horder : VisitOrder order)
    (hgui : 1 ≤ gui ∧ gui ≤ 34) (htotal : total h.count = 3 * n + 2) (hn : n ≤ 4) :
    ((Completable h gui n → getHuInfo order h.count gui = true) ↔ ¬ FengEyeLost h gui) ∧
      (Winning h.count n → getHuInfo order h.count gui = true) := by
  have hiff := getHuInfo_iff horder hgui htotal hn
  refine ⟨⟨fun hall hlost => ?_, fun hlost hc => hiff.mpr ⟨hc, hlost⟩⟩, fun hwin => hiff.mpr ⟨?_, ?_⟩⟩
  · exact (hiff.mp (hall (hlost.completable hgui htotal hn))).2 hlost
  · exact ⟨h, fun _ _ => Nat.le_refl _, rfl, hwin⟩
  · exact fun hlost => hlost.not_winning htotal hwin

/-- Two east winds, a south wind, a west wind and four jokers. -/
def windsAndJokers : Hand :=
  Hand.ofArray (List.replicate 27 0 ++ [2, 1, 1, 0, 0, 0, 4]) (by decide) (by decide)

theorem fengEyeLost_windsAndJokers : FengEyeLost windsAndJokers 34 where
  four := by decide
  suits := by decide
  honours := by decide

theorem getHuInfo_of_completable_iff_windsAndJokers :
    (Completable windsAndJokers 34 2 → getHuInfo colours windsAndJokers.count 34 = true) ↔
      ¬ FengEyeLost windsAndJokers 34 :=
  (getHuInfo_of_completable_iff visitOrder_colours (by decide) (by decide) (by decide)).1

/-- They are three east winds, three south winds and two west winds, but not accepted. -/
theorem winds_lost :
    ¬ ∀ (h : Hand) (gui n : ℕ), 1 ≤ gui ∧ gui ≤ 34 → total h.count = 3 * n + 2 → n ≤ 4 →
      Completable h gui n → getHuInfo colours h.count gui = true := by
  intro hall
  have htotal : total windsAndJokers.count = 3 * 2 + 2 := by decide
  have haccept := hall windsAndJokers 34 2 (by decide) htotal (by decide)
    (fengEyeLost_windsAndJokers.completable (by decide) htotal (by decide))
  exact ((getHuInfo_iff visitOrder_colours (by decide) htotal (by decide)).mp haccept).2
    fengEyeLost_windsAndJokers

end SlgServer.HuGui
