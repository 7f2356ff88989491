import SlgServer.BaseHulib
import Mathlib.Algebra.Order.BigOperators.Group.List

/-!
# `base/hulib` decides winning hands

On freshly loaded tables `get_hu_info` returns true exactly on the hands of
`3 * n + 2` tiles that are one pair and `n` melds. The proof goes by items:

* the shipped tables hold exactly the runs that split
  (`mem_baseAutoTable`, `mem_baseAutoTableWithEye`: the exhaustive enumeration
  of `MeldRows`, compared with the shipped keys in the kernel);
* an item is accepted iff its row splits with the pairs its sum allows
  (`accepted_iff_splits`), and a scan passes iff every item is accepted and at
  most one holds a pair (`scan_shipped_iff`);
* a hand's rows split iff its items do (`splitsAll_rows_iff`).
-/

namespace SlgServer.Base

open Melds Scan

/-! ## The shipped tables are exact -/

/-- The shipped table without eye is the list of all runs that split. -/
theorem baseAutoTable_eq : rowKeys 9 12 [(0, 0, 0)] 0 = 0 :: baseAutoTable := by
  decide +kernel

/-- The shipped table with eye lacks only the run of a single pair, which
`check_wave_and_eye` accepts without a lookup. -/
theorem baseAutoTableWithEye_eq :
    (rowKeys 9 14 [(0, 0, 1)] 0).erase 2 = baseAutoTableWithEye := by
  decide +kernel

/-- A run of a suit: up to nine counts, each from 1 to 4, of at most `w` tiles. -/
structure IsRun (w : ℕ) (r : List ℕ) : Prop extends IsRow 9 w r where
  /-- a run has at least one count -/
  ne_nil : r ≠ []

theorem IsRun.digits {w : ℕ} {r : List ℕ} (hr : IsRow 9 w r) : ∀ c ∈ r, 0 < c ∧ c < 10 :=
  fun c hc => by
    have := hr.counts c hc
    omega

/-- A row is in the enumeration iff it splits. -/
theorem key_mem_rowKeys {w e : ℕ} {r : List ℕ} (he : e ≤ 1) (hr : IsRow 9 w r) :
    key r ∈ rowKeys 9 w [(0, 0, e)] 0 ↔ Splits true 0 0 e r := by
  rw [mem_rowKeys_start he]
  refine ⟨?_, fun hs => ?_⟩
  · rintro ⟨l, hl, hs, hkey⟩
    rwa [key_injective (IsRun.digits hr) (IsRun.digits hl) hkey]
  · exact ⟨r, hr, hs, rfl⟩

theorem key_eq_zero {w : ℕ} {r : List ℕ} (hr : IsRow 9 w r) (h : key r = 0) : r = [] :=
  key_injective (IsRun.digits hr) (by simp) h

theorem mem_baseAutoTable {r : List ℕ} (hr : IsRun 12 r) :
    key r ∈ baseAutoTable ↔ Splits true 0 0 0 r := by
  rw [← key_mem_rowKeys (by decide) hr.toIsRow, baseAutoTable_eq, List.mem_cons]
  refine ⟨?_, ?_⟩
  · exact .inr
  · rintro (h | h)
    · exact absurd (key_eq_zero hr.toIsRow h) hr.ne_nil
    · exact h

theorem mem_baseAutoTableWithEye {r : List ℕ} (hr : IsRun 14 r) (h2 : r ≠ [2]) :
    key r ∈ baseAutoTableWithEye ↔ Splits true 0 0 1 r := by
  have hne : key r ≠ 2 := fun h =>
    h2 (key_injective (IsRun.digits hr.toIsRow) (by simp) (h.trans rfl))
  rw [← key_mem_rowKeys (by decide) hr.toIsRow, ← baseAutoTableWithEye_eq,
    List.mem_erase_of_ne hne]

/-! ## Items on the shipped tables -/

/-- How many pairs an item holds if it is accepted. -/
def Item.pairs : Item → ℕ
  | .run tbl => if tbl.sum % 3 = 2 then 1 else 0
  | .zi count => if count = 2 then 1 else 0

/-- The item passes on the shipped tables as long as no other holds the pair. -/
def Item.Accepted : Item → Prop
  | .run tbl => (tbl.sum % 3 = 0 ∧ key tbl ∈ baseAutoTable) ∨
      (tbl.sum % 3 = 2 ∧ (tbl.length = 1 ∨ key tbl ∈ baseAutoTableWithEye))
  | .zi count => count ≠ 1 ∧ count ≠ 4

/-- The item is a run whose sum is right and whose key the shipped table lacks. -/
def Item.LacksKey : Item → Prop
  | .run tbl => (tbl.sum % 3 = 0 ∧ key tbl ∉ baseAutoTable) ∨
      (tbl.sum % 3 = 2 ∧ tbl.length ≠ 1 ∧ key tbl ∉ baseAutoTableWithEye)
  | .zi _ => False

instance (it : Item) : Decidable it.Accepted := by
  cases it <;> unfold Item.Accepted <;> infer_instance

instance (it : Item) : Decidable it.LacksKey := by
  cases it <;> unfold Item.LacksKey <;> infer_instance

/-- The tables after the key of a run was written into the one that lacks it. -/
def record (w : Tables) : Item → Tables
  | .run tbl =>
    if tbl.sum % 3 = 2 then
      { w with waveTableEye := { w.waveTableEye with keys := key tbl :: w.waveTableEye.keys } }
    else { w with waveTable := { w.waveTable with keys := key tbl :: w.waveTable.keys } }
  | .zi _ => w

theorem Item.pairs_le_one (it : Item) : it.pairs ≤ 1 := by
  cases it <;> simp only [Item.pairs] <;> split_ifs <;> omega

/-- Taking the eye counts the pairs. -/
theorem Item.toNat_eye {eye : Bool} {it : Item} (h : eye.toNat + it.pairs ≤ 1) :
    (eye || it.pairs == 1).toNat = eye.toNat + it.pairs := by
  have := it.pairs_le_one
  obtain h0 | h1 : it.pairs = 0 ∨ it.pairs = 1 := by omega
  · cases eye <;> simp [h0]
  · cases eye
    · simp [h1]
    · simp [h1] at h

/-- **One item on the shipped tables**: accepted, the tables stay and the eye is
taken if it holds the pair; a missing key is written; any other failure leaves
the tables alone. -/
theorem checkItem_shipped (it : Item) (eye : Bool) :
    checkItem it ⟨shipped, eye⟩ =
      if eye.toNat + it.pairs ≤ 1 then
        if it.Accepted then (true, ⟨shipped, eye || it.pairs == 1⟩)
        else if it.LacksKey then (false, ⟨record shipped it, eye || it.pairs == 1⟩)
        else (false, ⟨shipped, eye⟩)
      else (false, ⟨shipped, eye⟩) := by
  cases it with
  | zi count =>
    simp only [checkItem, checkColorCount, Item.pairs, Item.Accepted, Item.LacksKey]
    by_cases h14 : count = 1 ∨ count = 4
    · have h2 : count ≠ 2 := by omega
      have hacc : ¬ (count ≠ 1 ∧ count ≠ 4) := by omega
      cases eye <;> simp [h14, h2, hacc]
    · have hacc : count ≠ 1 ∧ count ≠ 4 := by omega
      by_cases h2 : count = 2
      · subst h2
        cases eye <;> simp
      · cases eye <;> simp [h2, hacc]
  | run tbl =>
    simp only [checkItem, checkSub, Item.pairs, Item.Accepted, Item.LacksKey, record]
    obtain h | h | h : tbl.sum % 3 = 0 ∨ tbl.sum % 3 = 1 ∨ tbl.sum % 3 = 2 := by omega
    · by_cases hmem : key tbl ∈ baseAutoTable
      · cases eye <;> simp [h, hmem, checkWave, LookupTable.look, shipped]
      · cases eye <;> simp [h, hmem, checkWave, LookupTable.look, shipped]
    · cases eye <;> simp [h]
    · by_cases hlen : tbl.length = 1
      · cases eye <;> simp [h, hlen, checkWaveAndEye]
      · by_cases hmem : key tbl ∈ baseAutoTableWithEye
        · cases eye <;> simp [h, hlen, hmem, checkWaveAndEye, LookupTable.look, shipped]
        · cases eye <;> simp [h, hlen, hmem, checkWaveAndEye, LookupTable.look, shipped]

/-- **A scan of fresh tables passes** iff every item is accepted and at most one
of them holds a pair. -/
theorem scan_shipped_iff {its : List Item} {eye : Bool} :
    (scanAll checkItem its ⟨shipped, eye⟩).1 = true ↔
      (∀ it ∈ its, it.Accepted) ∧ eye.toNat + (its.map Item.pairs).sum ≤ 1 := by
  induction its generalizing eye with
  | nil => cases eye <;> simp
  | cons it its ih =>
    have hit := checkItem_shipped it eye
    rw [List.map_cons, List.sum_cons, List.forall_mem_cons]
    by_cases hle : eye.toNat + it.pairs ≤ 1
    · rw [if_pos hle] at hit
      by_cases hacc : it.Accepted
      · rw [if_pos hacc] at hit
        rw [scanAll_cons_true hit, ih, Item.toNat_eye hle, Nat.add_assoc]
        simp [hacc]
      · rw [if_neg hacc] at hit
        have hfalse : (checkItem it ⟨shipped, eye⟩).1 = false := by
          rw [hit]
          split_ifs <;> rfl
        rw [scanAll_cons_false hfalse]
        simp [hacc]
    · rw [if_neg hle] at hit
      rw [scanAll_cons_false (by rw [hit])]
      simp only [Bool.false_eq_true, false_iff]
      omega

/-! ## From items to rows -/

/-- The row of an item. -/
def Item.row : Item → Bool × List ℕ
  | .run tbl => (true, tbl)
  | .zi count => (false, [count])

/-- A hand's items: runs of at most 14 tiles, honours of at most four copies. -/
def Item.Sound : Item → Prop
  | .run tbl => IsRun 14 tbl
  | .zi count => count ≤ 4

/-- An honour stands alone: triplets and pairs of it. -/
theorem splits_honour_iff {count e : ℕ} :
    Splits false 0 0 e [count] ↔ ∃ t, count = 3 * t + 2 * e := by
  rw [splits_cons]
  refine ⟨?_, ?_⟩
  · rintro ⟨t, s, d, e', hs, hc, rfl, hnil⟩
    obtain ⟨rfl, -, rfl⟩ := splits_nil.mp hnil
    exact ⟨t, by omega⟩
  · rintro ⟨t, hc⟩
    exact ⟨t, 0, e, 0, fun _ => rfl, by omega, rfl, .nil⟩

/-- A run with a pair passes iff it splits: the pair alone is accepted by its length, and is
the one run the table lacks. -/
theorem splits_pair_iff {r : List ℕ} (hr : IsRun 14 r) (h2 : r.sum % 3 = 2) :
    r.length = 1 ∨ key r ∈ baseAutoTableWithEye ↔ Splits true 0 0 1 r := by
  have hone : r.length = 1 ↔ r = [2] := by
    refine ⟨fun h => ?_, ?_⟩
    · obtain ⟨c, rfl⟩ := List.length_eq_one_iff.mp h
      have := hr.counts c (List.mem_singleton_self c)
      rw [List.sum_singleton] at h2
      obtain rfl : c = 2 := by omega
      rfl
    · rintro rfl
      rfl
  by_cases hpair : r = [2]
  · subst hpair
    exact ⟨fun _ => by decide, fun _ => .inl rfl⟩
  · rw [mem_baseAutoTableWithEye hr hpair, hone]
    exact ⟨fun h => h.resolve_left hpair, .inr⟩

/-- **An item is accepted iff its row splits**, and then its pairs are those its
sum allows. -/
theorem accepted_iff_splits {it : Item} (hit : it.Sound) {e : ℕ} (he : e ≤ 1) :
    Splits it.row.1 0 0 e it.row.2 ↔ it.Accepted ∧ it.pairs = e := by
  cases it with
  | zi count =>
    simp only [Item.Sound] at hit
    simp only [Item.row, Item.Accepted, Item.pairs]
    rw [splits_honour_iff]
    refine ⟨?_, ?_⟩
    · rintro ⟨t, hc⟩
      split_ifs <;> omega
    · rintro ⟨hacc, hp⟩
      split_ifs at hp with h2
      · exact ⟨0, by omega⟩
      · exact ⟨count / 3, by omega⟩
  | run tbl =>
    have hrun : IsRun 14 tbl := hit
    simp only [Item.row, Item.Accepted, Item.pairs]
    by_cases h2 : tbl.sum % 3 = 2
    · rw [if_pos h2, splits_pair_iff hrun h2]
      refine ⟨fun hs => ?_, ?_⟩
      · have := hs.sum_mod
        obtain rfl : e = 1 := by omega
        exact ⟨.inr ⟨h2, hs⟩, rfl⟩
      · rintro ⟨⟨h0, -⟩ | ⟨-, hs⟩, rfl⟩
        · omega
        · exact hs
    · rw [if_neg h2]
      have hlight : tbl.sum % 3 = 0 → IsRun 12 tbl := fun h0 =>
        ⟨⟨hrun.length_le, hrun.counts, by have := hrun.sum_le; omega⟩, hrun.ne_nil⟩
      refine ⟨fun hs => ?_, ?_⟩
      · have := hs.sum_mod
        obtain rfl : e = 0 := by omega
        have h0 : tbl.sum % 3 = 0 := by omega
        exact ⟨.inl ⟨h0, (mem_baseAutoTable (hlight h0)).mpr hs⟩, rfl⟩
      · rintro ⟨⟨h0, hmem⟩ | ⟨h, -⟩, rfl⟩
        · exact (mem_baseAutoTable (hlight h0)).mp hmem
        · exact absurd h h2

/-- Items split with `e ≤ 1` pairs iff all are accepted and hold `e` pairs. -/
theorem splitsAll_items_iff {its : List Item} (hits : ∀ it ∈ its, it.Sound) {e : ℕ} (he : e ≤ 1) :
    SplitsAll e (its.map Item.row) ↔ (∀ it ∈ its, it.Accepted) ∧ (its.map Item.pairs).sum = e := by
  induction its generalizing e with
  | nil => simp [SplitsAll, eq_comm]
  | cons it its ih =>
    have hit := hits it (List.mem_cons_self ..)
    have hits' := fun it hit => hits it (List.mem_cons_of_mem _ hit)
    rw [List.map_cons, List.map_cons, List.sum_cons, List.forall_mem_cons, splitsAll_cons]
    refine ⟨?_, ?_⟩
    · rintro ⟨e₁, e₂, rfl, h₁, h₂⟩
      obtain ⟨hacc, rfl⟩ := (accepted_iff_splits hit (by omega)).mp h₁
      obtain ⟨hall, rfl⟩ := (ih hits' (by omega)).mp h₂
      exact ⟨⟨hacc, hall⟩, rfl⟩
    · rintro ⟨⟨hacc, hall⟩, rfl⟩
      exact ⟨_, _, rfl, (accepted_iff_splits hit it.pairs_le_one).mpr ⟨hacc, rfl⟩,
        (ih hits' (by omega)).mpr ⟨hall, rfl⟩⟩

/-- The rows of a hand split iff its items do. -/
theorem splitsAll_rows_iff {order : List CardCfg} {cards : ℕ → ℕ} {e : ℕ} :
    SplitsAll e (rows order cards) ↔ SplitsAll e ((items order cards).map Item.row) := by
  rw [items, List.map_flatMap, rows]
  refine splitsAll_flatMap fun cfg _ e => ?_
  rw [CardCfg.row, colourItems]
  cases hchi : cfg.chi with
  | true =>
    rw [if_pos rfl, splits_iff_runs, List.map_map]
    rfl
  | false =>
    rw [if_neg (by decide), splits_false_iff, List.map_map]
    rfl

/-- The items of a hand of at most 14 tiles are sound. -/
theorem sound_of_mem_items {order : List CardCfg} (horder : VisitOrder order) {h : Hand}
    (htotal : total h.count ≤ 14) : ∀ it ∈ items order h.count, it.Sound := by
  intro it hit
  obtain ⟨cfg, hcfg, hmem⟩ := List.mem_flatMap.mp hit
  have hsum : (cfg.counts h.count).sum ≤ 14 := by
    have hle := List.single_le_sum (fun _ _ => Nat.zero_le _) _
      (List.mem_map_of_mem (f := fun cfg : CardCfg => (cfg.counts h.count).sum) hcfg)
    rw [total_eq horder] at hle
    omega
  have hcount : ∀ c ∈ cfg.counts h.count, c ≤ 4 := by
    intro c hc
    obtain ⟨i, -, rfl⟩ := List.mem_map.mp hc
    exact h.le_four i
  have hwidth := horder.length_counts_le hcfg h.count
  rw [colourItems] at hmem
  split_ifs at hmem
  · obtain ⟨r, hr, rfl⟩ := List.mem_map.mp hmem
    obtain ⟨hne, hcounts, hlen, hrsum⟩ := mem_runs hr
    refine ⟨⟨by omega, fun c hc => ?_, by omega⟩, hne⟩
    have := hcount c (hcounts c hc).1
    have := (hcounts c hc).2
    omega
  · obtain ⟨c, hc, rfl⟩ := List.mem_map.mp hmem
    exact hcount c hc

/-! ## The decision -/

/-- **The scan of a hand's items on fresh tables** passes iff the hand wins. -/
theorem scan_items_iff_winning {order : List CardCfg} (horder : VisitOrder order) (h : Hand) {n : ℕ}
    (hn : n ≤ 4) (htotal : total h.count = 3 * n + 2) :
    (scanAll checkItem (items order h.count) ⟨shipped, false⟩).1 = true ↔ Winning h.count n := by
  have hsound := sound_of_mem_items horder (h := h) (by omega)
  rw [scan_shipped_iff, winning_iff horder htotal, splitsAll_rows_iff,
    splitsAll_items_iff hsound (by decide)]
  refine and_congr_right fun hall => ?_
  simp only [Bool.toNat_false, Nat.zero_add]
  refine ⟨fun hle => ?_, fun h => ?_⟩
  · -- with no pair at all the tiles would be a multiple of three
    by_contra hne
    have hsplit := (splitsAll_items_iff hsound (e := 0) (by decide)).mpr ⟨hall, by omega⟩
    have hmod := (splitsAll_rows_iff.mpr hsplit).sum_mod
    rw [rows, List.map_map] at hmod
    have htot := total_eq horder h.count
    have hsame : ((fun r : Bool × List ℕ => r.2.sum) ∘ fun cfg : CardCfg => cfg.row h.count) =
        fun cfg => (cfg.counts h.count).sum := rfl
    rw [hsame, htot] at hmod
    omega
  · omega

/-- **`get_hu_info` decides winning hands.** On freshly loaded tables, in any
order of visit, it returns true on a hand of `3 * n + 2` tiles, counted after
`other_card` was added, iff the hand is one pair and `n` melds. -/
theorem getHuInfo_iff_winning {order : List CardCfg} (horder : VisitOrder order)
    (handCards : ℕ → ℕ) (otherCard : Option ℕ) (h : Hand)
    (hh : h.count = withCard handCards otherCard) {n : ℕ} (hn : n ≤ 4)
    (htotal : total h.count = 3 * n + 2) :
    (getHuInfo order shipped handCards otherCard).1 = true ↔ Winning h.count n := by
  have hscan : (getHuInfo order shipped handCards otherCard).1 =
      (scanAll checkItem (items order h.count) ⟨shipped, false⟩).1 := by
    rw [getHuInfo_eq_scan horder, hh]
  rw [hscan]
  exact scan_items_iff_winning horder h hn htotal

/-- Nine gates, `1 1 1 2 3 4 5 6 7 8 9 9 9`. -/
def nineGates : List ℕ := [3, 1, 1, 1, 1, 1, 1, 1, 3]

/-- Nine gates wins on a discarded `5`: four melds and a pair. -/
theorem getHuInfo_iff_winning_nineGates : Winning (ofArray [3, 1, 1, 1, 2, 1, 1, 1, 3]) 4 :=
  (getHuInfo_iff_winning visitOrder_colours (ofArray nineGates) (some 5)
    (Hand.ofArray [3, 1, 1, 1, 2, 1, 1, 1, 3] (by decide) (by decide))
    (by
      funext i
      match i with
      | 0 | 1 | 2 | 3 | 4 | 5 | 6 | 7 | 8 | 9 => rfl
      | i + 10 => simp [Hand.ofArray, withCard, SlgServer.ofArray, nineGates])
    (n := 4) (by decide) (by decide)).mp (by decide +kernel)

end SlgServer.Base
