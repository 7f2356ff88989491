import SlgServer.GuiHulib
import SlgServer.MeldFills
import Mathlib.Data.Finset.Insert

/-!
# Generating the joker tables (`mjlib/gui/gen_auto_gui_table.lua`)

The tables for suits and for honours are written by two programs,
`gen_auto_gui_table.lua` and `gen_auto_feng_gui_table.lua`, that differ in a few
numbers only (`GenCfg`). Each puts four melds and a pair on its working array `t`
in all ways, lets `hulib` judge what has no more than four tiles of a kind, and
then takes up to four tiles away, writing the key of the row that is left to the
table for that number of jokers, with eye or without.

Both recursions put `t` back: `parse_table` enters the rows with up to four tiles
less (`parseTable_spec`), and `Reached` are the arrays `test_hu_sub` passes through.
-/

namespace SlgServer.Gui

open Melds Scan

/-! ## The generators -/

/-- What the two generators differ in. -/
structure GenCfg : Type where
  /-- the kinds with a pair or a triplet are `1 .. kinds` -/
  kinds : ℕ
  /-- the rounds of the loop of `test_hu_sub` -/
  rounds : ℕ
  /-- the meld put down in a round -/
  meld : ℕ → Meld
  /-- the first kind of a key -/
  min : ℕ
  /-- the last kind of a key -/
  max : ℕ

/-- The numbers of `gen_auto_gui_table.lua`. -/
def autoGui : GenCfg where
  kinds := 18
  rounds := 32
  meld j := if j ≤ 18 then .triplet j else if j ≤ 25 then .sequence (j - 18) else .sequence (j - 16)
  min := 1
  max := 9

/-- The numbers of `gen_auto_feng_gui_table.lua`. -/
def autoFengGui : GenCfg where
  kinds := 16
  rounds := 23
  meld j := if j ≤ 16 then .triplet j else .sequence (j - 16)
  min := 10
  max := 16

/-- The indices of a key. -/
def GenCfg.indices (cfg : GenCfg) : List ℕ := List.range' cfg.min (cfg.max + 1 - cfg.min)

/-- The key of an array. -/
def GenCfg.key (cfg : GenCfg) (t : ℕ → ℕ) : ℕ := Melds.key (cfg.indices.map t)

/-- The melds put down by `test_hu_sub`. -/
def GenCfg.melds (cfg : GenCfg) : List Meld := (List.range' 1 cfg.rounds).map cfg.meld

/-- What a generator works on. -/
structure Gen : Type where
  /-- the working array `t` -/
  t : ℕ → ℕ
  /-- `no_gui_table .. four_gui_table` and, with eye, `no_gui_eye_table ..
  four_gui_eye_table`, by the number of jokers -/
  tables : Bool → ℕ → Finset ℕ
  /-- `tested_tbl` -/
  tested : Finset ℕ

/-- `t[i] = c`. -/
def Gen.set (s : Gen) (i c : ℕ) : Gen := { s with t := Function.update s.t i c }

/-- `add_2_table`. -/
def add2Table (cfg : GenCfg) (eye : Bool) (num : ℕ) (s : Gen) : Gen :=
  { s with
    tables := Function.update s.tables eye
      (Function.update (s.tables eye) num (insert (cfg.key s.t) (s.tables eye num))) }

/-- `parse_table_sub`. -/
def parseTableSub (cfg : GenCfg) (num : ℕ) (eye : Bool) (s : Gen) : Gen :=
  cfg.indices.foldl (fun s i =>
    let n := s.t i
    if n > 0 then
      let s := add2Table cfg eye num (s.set i (n - 1))
      let s := if num < 4 then parseTableSub cfg (num + 1) eye s else s
      s.set i n
    else s) s
termination_by 4 - num

/-- `parse_table`. -/
def parseTable (cfg : GenCfg) (s : Gen) : Gen :=
  let count := (cfg.indices.map s.t).sum
  let eye := decide (count % 3 ≠ 0)
  parseTableSub cfg 1 eye (add2Table cfg eye 0 s)

/-- `check_hu`; its counters are only printed. -/
def checkHu (cfg : GenCfg) (order : List CardCfg) (s : Gen) : Gen :=
  if (List.range' 1 34).any fun i => s.t i > 4 then s
  else
    let num := Melds.key ((List.range' 1 cfg.kinds).map s.t)
    if num ∈ s.tested then s
    else
      let s := { s with tested := insert num s.tested }
      if getHuInfo order s.t none then parseTable cfg s else s

/-- The tiles of a meld are added to an array. -/
def putMeld (t : ℕ → ℕ) : Meld → ℕ → ℕ
  | .triplet j => Function.update t j (t j + 3)
  | .sequence i =>
    let t := Function.update t i (t i + 1)
    let t := Function.update t (i + 1) (t (i + 1) + 1)
    Function.update t (i + 2) (t (i + 2) + 1)

/-- The tiles of a meld are taken from an array. -/
def takeMeld (t : ℕ → ℕ) : Meld → ℕ → ℕ
  | .triplet j => Function.update t j (t j - 3)
  | .sequence i =>
    let t := Function.update t i (t i - 1)
    let t := Function.update t (i + 1) (t (i + 1) - 1)
    Function.update t (i + 2) (t (i + 2) - 1)

/-- `test_hu_sub`, which is called with `num` from 1 to 4. -/
def testHuSub (cfg : GenCfg) (order : List CardCfg) (num : ℕ) (s : Gen) : Gen :=
  (List.range' 1 cfg.rounds).foldl (fun s j =>
    let s := { s with t := putMeld s.t (cfg.meld j) }
    let s := if num < 4 then testHuSub cfg order (num + 1) s else checkHu cfg order s
    { s with t := takeMeld s.t (cfg.meld j) }) s
termination_by 4 - num

/-- `gen_auto_gui_table`, up to the writing of the files. -/
def genGuiTable (cfg : GenCfg) (order : List CardCfg) : Gen :=
  (List.range' 1 cfg.kinds).foldl (fun s i => (testHuSub cfg order 1 (s.set i 2)).set i 0)
    ⟨fun _ => 0, fun _ _ => ∅, ∅⟩

/-! ## Taking tiles away -/

variable {cfg : GenCfg} {order : List CardCfg}

/-- What the tables hold: whether a table is one with eye, its number of jokers,
and a key. -/
def Gen.entries (s : Gen) : Set (Bool × ℕ × ℕ) := {y | y.2.2 ∈ s.tables y.1 y.2.1}

/-- The keys of the counts `t` with some tiles taken away, the table counting
them from `num` up to four. -/
def lowered (cfg : GenCfg) (eye : Bool) (num : ℕ) (t : ℕ → ℕ) : Set (Bool × ℕ × ℕ) :=
  {y | y.1 = eye ∧ ∃ j w, y.2.1 = num + j ∧ num + j ≤ 4 ∧ Lowers cfg.indices j t w ∧
    y.2.2 = cfg.key w}

theorem indices_nodup (cfg : GenCfg) : cfg.indices.Nodup := List.nodup_range'

theorem add2Table_entries (eye : Bool) (num : ℕ) (s : Gen) :
    (add2Table cfg eye num s).entries = s.entries ∪ {(eye, num, cfg.key s.t)} := by
  ext ⟨e, k, x⟩
  simp only [Gen.entries, add2Table, Set.mem_ofPred_eq, Set.mem_union, Set.mem_singleton_iff,
    Prod.mk.injEq]
  by_cases he : e = eye
  · subst he
    rw [Function.update_self]
    by_cases hk : k = num
    · subst hk
      rw [Function.update_self, Finset.mem_insert]
      simp [or_comm]
    · rw [Function.update_of_ne hk]
      simp [hk]
  · rw [Function.update_of_ne he]
    simp [he]

/-- One tile less, or none. -/
theorem lowered_eq {eye : Bool} {num : ℕ} (hnum : num ≤ 4) (t : ℕ → ℕ) :
    lowered cfg eye num t = {(eye, num, cfg.key t)} ∪
      {y | ∃ i ∈ cfg.indices, 0 < t i ∧
        y ∈ lowered cfg eye (num + 1) (Function.update t i (t i - 1))} := by
  ext ⟨e, k, x⟩
  simp only [lowered, Set.mem_ofPred_eq, Set.mem_union, Set.mem_singleton_iff, Prod.mk.injEq]
  refine ⟨?_, ?_⟩
  · rintro ⟨rfl, j, w, rfl, hj, hw, rfl⟩
    cases j with
    | zero =>
      refine .inl ⟨rfl, rfl, ?_⟩
      rw [GenCfg.key, GenCfg.key, lowers_zero.mp hw]
    | succ j =>
      obtain ⟨i, hi, hpos, hw⟩ := (lowers_succ (indices_nodup cfg)).mp hw
      exact .inr ⟨i, hi, hpos, rfl, j, w, by omega, by omega, hw, rfl⟩
  · rintro (⟨rfl, rfl, rfl⟩ | ⟨i, hi, hpos, rfl, j, w, rfl, hj, hw, rfl⟩)
    · exact ⟨rfl, 0, t, rfl, hnum, lowers_zero.mpr rfl, rfl⟩
    · exact ⟨rfl, j + 1, w, by omega, by omega,
        (lowers_succ (indices_nodup cfg)).mpr ⟨i, hi, hpos, hw⟩, rfl⟩

theorem lowered_of_gt {eye : Bool} {num : ℕ} (hnum : 4 < num) {t : ℕ → ℕ} :
    lowered cfg eye num t = ∅ := by
  ext y
  simp only [lowered, Set.mem_ofPred_eq, Set.mem_empty_iff_false, iff_false]
  rintro ⟨-, j, w, -, hj, -⟩
  omega

/-- Between `s` and `s'` the entries `V` were made, and nothing else changed. -/
structure Entered (s : Gen) (V : Set (Bool × ℕ × ℕ)) (s' : Gen) : Prop where
  /-- the array is as it was -/
  t : s'.t = s.t
  /-- nothing was tested -/
  tested : s'.tested = s.tested
  /-- the new entries -/
  entries : s'.entries = s.entries ∪ V

theorem Entered.refl (s : Gen) : Entered s ∅ s := ⟨rfl, rfl, (Set.union_empty _).symm⟩

theorem Entered.trans {s₁ s₂ s₃ : Gen} {V W : Set (Bool × ℕ × ℕ)} (h : Entered s₁ V s₂)
    (h' : Entered s₂ W s₃) : Entered s₁ (V ∪ W) s₃ where
  t := h'.t.trans h.t
  tested := h'.tested.trans h.tested
  entries := by rw [h'.entries, h.entries, Set.union_assoc]

/-- A place that was changed before is put back. -/
theorem Entered.set_back {s s' : Gen} {i c : ℕ} {V : Set (Bool × ℕ × ℕ)}
    (h : Entered (s.set i c) V s') : Entered s V (s'.set i (s.t i)) where
  t := by
    rw [Gen.set, h.t, Gen.set, Function.update_idem, Function.update_eq_self]
  tested := h.tested
  entries := h.entries

theorem entered_add2Table (eye : Bool) (num : ℕ) (s : Gen) :
    Entered s {(eye, num, cfg.key s.t)} (add2Table cfg eye num s) :=
  ⟨rfl, rfl, add2Table_entries eye num s⟩

/-- A loop whose rounds make entries and put `t` back. -/
theorem Entered.foldl {is : List ℕ} {g : Gen → ℕ → Gen} {N : ℕ → Set (Bool × ℕ × ℕ)} {s : Gen}
    (h : ∀ i ∈ is, ∀ s', s'.t = s.t → Entered s' (N i) (g s' i)) :
    Entered s {y | ∃ i ∈ is, y ∈ N i} (is.foldl g s) := by
  have hloop := foldl_visits (P := Entered s) (N := N) (g := g)
    (fun i hi V s' hs' => hs'.trans (h i hi s' hs'.t)) (Entered.refl s)
  rwa [Set.empty_union] at hloop

/-- `parse_table_sub` leaves `t` as it was and enters the rows with at least one
tile less. -/
theorem parseTableSub_spec {num : ℕ} (hnum : num ≤ 4) (eye : Bool) (s : Gen) :
    Entered s {y | ∃ i ∈ cfg.indices, 0 < s.t i ∧
      y ∈ lowered cfg eye num (Function.update s.t i (s.t i - 1))} (parseTableSub cfg num eye s) := by
  induction hleft : 4 - num using Nat.strongRecOn generalizing num s with
  | ind left ih =>
    rw [parseTableSub]
    refine Entered.foldl (N := fun i => {y | 0 < s.t i ∧
      y ∈ lowered cfg eye num (Function.update s.t i (s.t i - 1))}) fun i _ s' ht => ?_
    rw [← ht]
    by_cases hpos : s'.t i > 0
    · -- the rows below the one with a tile less at `i`
      have hadd : Entered (s'.set i (s'.t i - 1)) _
          (add2Table cfg eye num (s'.set i (s'.t i - 1))) := entered_add2Table eye num _
      have hsub : Entered (s'.set i (s'.t i - 1))
          (lowered cfg eye num (s'.set i (s'.t i - 1)).t)
          (if num < 4 then
            parseTableSub cfg (num + 1) eye (add2Table cfg eye num (s'.set i (s'.t i - 1)))
          else add2Table cfg eye num (s'.set i (s'.t i - 1))) := by
        rw [lowered_eq hnum]
        by_cases hlt : num < 4
        · rw [if_pos hlt]
          exact hadd.trans (ih _ (by omega) hlt _ rfl)
        · rw [if_neg hlt]
          have hnone : {y | ∃ j ∈ cfg.indices, 0 < (s'.set i (s'.t i - 1)).t j ∧
              y ∈ lowered cfg eye (num + 1) (Function.update (s'.set i (s'.t i - 1)).t j
                ((s'.set i (s'.t i - 1)).t j - 1))} = ∅ := by
            ext y
            simp [lowered_of_gt (show 4 < num + 1 by omega)]
          rw [hnone, Set.union_empty]
          exact hadd
      have hsome : {y | 0 < s'.t i ∧
          y ∈ lowered cfg eye num (Function.update s'.t i (s'.t i - 1))} =
          lowered cfg eye num (s'.set i (s'.t i - 1)).t := by
        ext y
        exact and_iff_right hpos
      simp only [if_pos hpos]
      rw [hsome]
      exact hsub.set_back
    · simp only [if_neg hpos]
      have hnone : {y | 0 < s'.t i ∧
          y ∈ lowered cfg eye num (Function.update s'.t i (s'.t i - 1))} = ∅ := by
        ext y
        simp [hpos]
      rw [hnone]
      exact Entered.refl s'

/-- The entries that `parse_table` makes for an array. -/
def parsed (cfg : GenCfg) (t : ℕ → ℕ) : Set (Bool × ℕ × ℕ) :=
  lowered cfg (decide ((cfg.indices.map t).sum % 3 ≠ 0)) 0 t

theorem parseTable_spec (s : Gen) : Entered s (parsed cfg s.t) (parseTable cfg s) := by
  rw [parsed, lowered_eq (Nat.zero_le 4)]
  exact (entered_add2Table _ 0 s).trans (parseTableSub_spec (by decide) _ _)

/-! ## Putting melds down -/

theorem putMeld_apply (t : ℕ → ℕ) (m : Meld) (x : ℕ) :
    putMeld t m x = t x + m.tiles.count x := by
  cases m with
  | triplet j =>
    rw [putMeld, Meld.count_triplet, Function.update_apply]
    split_ifs <;> simp_all
  | sequence i =>
    simp only [putMeld, Meld.count_sequence, Function.update_apply]
    split_ifs <;> subst_vars <;> omega

theorem takeMeld_apply (t : ℕ → ℕ) (m : Meld) (x : ℕ) :
    takeMeld t m x = t x - m.tiles.count x := by
  cases m with
  | triplet j =>
    rw [takeMeld, Meld.count_triplet, Function.update_apply]
    split_ifs <;> simp_all
  | sequence i =>
    simp only [takeMeld, Meld.count_sequence, Function.update_apply]
    split_ifs <;> subst_vars <;> omega

/-- A meld put down and taken up again leaves the array as it was. -/
theorem takeMeld_putMeld (t : ℕ → ℕ) (m : Meld) : takeMeld (putMeld t m) m = t := by
  ext x
  rw [takeMeld_apply, putMeld_apply, Nat.add_sub_cancel]

/-- The array `t` is `t₀` with `left` more melds. -/
def Extends (cfg : GenCfg) (left : ℕ) (t₀ t : ℕ → ℕ) : Prop :=
  ∃ ms : List Meld, ms.length = left ∧ (∀ m ∈ ms, m ∈ cfg.melds) ∧
    ∀ x, t x = t₀ x + tileCount ms x

theorem extends_zero {t₀ t : ℕ → ℕ} : Extends cfg 0 t₀ t ↔ t = t₀ := by
  refine ⟨?_, ?_⟩
  · rintro ⟨ms, hlen, -, ht⟩
    obtain rfl := List.eq_nil_of_length_eq_zero hlen
    exact funext ht
  · rintro rfl
    exact ⟨[], rfl, by simp, fun _ => rfl⟩

/-- The first of the melds is put down in some round. -/
theorem extends_succ {left : ℕ} {t₀ t : ℕ → ℕ} :
    Extends cfg (left + 1) t₀ t ↔
      ∃ j ∈ List.range' 1 cfg.rounds, Extends cfg left (putMeld t₀ (cfg.meld j)) t := by
  refine ⟨?_, ?_⟩
  · rintro ⟨ms, hlen, hms, ht⟩
    cases ms with
    | nil => cases hlen
    | cons m ms =>
      obtain ⟨hm, hrest⟩ := List.forall_mem_cons.mp hms
      obtain ⟨j, hj, rfl⟩ := List.mem_map.mp hm
      refine ⟨j, hj, ms, Nat.succ_inj.mp hlen, hrest, fun x => ?_⟩
      rw [ht, putMeld_apply, tileCount_cons, Nat.add_assoc]
  · rintro ⟨j, hj, ms, rfl, hms, ht⟩
    refine ⟨cfg.meld j :: ms, rfl, ?_, fun x => ?_⟩
    · exact List.forall_mem_cons.mpr ⟨List.mem_map_of_mem hj, hms⟩
    · rw [ht, putMeld_apply, tileCount_cons, Nat.add_assoc]

/-- An array that is judged: a pair and four melds. -/
def Reached (cfg : GenCfg) (t : ℕ → ℕ) : Prop :=
  ∃ i ∈ List.range' 1 cfg.kinds, Extends cfg 4 (Function.update (fun _ => 0) i 2) t

theorem reached_iff {t : ℕ → ℕ} :
    Reached cfg t ↔ ∃ i ms, (1 ≤ i ∧ i ≤ cfg.kinds) ∧ ms.length = 4 ∧ (∀ m ∈ ms, m ∈ cfg.melds) ∧
      Deals ms [i] t := by
  have hpair : ∀ i x : ℕ, Function.update (fun _ => 0) i 2 x = 2 * [i].count x := by
    intro i x
    rw [Function.update_apply, List.count_singleton]
    by_cases hx : x = i
    · simp [hx]
    · have hx' : ¬ i = x := fun h => hx h.symm
      simp [hx, hx']
  simp only [Reached, Extends, hpair, Deals, List.mem_range'_1]
  refine ⟨?_, ?_⟩
  · rintro ⟨i, hi, ms, hlen, hms, ht⟩
    exact ⟨i, ms, by omega, hlen, hms, fun x => by rw [ht, Nat.add_comm]⟩
  · rintro ⟨i, ms, hi, hlen, hms, ht⟩
    exact ⟨i, by omega, ms, hlen, hms, fun x => by rw [ht, Nat.add_comm]⟩

end SlgServer.Gui
