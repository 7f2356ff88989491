import SlgServer.BaseCollect
import SlgServer.GenGuiTable
import SlgServer.MeldSums
import SlgServer.NestedLoops
import Mathlib.Data.List.Permutation

/-!
# Collecting the tables of `base` (`mjlib/base/gen_auto_table.lua`)

The generator puts a pair and four melds on its array in all ways and has `hulib` judge
each hand while both tables collect: what a judged hand leaves behind is at most one key.
`check_hu` drops a hand if one with the same first nine counts was judged before.

The loops come down to one fold over the choices they make, in lexicographic order
(`genAutoTable_eq`). What is judged writes keys of melds, or of melds and a pair, only
(`soundTables_after`).
-/

namespace SlgServer.Base

open Melds Scan NestedLoops
open Gui (putMeld takeMeld putMeld_apply takeMeld_putMeld)

/-! ## The generator -/

/-- What the generator works on. -/
structure Gen : Type where
  /-- the working array `t` -/
  t : ℕ → ℕ
  /-- `auto_table` and `auto_table_with_eye`, which `hulib` looks up -/
  tables : Tables
  /-- `tested_tbl` -/
  tested : Finset ℕ

/-- `t[i] = c`. -/
def Gen.set (s : Gen) (i c : ℕ) : Gen := { s with t := Function.update s.t i c }

/-- `check_hu`. -/
def checkHu (order : List CardCfg) (s : Gen) : Gen :=
  if (List.range' 1 34).any fun i => s.t i > 4 then s
  else
    let num := key ((List.range' 1 9).map s.t)
    if num ∈ s.tested then s
    else { s with tested := insert num s.tested, tables := (getHuInfo order s.tables s.t none).2 }

/-- The meld that is put down in round `j` of `test_hu_sub`. -/
def meldAt (j : ℕ) : Meld :=
  if j ≤ 18 then .triplet j else if j ≤ 25 then .sequence (j - 18) else .sequence (j - 16)

/-- `test_hu_sub`, which is called with `num` from 1 to 4. -/
def testHuSub (order : List CardCfg) (num : ℕ) (s : Gen) : Gen :=
  (List.range' 1 32).foldl (fun s j =>
    let s := { s with t := putMeld s.t (meldAt j) }
    let s := if num < 4 then testHuSub order (num + 1) s else checkHu order s
    { s with t := takeMeld s.t (meldAt j) }) s
termination_by 4 - num

/-- `gen_auto_table`, up to the writing of the files; `w` are the tables it starts from. -/
def genAutoTable (order : List CardCfg) (w : Tables) : Gen :=
  (List.range' 1 18).foldl (fun s i => (testHuSub order 1 (s.set i 2)).set i 0) ⟨fun _ => 0, w, ∅⟩

/-- `main`: whatever the numeric keys of the tables are, both are told to collect. -/
def main (order : List CardCfg) (wave eye : List ℕ) : Gen :=
  genAutoTable order ⟨⟨wave, true⟩, ⟨eye, true⟩⟩

/-! ## The loops -/

variable {order : List CardCfg}

/-- The array with the melds of some rounds on top. -/
def putAll (t : ℕ → ℕ) (js : List ℕ) : ℕ → ℕ := js.foldl (fun t j => putMeld t (meldAt j)) t

/-- The choices of a pair and four melds, as the loops make them. -/
def choices : List (List ℕ) :=
  tuples (List.range' 1 18 :: List.replicate 4 (List.range' 1 32))

/-- The array of a choice. -/
def handOf : List ℕ → ℕ → ℕ
  | [] => fun _ => 0
  | i :: js => putAll (Function.update (fun _ => 0) i 2) js

/-- `check_hu` on the array `t`, after which the working array is as it was. -/
def judge (order : List CardCfg) (s : Gen) (t : ℕ → ℕ) : Gen :=
  { checkHu order { s with t := t } with t := s.t }

theorem foldl_judge_t {ι : Type} (f : (ℕ → ℕ) → ι → ℕ → ℕ) (is : List ι) (s : Gen) :
    (is.foldl (fun s i => judge order s (f s.t i)) s).t = s.t := by
  induction is generalizing s with
  | nil => rfl
  | cons i is ih =>
    rw [List.foldl_cons, ih]
    rfl

theorem judge_self (s : Gen) : judge order s s.t = checkHu order s := by
  have ht : (checkHu order s).t = s.t := by
    simp only [checkHu]
    split_ifs <;> rfl
  change { checkHu order s with t := s.t } = _
  rw [← ht]

/-- Judging with something on the array is judging what is made of the array. -/
theorem foldl_judge_put (put : (ℕ → ℕ) → ℕ → ℕ) (cs : List (List ℕ)) (s : Gen) :
    { cs.foldl (fun s js => judge order s (putAll s.t js)) { s with t := put s.t } with
        t := s.t } =
      cs.foldl (fun s js => judge order s (putAll (put s.t) js)) s := by
  induction cs generalizing s with
  | nil => rfl
  | cons js cs ih =>
    rw [List.foldl_cons, List.foldl_cons, ← ih]
    rfl

/-- **The rounds of `test_hu_sub`** judge the melds still to come, in order. -/
theorem testHuSub_eq {num : ℕ} (hnum : num ≤ 4) (s : Gen) :
    testHuSub order num s =
      (tuples (List.replicate (5 - num) (List.range' 1 32))).foldl
        (fun s js => judge order s (putAll s.t js)) s := by
  induction hleft : 4 - num using Nat.strongRecOn generalizing num s with
  | ind left ih =>
    have hsucc : 5 - num = 4 - num + 1 := by omega
    rw [testHuSub, hsucc, List.replicate_succ, foldl_tuples_cons]
    refine congrArg (List.foldl · s _) (funext fun s => funext fun j => ?_)
    -- what happens while the meld of this round is down
    have hinner : ∀ u : Gen, (if num < 4 then testHuSub order (num + 1) u else checkHu order u) =
        (tuples (List.replicate (4 - num) (List.range' 1 32))).foldl
          (fun s js => judge order s (putAll s.t js)) u := by
      intro u
      have hnext : 4 - num = 5 - (num + 1) := by omega
      by_cases hlt : num < 4
      · rw [if_pos hlt, hnext]
        exact ih _ (by omega) hlt u rfl
      · obtain rfl : num = 4 := by omega
        rw [if_neg hlt]
        simp only [Nat.sub_self, List.replicate_zero, tuples, List.foldl_cons, List.foldl_nil]
        exact (judge_self u).symm
    simp only [hinner, foldl_judge_t fun t js => putAll t js, takeMeld_putMeld]
    exact foldl_judge_put (fun t => putMeld t (meldAt j)) _ s

/-- What is left after judging the hands of some choices. -/
def after (order : List CardCfg) (w : Tables) (cs : List (List ℕ)) : Gen :=
  cs.foldl (fun s c => judge order s (handOf c)) ⟨fun _ => 0, w, ∅⟩

/-- **The whole run** judges the hands of all choices. -/
theorem genAutoTable_eq (w : Tables) : genAutoTable order w = after order w choices := by
  rw [genAutoTable, after, choices, foldl_tuples_cons]
  refine foldl_congr (I := fun s => s.t = fun _ => 0) (fun i _ s hs => ?_) rfl
  have hpair : ∀ cs : List (List ℕ),
      cs.foldl (fun s js => judge order s (putAll (Function.update s.t i 2) js)) s =
        cs.foldl (fun s js => judge order s (handOf (i :: js))) s := fun cs =>
    foldl_congr (I := fun s => s.t = fun _ => 0)
      (fun js _ s hs => by rw [hs]; exact ⟨rfl, hs⟩) hs
  refine ⟨?_, ?_⟩
  · have hback : Function.update (Function.update s.t i 2) i 0 = s.t := by
      rw [Function.update_idem, hs]
      exact Function.update_eq_self i _
    rw [testHuSub_eq (by decide), ← hpair, ← foldl_judge_put fun t => Function.update t i 2,
      Gen.set, foldl_judge_t fun t js => putAll t js, Gen.set, hback]
  · rw [foldl_judge_t fun _ js => handOf (i :: js), hs]

/-! ## The hands -/

theorem mem_choices {c : List ℕ} : c ∈ choices ↔
    ∃ i js, c = i :: js ∧ (1 ≤ i ∧ i ≤ 18) ∧ js.length = 4 ∧ ∀ j ∈ js, 1 ≤ j ∧ j ≤ 32 := by
  have hrange : ∀ n x : ℕ, x ∈ List.range' 1 n ↔ 1 ≤ x ∧ x ≤ n := fun n x => by
    rw [List.mem_range'_1]
    omega
  simp only [choices, mem_tuples_cons, mem_tuples_replicate, hrange]
  refine ⟨?_, ?_⟩
  · rintro ⟨i, hi, js, ⟨hlen, hjs⟩, rfl⟩
    exact ⟨i, js, rfl, hi, hlen, hjs⟩
  · rintro ⟨i, js, rfl, hi, hlen, hjs⟩
    exact ⟨i, hi, js, ⟨hlen, hjs⟩, rfl⟩

theorem putAll_apply (t : ℕ → ℕ) (js : List ℕ) (x : ℕ) :
    putAll t js x = t x + tileCount (js.map meldAt) x := by
  induction js generalizing t with
  | nil => rfl
  | cons j js ih =>
    change putAll (putMeld t (meldAt j)) js x = _
    rw [ih, putMeld_apply, List.map_cons, tileCount_cons, Nat.add_assoc]

theorem deals_handOf (i : ℕ) (js : List ℕ) : Deals (js.map meldAt) [i] (handOf (i :: js)) := by
  intro x
  rw [handOf, putAll_apply, Function.update_apply, List.count_singleton, Nat.add_comm]
  by_cases hx : x = i
  · simp [hx]
  · simp [hx, Ne.symm hx]

/-- The meld of round `j` lies in the first suit. -/
def InFirst (j : ℕ) : Prop := j ≤ 9 ∨ (19 ≤ j ∧ j ≤ 25)

instance : DecidablePred InFirst := fun j => by
  unfold InFirst
  infer_instance

/-- The melds of all rounds lie in the first two suits. -/
theorem meldAt_within {j : ℕ} (hj : 1 ≤ j ∧ j ≤ 32) :
    (meldAt j).Within true (if InFirst j then 1 else 10) 9 := by
  rw [meldAt]
  by_cases hin : InFirst j
  · rw [if_pos hin]
    unfold InFirst at hin
    split_ifs <;> simp only [Meld.Within, true_and] <;> omega
  · rw [if_neg hin]
    unfold InFirst at hin
    split_ifs <;> simp only [Meld.Within, true_and] <;> omega

theorem count_meldAt {j x : ℕ} (hj : 1 ≤ j ∧ j ≤ 32)
    (hx : (InFirst j ∧ 10 ≤ x) ∨ (¬ InFirst j ∧ x ≤ 9) ∨ 19 ≤ x) :
    (meldAt j).tiles.count x = 0 := by
  apply List.count_eq_zero_of_not_mem
  intro hmem
  have := (meldAt_within hj).tiles x hmem
  split_ifs at this with hin
  · rcases hx with ⟨-, hx⟩ | ⟨hnot, -⟩ | hx
    · omega
    · exact hnot hin
    · omega
  · rcases hx with ⟨h, -⟩ | ⟨-, hx⟩ | hx
    · exact hin h
    · omega
    · omega

theorem meldAt_respects {j : ℕ} (hj : 1 ≤ j ∧ j ≤ 32) :
    (meldAt j).Respects true 1 9 ∧ (meldAt j).Respects true 10 9 := by
  rw [meldAt]
  split_ifs
  · exact ⟨trivial, trivial⟩
  · simp only [Meld.Respects, true_and]
    omega
  · simp only [Meld.Respects, true_and]
    omega

/-- Nothing lies beyond the first two suits. -/
theorem handOf_eq_zero {c : List ℕ} (hc : c ∈ choices) {x : ℕ} (hx : 19 ≤ x) : handOf c x = 0 := by
  obtain ⟨i, js, rfl, hi, -, hjs⟩ := mem_choices.mp hc
  have htiles : tileCount (js.map meldAt) x = 0 := by
    apply tileCount_eq_zero
    intro m hm
    obtain ⟨j, hj, rfl⟩ := List.mem_map.mp hm
    exact count_meldAt (hjs j hj) (.inr (.inr hx))
  have hpair : [i].count x = 0 := List.count_eq_zero_of_not_mem (by rw [List.mem_singleton]; omega)
  rw [deals_handOf, htiles, hpair]

/-- The counts of the suit that begins at `lo`. -/
def suitRow (lo : ℕ) (t : ℕ → ℕ) : List ℕ := (List.range' lo 9).map t

/-- There are no more than four tiles of a kind. -/
def Legal (t : ℕ → ℕ) : Prop := ∀ i ∈ List.range' 1 34, t i ≤ 4

instance (t : ℕ → ℕ) : Decidable (Legal t) := by
  unfold Legal
  infer_instance

theorem Legal.le_four {t : ℕ → ℕ} (ht : Legal t) {lo : ℕ} (hlo : lo = 1 ∨ lo = 10) :
    ∀ n ∈ suitRow lo t, n ≤ 4 := by
  intro n hn
  obtain ⟨x, hx, rfl⟩ := List.mem_map.mp hn
  rw [List.mem_range'_1] at hx
  exact ht x (List.mem_range'_1.mpr (by omega))

/-- A run that `hulib` may enter: it has up to nine counts from 1 to 4 and is a sum of melds,
with a pair if its sum is such. -/
structure GoodRun (r : List ℕ) : Prop where
  /-- the length -/
  length : 1 ≤ r.length ∧ r.length ≤ 9
  /-- the counts -/
  counts : ∀ c ∈ r, 1 ≤ c ∧ c ≤ 4
  /-- the melds -/
  sumOf : ∀ e, e ≤ 1 → r.sum % 3 = 2 * e → SumOf true 4 e r

/-- The runs of a hand are sums of melds. -/
theorem goodRun_of_mem {c : List ℕ} (hc : c ∈ choices) (hlegal : Legal (handOf c)) {lo : ℕ}
    (hlo : lo = 1 ∨ lo = 10) {r : List ℕ} (hr : r ∈ runs (suitRow lo (handOf c))) : GoodRun r := by
  obtain ⟨i, js, rfl, hi, hlen, hjs⟩ := mem_choices.mp hc
  obtain ⟨hne, hcounts, hrlen, hrsum⟩ := mem_runs hr
  have hdeal := deals_handOf i js
  have hle := hdeal.sum_le lo 9
  have hs : Splits true 0 0 _ (suitRow lo (handOf (i :: js))) := hdeal.splits fun m hm => by
    obtain ⟨j, hj, rfl⟩ := List.mem_map.mp hm
    obtain ⟨h₁, h₁₀⟩ := meldAt_respects (hjs j hj)
    rcases hlo with rfl | rfl
    · exact h₁
    · exact h₁₀
  obtain ⟨e', he', hsplit⟩ := (splits_iff_runs.mp hs).exists_of_mem (List.mem_map_of_mem hr)
  have hone := List.countP_le_length (l := [i]) (p := fun y => decide (lo ≤ y ∧ y < lo + 9))
  rw [sum_count_range'] at he'
  rw [List.length_map, hlen] at hle
  rw [List.length_singleton] at hle hone
  change (suitRow lo (handOf (i :: js))).sum ≤ _ at hle
  refine ⟨⟨List.length_pos_iff.mpr hne, ?_⟩, fun x hx => ?_, fun e he hmod => ?_⟩
  · simpa [suitRow] using hrlen
  · obtain ⟨hmem, hx0⟩ := hcounts x hx
    have := hlegal.le_four hlo x hmem
    omega
  · have hsum := hsplit.sum_mod
    obtain rfl : e' = e := by
      simp only at hsum
      omega
    exact sumOf_iff.mpr ⟨hsplit, by omega⟩

/-! ## Judging a hand -/

/-- The runs of the first two suits, in an order of visit. -/
def suitRuns (order : List CardCfg) (t : ℕ → ℕ) : List (List ℕ) :=
  (order.filter fun cfg => cfg.max ≤ 18).flatMap fun cfg => runs (cfg.counts t)

/-- One of the two suits is visited first. -/
theorem suitRuns_eq (horder : VisitOrder order) :
    (∀ t, suitRuns order t = runs (suitRow 1 t) ++ runs (suitRow 10 t)) ∨
      ∀ t, suitRuns order t = runs (suitRow 10 t) ++ runs (suitRow 1 t) := by
  have hperm : (order.filter fun cfg => cfg.max ≤ 18).Perm [⟨1, 9, true⟩, ⟨10, 18, true⟩] :=
    horder.filter _
  refine (List.perm_pair.mp hperm).imp (fun h t => ?_) fun h t => ?_
  · rw [suitRuns, h, List.flatMap_cons, List.flatMap_cons, List.flatMap_nil, List.append_nil]
    rfl
  · rw [suitRuns, h, List.flatMap_cons, List.flatMap_cons, List.flatMap_nil, List.append_nil]
    rfl

theorem colourItems_suit {cfg : CardCfg} (hcfg : cfg ∈ colours) (hmax : cfg.max ≤ 18)
    (t : ℕ → ℕ) : colourItems t cfg = (runs (cfg.counts t)).map .run := by
  have hchi : ∀ cfg ∈ colours, cfg.max ≤ 18 → cfg.chi = true := by decide
  rw [colourItems, if_pos (hchi cfg hcfg hmax)]

/-- An empty colour is passed over. -/
theorem scan_empty {cfg : CardCfg} (hcfg : cfg ∈ colours) (hmax : ¬ cfg.max ≤ 18) {t : ℕ → ℕ}
    (ht : ∀ x, 19 ≤ x → t x = 0) (info : Info) :
    scanAll checkItem (colourItems t cfg) info = (true, info) := by
  have hmin : ∀ cfg ∈ colours, ¬ cfg.max ≤ 18 → 19 ≤ cfg.min := by decide
  have hzero : ∀ x ∈ cfg.counts t, x = 0 := by
    intro x hx
    obtain ⟨i, hi, rfl⟩ := List.mem_map.mp hx
    rw [CardCfg.indices, List.mem_range'_1] at hi
    exact ht i ((hmin cfg hcfg hmax).trans hi.1)
  rw [colourItems]
  split_ifs
  · rw [List.eq_replicate_of_mem hzero, runs, runsFrom_replicate_zero, if_pos rfl]
    rfl
  · refine scan_zeros (fun it hit => ?_) info
    obtain ⟨x, hx, rfl⟩ := List.mem_map.mp hit
    rw [hzero x hx]

/-- The other two colours are empty, so a hand is judged by the runs of its suits. -/
theorem getHuInfo_tables (horder : VisitOrder order) (w : Tables) {t : ℕ → ℕ}
    (ht : ∀ x, 19 ≤ x → t x = 0) :
    (getHuInfo order w t none).2 =
      (scanAll checkItem ((suitRuns order t).map .run) ⟨w, false⟩).2.tables := by
  have hscan : ∀ cfgs : List CardCfg, (∀ cfg ∈ cfgs, cfg ∈ colours) → ∀ info,
      scanAll checkItem (cfgs.flatMap (colourItems t)) info =
        scanAll checkItem (((cfgs.filter fun cfg => cfg.max ≤ 18).flatMap fun cfg =>
          runs (cfg.counts t)).map .run) info := by
    intro cfgs hcfgs
    induction cfgs with
    | nil => exact fun _ => rfl
    | cons cfg cfgs ih =>
      intro info
      obtain ⟨hcfg, hrest⟩ := List.forall_mem_cons.mp hcfgs
      rw [List.flatMap_cons]
      by_cases hmax : cfg.max ≤ 18
      · rw [List.filter_cons_of_pos (by simpa using hmax), List.flatMap_cons, List.map_append,
          colourItems_suit hcfg hmax, scanAll_append, scanAll_append]
        simp only [ih hrest]
      · rw [List.filter_cons_of_neg (by simpa using hmax),
          scanAll_append_of_true (scan_empty hcfg hmax ht info)]
        exact ih hrest info
  rw [getHuInfo_eq_scan horder]
  exact congrArg (fun r => r.2.tables) (hscan order (fun cfg h => horder.mem_iff.mp h) _)

/-- The run passes as long as no other holds the pair. -/
def Present (w : Tables) (r : List ℕ) : Prop :=
  (r.sum % 3 = 0 ∧ key r ∈ w.waveTable.keys) ∨
    (r.sum % 3 = 2 ∧ (r.length = 1 ∨ key r ∈ w.waveTableEye.keys))

theorem Present.mono {w w' : Tables} (h : Grows w w') {r : List ℕ} (hr : Present w r) :
    Present w' r :=
  hr.imp (And.imp_right fun hmem => h.1 hmem) (And.imp_right (Or.imp_right fun hmem => h.2 hmem))

/-- Both tables collect. -/
def Collects (w : Tables) : Prop := w.waveTable.collect = true ∧ w.waveTableEye.collect = true

/-- A run that passes leaves the tables as they are. -/
theorem checkItem_of_present {w : Tables} {r : List ℕ} {eye : Bool} (hr : Present w r)
    (heye : eye.toNat + (Item.run r).pairs ≤ 1) :
    checkItem (.run r) ⟨w, eye⟩ = (true, ⟨w, eye || (Item.run r).pairs == 1⟩) := by
  simp only [checkItem, checkSub, Item.pairs] at heye ⊢
  rcases hr with ⟨h0, hmem⟩ | ⟨h2, hpass⟩
  · simp [h0, checkWave, LookupTable.look, hmem]
  · obtain rfl : eye = false := by
      rw [if_pos h2] at heye
      cases eye
      · rfl
      · simp at heye
    by_cases hlen : r.length = 1
    · simp [h2, checkWaveAndEye, hlen]
    · simp [h2, checkWaveAndEye, hlen, LookupTable.look, hpass.resolve_left hlen]

/-- A run that does not pass is entered. -/
theorem checkItem_present {w : Tables} (hw : Collects w) {r : List ℕ} {eye : Bool}
    (hr : r.sum % 3 ≠ 1) (heye : eye.toNat + (Item.run r).pairs ≤ 1) :
    Present (checkItem (.run r) ⟨w, eye⟩).2.tables r := by
  by_cases hpass : Present w r
  · rw [checkItem_of_present hpass heye]
    exact hpass
  · obtain ⟨hwave, heyes⟩ := hw
    simp only [Present, not_or, not_and] at hpass
    simp only [checkItem, checkSub, Item.pairs] at heye ⊢
    obtain h0 | h2 : r.sum % 3 = 0 ∨ r.sum % 3 = 2 := by omega
    · left
      simp [h0, checkWave, LookupTable.look, hpass.1 h0, hwave]
    · obtain rfl : eye = false := by
        rw [if_pos h2] at heye
        cases eye
        · rfl
        · simp at heye
      obtain ⟨hlen, hmem⟩ := hpass.2 h2
      right
      simp [h2, checkWaveAndEye, hlen, LookupTable.look, hmem, heyes]

/-- **The first run that is missing is entered**: behind runs that pass, with at most one
pair among them and it, a run is in its table afterwards. -/
theorem scan_present {w : Tables} (hw : Collects w) {pre post : List (List ℕ)} {r : List ℕ}
    {eye : Bool} (hpre : ∀ x ∈ pre, Present w x) (hr : r.sum % 3 ≠ 1)
    (heye : eye.toNat + (pre.map fun x => (Item.run x).pairs).sum + (Item.run r).pairs ≤ 1) :
    Present (scanAll checkItem ((pre ++ r :: post).map .run) ⟨w, eye⟩).2.tables r := by
  induction pre generalizing eye with
  | nil =>
    rw [List.nil_append, List.map_cons]
    have hmem := checkItem_present hw hr (by simpa using heye)
    rcases he : checkItem (.run r) ⟨w, eye⟩ with ⟨_ | _, info⟩
    · rw [scanAll_cons_false (by rw [he])]
      exact hmem
    · rw [scanAll_cons_true he]
      rw [he] at hmem
      exact hmem.mono (scan_grows _ info)
  | cons x pre ih =>
    obtain ⟨hx, hrest⟩ := List.forall_mem_cons.mp hpre
    rw [List.map_cons, List.sum_cons] at heye
    have hle : eye.toNat + (Item.run x).pairs ≤ 1 := by omega
    rw [List.cons_append, List.map_cons, scanAll_cons_true (checkItem_of_present hx hle)]
    refine ih hrest ?_
    rw [Item.toNat_eye hle]
    omega

/-! ## What the tables hold -/

/-- The number of a run of `least` to nine counts, each from 1 to 4, that is the sum of at
most four melds of one suit and `e` pairs. -/
def RunKey (least e n : ℕ) : Prop :=
  ∃ r : List ℕ, (least ≤ r.length ∧ r.length ≤ 9) ∧ (∀ c ∈ r, 1 ≤ c ∧ c ≤ 4) ∧
    SumOf true 4 e r ∧ n = key r

/-- The tables collect, and what they hold are numbers of melds, or of melds and a pair. -/
structure SoundTables (w : Tables) : Prop where
  /-- the flags -/
  collects : Collects w
  /-- the table without eye -/
  wave : ∀ n ∈ w.waveTable.keys, RunKey 1 0 n
  /-- the table with eye -/
  waveEye : ∀ n ∈ w.waveTableEye.keys, RunKey 2 1 n

theorem LookupTable.look_collect (t : LookupTable) (num : ℕ) :
    (t.look num).2.collect = t.collect := by
  rw [LookupTable.look]
  split_ifs <;> rfl

theorem LookupTable.mem_look {t : LookupTable} {num n : ℕ} (h : n ∈ (t.look num).2.keys) :
    n ∈ t.keys ∨ n = num := by
  rw [LookupTable.look] at h
  split_ifs at h
  · exact .inl h
  · exact (List.mem_cons.mp h).symm
  · exact .inl h

theorem SoundTables.checkItem {info : Info} (hw : SoundTables info.tables) {r : List ℕ}
    (hr : GoodRun r) : SoundTables (checkItem (.run r) info).2.tables := by
  simp only [Base.checkItem, checkSub, checkWaveAndEye, checkWave]
  split_ifs with h1 h2 heye hlen
  · exact hw
  · exact hw
  · exact hw
  · refine ⟨⟨hw.collects.1, ?_⟩, hw.wave, fun n hn => ?_⟩
    · rw [LookupTable.look_collect]
      exact hw.collects.2
    · rcases LookupTable.mem_look hn with hn | rfl
      · exact hw.waveEye n hn
      · have := hr.length
        exact ⟨r, by omega, hr.counts, hr.sumOf 1 le_rfl h2, rfl⟩
  · refine ⟨⟨?_, hw.collects.2⟩, fun n hn => ?_, hw.waveEye⟩
    · rw [LookupTable.look_collect]
      exact hw.collects.1
    · rcases LookupTable.mem_look hn with hn | rfl
      · exact hw.wave n hn
      · exact ⟨r, hr.length, hr.counts, hr.sumOf 0 (Nat.zero_le 1) (by omega), rfl⟩

/-- What `check_hu` does: it drops the hand, or `hulib` judges it. -/
theorem judge_cases (order : List CardCfg) (s : Gen) (t : ℕ → ℕ) :
    (judge order s t = s ∧ (Legal t → key (suitRow 1 t) ∈ s.tested)) ∨
      (Legal t ∧ key (suitRow 1 t) ∉ s.tested ∧
        judge order s t = { s with
          tested := insert (key (suitRow 1 t)) s.tested
          tables := (getHuInfo order s.tables t none).2 }) := by
  have hmany : (List.range' 1 34).any (fun i => t i > 4) = true ↔ ¬ Legal t := by
    simp [Legal, and_assoc]
  have hrow : (List.range' 1 9).map t = suitRow 1 t := rfl
  simp only [judge, checkHu, hmany, hrow]
  by_cases hlegal : Legal t
  · by_cases htested : key (suitRow 1 t) ∈ s.tested
    · rw [if_neg (not_not.mpr hlegal), if_pos htested]
      exact .inl ⟨rfl, fun _ => htested⟩
    · rw [if_neg (not_not.mpr hlegal), if_neg htested]
      exact .inr ⟨hlegal, htested, rfl⟩
  · rw [if_pos hlegal]
    exact .inl ⟨rfl, fun h => absurd h hlegal⟩

theorem after_concat (w : Tables) (cs : List (List ℕ)) (c : List ℕ) :
    after order w (cs ++ [c]) = judge order (after order w cs) (handOf c) := List.foldl_append

/-- Nothing is entered into `tested_tbl` but the first nine counts of a hand. -/
theorem exists_of_mem_tested {w : Tables} {cs : List (List ℕ)} {n : ℕ}
    (hn : n ∈ (after order w cs).tested) :
    ∃ c ∈ cs, Legal (handOf c) ∧ n = key (suitRow 1 (handOf c)) := by
  induction cs using List.reverseRecOn with
  | nil => exact absurd hn (Finset.notMem_empty n)
  | append_singleton cs c ih =>
    have hold : n ∈ (after order w cs).tested →
        ∃ c' ∈ cs ++ [c], Legal (handOf c') ∧ n = key (suitRow 1 (handOf c')) := by
      intro hn
      obtain ⟨c', hc', h⟩ := ih hn
      exact ⟨c', List.mem_append_left _ hc', h⟩
    rw [after_concat] at hn
    obtain ⟨hsame, -⟩ | ⟨hlegal, -, hjudge⟩ := judge_cases order (after order w cs) (handOf c)
    · rw [hsame] at hn
      exact hold hn
    · rw [hjudge] at hn
      rcases Finset.mem_insert.mp hn with rfl | hn
      · exact ⟨c, by simp, hlegal, rfl⟩
      · exact hold hn

theorem after_grows (horder : VisitOrder order) (w : Tables) (cs cs' : List (List ℕ)) :
    Grows (after order w cs).tables (after order w (cs ++ cs')).tables := by
  induction cs' using List.reverseRecOn with
  | nil =>
    rw [List.append_nil]
    exact Grows.refl _
  | append_singleton cs' c ih =>
    rw [← List.append_assoc, after_concat]
    obtain ⟨hsame, -⟩ | ⟨-, -, hjudge⟩ :=
      judge_cases order (after order w (cs ++ cs')) (handOf c)
    · rw [hsame]
      exact ih
    · rw [hjudge]
      exact ih.trans (getHuInfo_grows horder _ _ _)

/-- **Only sums of melds are collected.** -/
theorem soundTables_after (horder : VisitOrder order) {w : Tables} (hw : SoundTables w)
    {cs : List (List ℕ)} (hcs : ∀ c ∈ cs, c ∈ choices) : SoundTables (after order w cs).tables := by
  induction cs using List.reverseRecOn with
  | nil => exact hw
  | append_singleton cs c ih =>
    have hold := ih fun c hc => hcs c (List.mem_append_left _ hc)
    have hc := hcs c (by simp)
    rw [after_concat]
    obtain ⟨hsame, -⟩ | ⟨hlegal, -, hjudge⟩ := judge_cases order (after order w cs) (handOf c)
    · rw [hsame]
      exact hold
    · rw [hjudge]
      have hgood : ∀ r ∈ suitRuns order (handOf c), GoodRun r := by
        intro r hr
        have hmem : r ∈ runs (suitRow 1 (handOf c)) ∨ r ∈ runs (suitRow 10 (handOf c)) := by
          rcases suitRuns_eq horder with h | h
          · rwa [h, List.mem_append] at hr
          · rwa [h, List.mem_append, or_comm] at hr
        rcases hmem with h | h
        · exact goodRun_of_mem hc hlegal (.inl rfl) h
        · exact goodRun_of_mem hc hlegal (.inr rfl) h
      change SoundTables (getHuInfo order _ _ none).2
      rw [getHuInfo_tables horder _ fun x hx => handOf_eq_zero hc hx]
      refine scanAll_invariant (I := fun info : Info => SoundTables info.tables) ?_ hold
      intro it hit info hinfo
      obtain ⟨r, hr, rfl⟩ := List.mem_map.mp hit
      exact hinfo.checkItem (hgood r hr)

end SlgServer.Base
