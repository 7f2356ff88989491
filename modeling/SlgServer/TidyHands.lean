import SlgServer.GenBaseTable

/-!
# The hands that `check_hu` lets through

Of all hands with given first nine counts `check_hu` judges only the first. It is a tidy
one: what does not lie in the first suit is a pair at 10 and triplets behind it, as many as
are needed (`FirstHand.eq_tidyHand`); for tidying a hand does not change the first suit and
never moves the hand back in the order of the loops (`tidyHand_le`). So the second suit of
such a hand is a single run that depends on the tiles of the first suit only
(`FirstHand.runs_second`).
-/

namespace SlgServer.Base

open Melds Scan NestedLoops
open Gui (putMeld putMeld_apply)

variable {order : List CardCfg}

/-! ## Tidy hands -/

/-- The melds that do not lie in the first suit become the triplets from `b` on. -/
def tidy : ℕ → List ℕ → List ℕ
  | _, [] => []
  | b, j :: js => if InFirst j then j :: tidy b js else b :: tidy (b + 1) js

/-- A pair that does not lie in the first suit is put at 10, the triplets behind it. -/
def tidyHand : List ℕ → List ℕ
  | [] => []
  | i :: js => if i ≤ 9 then i :: tidy 10 js else 10 :: tidy 11 js

/-- How many melds do not lie in the first suit. -/
def spares (js : List ℕ) : ℕ := js.countP fun j => ¬ InFirst j

theorem spares_cons (j : ℕ) (js : List ℕ) :
    spares (j :: js) = spares js + if InFirst j then 0 else 1 := by
  rw [spares, List.countP_cons, spares]
  by_cases h : InFirst j <;> simp [h]

theorem spares_le (js : List ℕ) : spares js ≤ js.length := List.countP_le_length

theorem length_tidy (b : ℕ) (js : List ℕ) : (tidy b js).length = js.length := by
  induction js generalizing b with
  | nil => rfl
  | cons j js ih =>
    rw [tidy]
    split_ifs <;> rw [List.length_cons, List.length_cons, ih]

theorem mem_tidy {b : ℕ} {js : List ℕ} (hjs : ∀ j ∈ js, 1 ≤ j ∧ j ≤ 32) (hb : 1 ≤ b)
    (hspares : b + spares js ≤ 33) : ∀ j ∈ tidy b js, 1 ≤ j ∧ j ≤ 32 := by
  induction js generalizing b with
  | nil => simp [tidy]
  | cons j js ih =>
    obtain ⟨hj, hjs⟩ := List.forall_mem_cons.mp hjs
    rw [spares_cons] at hspares
    rw [tidy]
    split_ifs at hspares ⊢
    · exact List.forall_mem_cons.mpr ⟨hj, ih hjs hb (by omega)⟩
    · exact List.forall_mem_cons.mpr ⟨by omega, ih hjs (by omega) (by omega)⟩

/-- The tiles of tidied melds: in the first suit they are as before, beyond it they are
triplets. -/
theorem tileCount_tidy {b : ℕ} {js : List ℕ} (hjs : ∀ j ∈ js, 1 ≤ j ∧ j ≤ 32) (hb : 10 ≤ b)
    (hspares : b + spares js ≤ 19) (x : ℕ) :
    tileCount ((tidy b js).map meldAt) x =
      if x ≤ 9 then tileCount (js.map meldAt) x
      else if b ≤ x ∧ x < b + spares js then 3 else 0 := by
  induction js generalizing b with
  | nil =>
    have hnone : ¬ (b ≤ x ∧ x < b + spares []) := fun h => absurd h.2 (Nat.not_lt.mpr h.1)
    rw [if_neg hnone]
    simp [tidy]
  | cons j js ih =>
    obtain ⟨hj, hjs⟩ := List.forall_mem_cons.mp hjs
    rw [spares_cons] at hspares ⊢
    rw [tidy]
    by_cases hin : InFirst j
    · rw [if_pos hin] at hspares ⊢
      rw [if_pos hin, List.map_cons, tileCount_cons, List.map_cons, tileCount_cons,
        ih hjs hb hspares, Nat.add_zero]
      by_cases hx : x ≤ 9
      · rw [if_pos hx, if_pos hx]
      · rw [if_neg hx, if_neg hx, count_meldAt hj (.inl ⟨hin, by omega⟩), Nat.zero_add]
    · rw [if_neg hin] at hspares ⊢
      have hmeld : meldAt b = .triplet b := if_pos (by omega)
      rw [if_neg hin, List.map_cons, tileCount_cons, List.map_cons, tileCount_cons,
        ih hjs (by omega) (by omega), hmeld, Meld.count_triplet]
      by_cases hx : x ≤ 9
      · rw [if_pos hx, if_pos hx, if_neg (by omega), count_meldAt hj (.inr (.inl ⟨hin, hx⟩))]
      · rw [if_neg hx, if_neg hx]
        split_ifs <;> omega

/-- **Tidying comes first in the order of the loops**: on an array with two tiles at each
place from 10 up to `b`, legal melds never come before the tidied ones. -/
theorem tidy_le {b : ℕ} {t : ℕ → ℕ} {js : List ℕ} (hjs : ∀ j ∈ js, 1 ≤ j ∧ j ≤ 32)
    (hb : 10 ≤ b) (hspares : b + spares js ≤ 19) (ht : ∀ x, 10 ≤ x → x < b → 2 ≤ t x)
    (hlegal : ∀ x, 10 ≤ x → x ≤ 18 → putAll t js x ≤ 4) : tidy b js ≤ js := by
  induction js generalizing b t with
  | nil => exact le_rfl
  | cons j js ih =>
    obtain ⟨hj, hrest⟩ := List.forall_mem_cons.mp hjs
    rw [spares_cons] at hspares
    rw [tidy]
    by_cases hin : InFirst j
    · rw [if_pos hin] at hspares ⊢
      refine List.cons_le_cons j (ih (t := putMeld t (meldAt j)) hrest hb (by omega) ?_ hlegal)
      intro x hx hxb
      have := ht x hx hxb
      rw [putMeld_apply]
      omega
    · rw [if_neg hin] at hspares ⊢
      obtain hlt | rfl | hgt : b < j ∨ b = j ∨ j < b := by omega
      · exact le_of_lt (List.Lex.rel hlt)
      · refine List.cons_le_cons b
          (ih (t := putMeld t (meldAt b)) hrest (by omega) (by omega) ?_ hlegal)
        intro x hx hxb
        rw [putMeld_apply, show meldAt b = .triplet b from if_pos (by omega), Meld.count_triplet]
        by_cases hxb' : b = x
        · rw [if_pos hxb']
          omega
        · have := ht x hx (by omega)
          omega
      · -- a triplet where there are two tiles already
        have hj10 : 10 ≤ j ∧ j ≤ 18 := by
          unfold InFirst at hin
          omega
        have htwo := ht j hj10.1 hgt
        have hfour := hlegal j hj10.1 hj10.2
        rw [putAll_apply, List.map_cons, tileCount_cons,
          show meldAt j = .triplet j from if_pos hj10.2, Meld.count_triplet, if_pos rfl] at hfour
        omega

/-! ## The hand of a tidied choice -/

theorem tidyHand_mem {c : List ℕ} (hc : c ∈ choices) : tidyHand c ∈ choices := by
  obtain ⟨i, js, rfl, hi, hlen, hjs⟩ := mem_choices.mp hc
  have hspares := spares_le js
  rw [tidyHand]
  split_ifs
  · exact mem_choices.mpr ⟨i, _, rfl, hi, by rw [length_tidy, hlen],
      mem_tidy hjs (by decide) (by omega)⟩
  · exact mem_choices.mpr ⟨10, _, rfl, by decide, by rw [length_tidy, hlen],
      mem_tidy hjs (by decide) (by omega)⟩

/-- The array of a tidied choice. -/
theorem handOf_tidyHand {i : ℕ} {js : List ℕ} (hlen : js.length = 4)
    (hjs : ∀ j ∈ js, 1 ≤ j ∧ j ≤ 32) (x : ℕ) :
    handOf (tidyHand (i :: js)) x =
      if x ≤ 9 then handOf (i :: js) x
      else if i ≤ 9 then (if 10 ≤ x ∧ x < 10 + spares js then 3 else 0)
      else if x = 10 then 2 else if 11 ≤ x ∧ x < 11 + spares js then 3 else 0 := by
  have hspares := spares_le js
  rw [tidyHand]
  by_cases hi : i ≤ 9
  · rw [if_pos hi, deals_handOf, deals_handOf, tileCount_tidy hjs (by decide) (by omega)]
    by_cases hx : x ≤ 9
    · rw [if_pos hx, if_pos hx]
    · have hcount : [i].count x = 0 := List.count_eq_zero_of_not_mem (by
        rw [List.mem_singleton]
        omega)
      rw [if_neg hx, if_neg hx, if_pos hi, hcount, Nat.mul_zero, Nat.add_zero]
  · rw [if_neg hi, deals_handOf, deals_handOf, tileCount_tidy hjs (by decide) (by omega),
      List.count_singleton, List.count_singleton]
    by_cases hx : x ≤ 9
    · have h10 : (10 == x) = false := by simpa using (show 10 ≠ x by omega)
      have hix : (i == x) = false := by simpa using (show i ≠ x by omega)
      rw [if_pos hx, if_pos hx, h10, hix]
    · rw [if_neg hx, if_neg hx, if_neg hi]
      by_cases h10 : x = 10
      · subst h10
        simp
      · have h10' : (10 == x) = false := by simpa using Ne.symm h10
        simp [h10, h10']

/-- The first nine counts are as before. -/
theorem suitRow_tidyHand {c : List ℕ} (hc : c ∈ choices) :
    suitRow 1 (handOf (tidyHand c)) = suitRow 1 (handOf c) := by
  obtain ⟨i, js, rfl, -, hlen, hjs⟩ := mem_choices.mp hc
  apply List.map_congr_left
  intro x hx
  rw [List.mem_range'_1] at hx
  rw [handOf_tidyHand hlen hjs, if_pos (by omega)]

/-- A tidied hand has too many tiles of a kind only in the first suit. -/
theorem legal_tidyHand {c : List ℕ} (hc : c ∈ choices) (h4 : ∀ n ∈ suitRow 1 (handOf c), n ≤ 4) :
    Legal (handOf (tidyHand c)) := by
  obtain ⟨i, js, rfl, -, hlen, hjs⟩ := mem_choices.mp hc
  intro x hx
  rw [List.mem_range'_1] at hx
  rw [handOf_tidyHand hlen hjs]
  by_cases hx9 : x ≤ 9
  · rw [if_pos hx9]
    exact h4 _ (List.mem_map_of_mem (List.mem_range'_1.mpr (by omega)))
  · rw [if_neg hx9]
    split_ifs <;> omega

/-- **Tidying a legal hand never moves it back.** -/
theorem tidyHand_le {c : List ℕ} (hc : c ∈ choices) (hlegal : Legal (handOf c)) :
    tidyHand c ≤ c := by
  obtain ⟨i, js, rfl, hi, hlen, hjs⟩ := mem_choices.mp hc
  have hspares := spares_le js
  have hfour : ∀ x, 10 ≤ x → x ≤ 18 → putAll (Function.update (fun _ => 0) i 2) js x ≤ 4 :=
    fun x hx hx' => hlegal x (List.mem_range'_1.mpr (by omega))
  rw [tidyHand]
  by_cases hi9 : i ≤ 9
  · rw [if_pos hi9]
    exact List.cons_le_cons i (tidy_le hjs (by decide) (by omega) (by omega) hfour)
  · rw [if_neg hi9]
    obtain rfl | hgt : i = 10 ∨ 10 < i := by omega
    · refine List.cons_le_cons 10 (tidy_le hjs (by decide) (by omega) (fun x hx hx' => ?_) hfour)
      obtain rfl : x = 10 := by omega
      exact le_rfl
    · exact le_of_lt (List.Lex.rel hgt)

/-- The tiles in the first suit, and three for each meld that is not there. -/
theorem sum_suitRow {i : ℕ} {js : List ℕ} (hi : 1 ≤ i) (hjs : ∀ j ∈ js, 1 ≤ j ∧ j ≤ 32) :
    (suitRow 1 (handOf (i :: js))).sum + 3 * spares js =
      3 * js.length + if i ≤ 9 then 2 else 0 := by
  have htiles : ((js.map meldAt).flatMap Meld.tiles).countP
      (fun y => decide (1 ≤ y ∧ y < 1 + 9)) + 3 * spares js = 3 * js.length := by
    induction js with
    | nil => rfl
    | cons j js ih =>
      obtain ⟨hj, hrest⟩ := List.forall_mem_cons.mp hjs
      have hwithin := (meldAt_within hj).tiles
      have hone : (meldAt j).tiles.countP (fun y => decide (1 ≤ y ∧ y < 1 + 9)) =
          if InFirst j then 3 else 0 := by
        split_ifs at hwithin ⊢ with hin
        · rw [List.countP_eq_length.mpr fun y hy => decide_eq_true (hwithin y hy),
            Meld.length_tiles]
        · refine List.countP_eq_zero.mpr fun y hy => ?_
          have := hwithin y hy
          rw [decide_eq_true_eq]
          omega
      have := ih hrest
      rw [List.map_cons, List.flatMap_cons, List.countP_append, hone, spares_cons,
        List.length_cons]
      split_ifs <;> omega
  have hsum := (deals_handOf i js).sum_eq 1 9
  rw [List.countP_singleton] at hsum
  change (suitRow 1 (handOf (i :: js))).sum = _ at hsum
  by_cases hi9 : i ≤ 9
  · rw [if_pos (decide_eq_true (by omega))] at hsum
    rw [if_pos hi9]
    omega
  · rw [if_neg (by rw [decide_eq_true_eq]; omega)] at hsum
    rw [if_neg hi9]
    omega

/-- The runs of `n` tiles that were put aside. -/
def spareRuns (n : ℕ) : List (List ℕ) :=
  if n = 0 then [] else [(if n % 3 = 2 then [2] else []) ++ List.replicate (n / 3) 3]

/-- They are one run, unless there are none. -/
theorem spareRuns_cases {n : ℕ} (hn : n % 3 ≠ 1) :
    spareRuns n = [] ∧ n = 0 ∨ ∃ p, spareRuns n = [p] ∧ p.sum = n := by
  rw [spareRuns]
  by_cases h0 : n = 0
  · exact .inl ⟨if_pos h0, h0⟩
  · refine .inr ⟨_, if_neg h0, ?_⟩
    rw [List.sum_append, List.sum_replicate_nat]
    split_ifs
    · rw [List.sum_singleton]
      omega
    · rw [List.sum_nil]
      omega

/-- **What a tidied hand has in the second suit** are the tiles that the first one lacks. -/
theorem runs_tidyHand {c : List ℕ} (hc : c ∈ choices) :
    runs (suitRow 10 (handOf (tidyHand c))) = spareRuns (14 - (suitRow 1 (handOf c)).sum) := by
  obtain ⟨i, js, rfl, hi, hlen, hjs⟩ := mem_choices.mp hc
  have hsum := sum_suitRow hi.1 hjs
  have hrow : suitRow 10 (handOf (tidyHand (i :: js))) = (List.range' 10 9).map fun x =>
      if i ≤ 9 then (if 10 ≤ x ∧ x < 10 + spares js then 3 else 0)
      else if x = 10 then 2 else if 11 ≤ x ∧ x < 11 + spares js then 3 else 0 := by
    apply List.map_congr_left
    intro x hx
    rw [List.mem_range'_1] at hx
    rw [handOf_tidyHand hlen hjs, if_neg (by omega)]
  have hspares := spares_le js
  rw [hlen] at hsum hspares
  rw [hrow]
  generalize spares js = k at *
  by_cases hi9 : i ≤ 9
  · simp only [if_pos hi9] at hsum ⊢
    obtain hn : 14 - (suitRow 1 (handOf (i :: js))).sum = 3 * k := by omega
    rw [hn]
    interval_cases k <;> rfl
  · simp only [if_neg hi9] at hsum ⊢
    obtain hn : 14 - (suitRow 1 (handOf (i :: js))).sum = 3 * k + 2 := by omega
    rw [hn]
    interval_cases k <;> rfl

/-! ## First hands -/

theorem pairwise_choices : choices.Pairwise (· < ·) := by
  apply pairwise_tuples
  intro l hl
  rcases List.mem_cons.mp hl with rfl | hl
  · exact List.pairwise_lt_range'
  · rw [List.eq_of_mem_replicate hl]
    exact List.pairwise_lt_range'

/-- Behind the choices `pre` stands `c`, whose hand is the first of the legal hands with the
counts `s` in the first suit. -/
structure FirstHand (s : List ℕ) (pre : List (List ℕ)) (c : List ℕ) : Prop where
  /-- where `c` stands -/
  split : ∃ post, choices = pre ++ c :: post
  /-- its hand is legal -/
  legal : Legal (handOf c)
  /-- and has these counts -/
  row : suitRow 1 (handOf c) = s
  /-- those before it do not -/
  first : ∀ b ∈ pre, ¬ (Legal (handOf b) ∧ suitRow 1 (handOf b) = s)
  /-- and it is the least that does -/
  least : ∀ b ∈ choices, Legal (handOf b) → suitRow 1 (handOf b) = s → c ≤ b

theorem exists_firstHand {s : List ℕ} (h : ∃ c ∈ choices, suitRow 1 (handOf c) = s)
    (hs : ∀ n ∈ s, n ≤ 4) : ∃ pre c, FirstHand s pre c := by
  obtain ⟨c, hc, rfl⟩ := h
  obtain ⟨pre, b, post, hsplit, ⟨hlegal, hrow⟩, hfirst, hleast⟩ :=
    exists_first (P := fun b => Legal (handOf b) ∧ suitRow 1 (handOf b) = suitRow 1 (handOf c))
      pairwise_choices ⟨tidyHand c, tidyHand_mem hc, legal_tidyHand hc hs, suitRow_tidyHand hc⟩
  exact ⟨pre, b, ⟨post, hsplit⟩, hlegal, hrow, hfirst, fun b hb h h' => hleast b hb ⟨h, h'⟩⟩

namespace FirstHand

variable {s s' : List ℕ} {pre pre' : List (List ℕ)} {c c' : List ℕ}

theorem mem (h : FirstHand s pre c) : c ∈ choices := by
  obtain ⟨post, hsplit⟩ := h.split
  rw [hsplit]
  exact List.mem_append_right _ (List.mem_cons_self ..)

/-- **First hands are tidy.** -/
theorem eq_tidyHand (h : FirstHand s pre c) : c = tidyHand c := by
  refine le_antisymm (h.least _ (tidyHand_mem h.mem) (legal_tidyHand h.mem ?_) ?_)
    (tidyHand_le h.mem h.legal)
  · exact h.legal.le_four (.inl rfl)
  · rw [suitRow_tidyHand h.mem, h.row]

theorem runs_second (h : FirstHand s pre c) :
    runs (suitRow 10 (handOf c)) = spareRuns (14 - s.sum) := by
  rw [h.eq_tidyHand, runs_tidyHand h.mem, h.row]

/-- The hand is judged. -/
theorem tables_eq (h : FirstHand s pre c) (w : Tables) :
    (after order w (pre ++ [c])).tables =
      (getHuInfo order (after order w pre).tables (handOf c) none).2 := by
  rw [after_concat]
  obtain ⟨-, htested⟩ | ⟨-, -, hjudge⟩ := judge_cases order (after order w pre) (handOf c)
  · obtain ⟨b, hb, hlegal, hkey⟩ := exists_of_mem_tested (htested h.legal)
    have hdigits : ∀ {t : ℕ → ℕ}, Legal t → ∀ n ∈ suitRow 1 t, n < 10 := fun ht n hn =>
      (ht.le_four (.inl rfl) n hn).trans_lt (by decide)
    have hrow := key_injective_of_length (by simp [suitRow]) (hdigits h.legal) (hdigits hlegal) hkey
    exact absurd ⟨hlegal, by rw [← hrow, h.row]⟩ (h.first b hb)
  · rw [hjudge]

/-- A run behind runs that pass is entered. -/
theorem present (horder : VisitOrder order) {w : Tables} (h : FirstHand s pre c)
    (hw : Collects (after order w pre).tables) {rs rs' : List (List ℕ)} {r : List ℕ}
    (hruns : suitRuns order (handOf c) = rs ++ r :: rs')
    (hrs : ∀ x ∈ rs, Present (after order w pre).tables x) (hr : r.sum % 3 ≠ 1)
    (hpairs : (rs.map fun x => (Item.run x).pairs).sum + (Item.run r).pairs ≤ 1) :
    Present (after order w (pre ++ [c])).tables r := by
  rw [h.tables_eq, getHuInfo_tables horder _ fun x hx => handOf_eq_zero h.mem hx, hruns]
  refine scan_present hw hrs hr ?_
  rw [Bool.toNat_false, Nat.zero_add]
  exact hpairs

/-- What was in the tables after a first hand is there when a later one is judged. -/
theorem present_of_lt (horder : VisitOrder order) {w : Tables} (h : FirstHand s pre c)
    (h' : FirstHand s' pre' c') (hlt : c < c') {r : List ℕ}
    (hr : Present (after order w (pre ++ [c])).tables r) :
    Present (after order w pre').tables r := by
  obtain ⟨post, hsplit⟩ := h.split
  obtain ⟨post', hsplit'⟩ := h'.split
  have hsorted := pairwise_choices
  rw [hsplit] at hsorted
  obtain ⟨mid, rfl⟩ := exists_between hsorted (hsplit.symm.trans hsplit') hlt
  rw [List.append_cons]
  exact hr.mono (after_grows horder w _ _)

/-- And in the end. -/
theorem present_end (horder : VisitOrder order) {w : Tables} (h : FirstHand s pre c) {r : List ℕ}
    (hr : Present (after order w (pre ++ [c])).tables r) :
    Present (after order w choices).tables r := by
  obtain ⟨post, hsplit⟩ := h.split
  rw [hsplit, List.append_cons]
  exact hr.mono (after_grows horder w _ _)

end FirstHand

end SlgServer.Base
