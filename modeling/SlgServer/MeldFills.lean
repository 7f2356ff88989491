import SlgServer.Melds
import Mathlib.Logic.Function.Basic
import Mathlib.Algebra.Order.BigOperators.Group.List
import Mathlib.Algebra.Order.Group.Nat

/-!
# Rows that jokers complete

`Fills chi e k w` says that `k` more tiles turn the row of counts `w` into one
that splits with `e` pairs, no count exceeding four. The counts of a row come
from a function on places: `Lowers is j t w` takes `j` tiles away from the counts
`t` on the places `is`, and `lowers_succ` takes them one by one.

Without sequences the jokers a row needs can be counted (`need`): two for a
single tile and one for two, one less if the pair is found there.
-/

namespace Melds

variable {chi : Bool} {e k : ℕ}

/-! ## Counts on a list of places -/

/-- Changing the count of one place. -/
theorem sum_map_update {is : List ℕ} (hnd : is.Nodup) {i : ℕ} (hi : i ∈ is) (f : ℕ → ℕ) (c : ℕ) :
    (is.map (Function.update f i c)).sum + f i = (is.map f).sum + c := by
  induction is with
  | nil => cases hi
  | cons j is ih =>
    obtain ⟨hj, hnd⟩ := List.nodup_cons.mp hnd
    rw [List.map_cons, List.map_cons, List.sum_cons, List.sum_cons]
    by_cases hij : i = j
    · subst hij
      have hrest : is.map (Function.update f i c) = is.map f :=
        List.map_congr_left fun x hx => Function.update_of_ne (fun h : x = i => hj (h ▸ hx)) _ _
      rw [hrest, Function.update_self]
      omega
    · rw [Function.update_of_ne (Ne.symm hij)]
      have := ih hnd ((List.mem_cons.mp hi).resolve_left hij)
      omega

/-- Rows that are not more at any place, and not fewer in all, are the same. -/
theorem eq_of_sum_eq {w u : List ℕ} (h : List.Forall₂ (· ≤ ·) w u) (hsum : u.sum = w.sum) :
    w = u := by
  induction h with
  | nil => rfl
  | cons hc hle ih =>
    have hle' := hle.sum_le_sum
    rw [List.sum_cons, List.sum_cons] at hsum
    rw [ih (by omega)]
    exact congrArg (· :: _) (by omega)

theorem forall₂_map_le {is : List ℕ} {f g : ℕ → ℕ} :
    List.Forall₂ (· ≤ ·) (is.map f) (is.map g) ↔ ∀ i ∈ is, f i ≤ g i := by
  rw [List.forall₂_map_left_iff, List.forall₂_map_right_iff, List.forall₂_same]

/-- A row of the right length is one of counts, which may be anything elsewhere. -/
theorem exists_map_of_length {is w : List ℕ} (hnd : is.Nodup) (hlen : w.length = is.length)
    (f : ℕ → ℕ) : ∃ g : ℕ → ℕ, w = is.map g ∧ ∀ i, i ∉ is → g i = f i := by
  induction is generalizing w with
  | nil => exact ⟨f, List.eq_nil_of_length_eq_zero hlen, fun _ _ => rfl⟩
  | cons i is ih =>
    obtain ⟨hi, hnd⟩ := List.nodup_cons.mp hnd
    cases w with
    | nil => cases hlen
    | cons c w =>
      obtain ⟨g, rfl, hout⟩ := ih hnd (Nat.succ_inj.mp hlen)
      have hsame : ∀ j ∈ is, Function.update g i c j = g j := fun j hj =>
        Function.update_of_ne (fun h : j = i => hi (h ▸ hj)) _ _
      refine ⟨Function.update g i c, ?_, fun j hj => ?_⟩
      · rw [List.map_cons, Function.update_self, List.map_congr_left hsame]
      · rw [List.mem_cons, not_or] at hj
        rw [Function.update_of_ne hj.1]
        exact hout j hj.2

/-! ## Taking tiles away -/

/-- The counts `w` are those of `t` with `j` tiles taken away at the places `is`. -/
def Lowers (is : List ℕ) (j : ℕ) (t w : ℕ → ℕ) : Prop :=
  (∀ i ∈ is, w i ≤ t i) ∧ (is.map t).sum = (is.map w).sum + j

theorem lowers_zero {is : List ℕ} {t w : ℕ → ℕ} : Lowers is 0 t w ↔ is.map w = is.map t := by
  refine ⟨?_, fun h => ?_⟩
  · rintro ⟨hle, hsum⟩
    exact eq_of_sum_eq (forall₂_map_le.mpr hle) hsum
  · exact ⟨fun i hi => Nat.le_of_eq (List.map_inj_left.mp h i hi), by rw [h, Nat.add_zero]⟩

/-- The first tile taken away is some tile of `t`. -/
theorem lowers_succ {is : List ℕ} (hnd : is.Nodup) {j : ℕ} {t w : ℕ → ℕ} :
    Lowers is (j + 1) t w ↔
      ∃ i ∈ is, 0 < t i ∧ Lowers is j (Function.update t i (t i - 1)) w := by
  refine ⟨?_, ?_⟩
  · rintro ⟨hle, hsum⟩
    obtain ⟨i, hi, hlt⟩ : ∃ i ∈ is, w i < t i := by
      by_contra hno
      have hge : ∀ i ∈ is, t i ≤ w i := by
        intro i hi
        by_contra hlt
        exact hno ⟨i, hi, by omega⟩
      have := List.sum_le_sum hge
      omega
    refine ⟨i, hi, by omega, fun x hx => ?_, ?_⟩
    · by_cases hxi : x = i
      · subst hxi
        rw [Function.update_self]
        omega
      · rw [Function.update_of_ne hxi]
        exact hle x hx
    · have := sum_map_update hnd hi t (t i - 1)
      omega
  · rintro ⟨i, hi, hpos, hle, hsum⟩
    refine ⟨fun x hx => ?_, ?_⟩
    · have hx' := hle x hx
      by_cases hxi : x = i
      · subst hxi
        rw [Function.update_self] at hx'
        omega
      · rwa [Function.update_of_ne hxi] at hx'
    · have := sum_map_update hnd hi t (t i - 1)
      omega

/-- Only the counts on the places matter. -/
theorem Lowers.congr {is : List ℕ} {t t' w w' : ℕ → ℕ} (h : Lowers is k t w)
    (ht : ∀ i ∈ is, t' i = t i) (hw : ∀ i ∈ is, w' i = w i) : Lowers is k t' w' := by
  obtain ⟨hle, hsum⟩ := h
  rw [← List.map_congr_left ht, ← List.map_congr_left hw] at hsum
  refine ⟨fun i hi => ?_, hsum⟩
  rw [ht i hi, hw i hi]
  exact hle i hi

theorem lowers_append {is js : List ℕ} {t w : ℕ → ℕ} :
    Lowers (is ++ js) k t w ↔ ∃ k₁ k₂, k = k₁ + k₂ ∧ Lowers is k₁ t w ∧ Lowers js k₂ t w := by
  simp only [Lowers, List.map_append, List.sum_append, List.forall_mem_append]
  refine ⟨?_, ?_⟩
  · rintro ⟨⟨hi, hj⟩, hsum⟩
    have hle := List.sum_le_sum hi
    have hle' := List.sum_le_sum hj
    exact ⟨(is.map t).sum - (is.map w).sum, (js.map t).sum - (js.map w).sum, by omega,
      ⟨hi, by omega⟩, hj, by omega⟩
  · rintro ⟨k₁, k₂, rfl, ⟨hi, hsum⟩, hj, hsum'⟩
    exact ⟨⟨hi, hj⟩, by omega⟩

/-! ## Filling a row -/

/-- With `k` tiles added the row `w` splits with `e` pairs and holds at most four
tiles at each place. -/
def Fills (chi : Bool) (e k : ℕ) (w : List ℕ) : Prop :=
  ∃ u, List.Forall₂ (· ≤ ·) w u ∧ u.sum = w.sum + k ∧ (∀ c ∈ u, c ≤ 4) ∧ Splits chi 0 0 e u

theorem Fills.sum_mod {w : List ℕ} (h : Fills chi e k w) : (w.sum + k) % 3 = 2 * e % 3 := by
  obtain ⟨u, -, hsum, -, hs⟩ := h
  rw [← hsum]
  exact hs.sum_mod

/-- Counts whose row is filled become other counts, on these places. -/
theorem Fills.exists_counts {is : List ℕ} (hnd : is.Nodup) {w : ℕ → ℕ}
    (h : Fills chi e k (is.map w)) :
    ∃ u, Lowers is k u w ∧ (∀ i ∈ is, u i ≤ 4) ∧ (∀ i, i ∉ is → u i = w i) ∧
      Splits chi 0 0 e (is.map u) := by
  obtain ⟨row, hle, hsum, hfour, hs⟩ := h
  obtain ⟨u, rfl, hout⟩ := exists_map_of_length hnd (by simpa using hle.length_eq.symm) w
  exact ⟨u, ⟨forall₂_map_le.mp hle, hsum⟩, fun i hi => hfour _ (List.mem_map_of_mem hi), hout, hs⟩

theorem Lowers.fills {is : List ℕ} {u w : ℕ → ℕ} (h : Lowers is k u w) (hfour : ∀ i ∈ is, u i ≤ 4)
    (hs : Splits chi 0 0 e (is.map u)) : Fills chi e k (is.map w) := by
  obtain ⟨hle, hsum⟩ := h
  refine ⟨is.map u, forall₂_map_le.mpr hle, hsum, fun c hc => ?_, hs⟩
  obtain ⟨i, hi, rfl⟩ := List.mem_map.mp hc
  exact hfour i hi

/-- A row that needs no tile splits. -/
theorem Fills.splits {w : List ℕ} (h : Fills chi e 0 w) : Splits chi 0 0 e w := by
  obtain ⟨u, hle, hsum, -, hs⟩ := h
  rwa [eq_of_sum_eq hle hsum]

theorem Splits.fills {w : List ℕ} (h : Splits chi 0 0 e w) (hw : ∀ c ∈ w, c ≤ 4) :
    Fills chi e 0 w :=
  ⟨w, List.forall₂_refl w, rfl, hw, h⟩

/-- A row without tiles is complete. -/
theorem fills_of_sum_eq_zero {w : List ℕ} (h : w.sum = 0) : Fills chi 0 0 w := by
  induction w with
  | nil => exact ⟨[], .nil, rfl, by simp, .nil⟩
  | cons c w ih =>
    rw [List.sum_cons] at h
    obtain ⟨rfl, hw⟩ : c = 0 ∧ w.sum = 0 := by omega
    obtain ⟨u, hle, hsum, hfour, hs⟩ := ih hw
    exact ⟨0 :: u, .cons (Nat.le_refl 0) hle, by simpa using hsum, by simpa using hfour,
      splits_zero_cons.mpr ⟨rfl, rfl, hs⟩⟩

/-! ## Sharing out -/

/-- Pairs and jokers are shared out among the members of a list: `A c e k` says that
`c` can do with `e` pairs and `k` jokers. -/
def Shares {ι : Type*} (A : ι → ℕ → ℕ → Prop) : ℕ → ℕ → List ι → Prop
  | e, k, [] => e = 0 ∧ k = 0
  | e, k, c :: cs => ∃ e₁ e₂ k₁ k₂, e = e₁ + e₂ ∧ k = k₁ + k₂ ∧ A c e₁ k₁ ∧ Shares A e₂ k₂ cs

section Shares

variable {ι : Type*} {A B : ι → ℕ → ℕ → Prop}

/-- Sharing out is naming the part of each member. -/
theorem shares_iff [DecidableEq ι] {cs : List ι} (hnd : cs.Nodup) :
    Shares A e k cs ↔ ∃ E K : ι → ℕ, (∀ c ∈ cs, A c (E c) (K c)) ∧ e = (cs.map E).sum ∧
      k = (cs.map K).sum := by
  induction cs generalizing e k with
  | nil =>
    refine ⟨?_, ?_⟩
    · rintro ⟨rfl, rfl⟩
      exact ⟨fun _ => 0, fun _ => 0, by simp, rfl, rfl⟩
    · rintro ⟨E, K, -, rfl, rfl⟩
      exact ⟨rfl, rfl⟩
  | cons c cs ih =>
    obtain ⟨hc, hnd⟩ := List.nodup_cons.mp hnd
    simp only [Shares, ih hnd, List.forall_mem_cons, List.map_cons, List.sum_cons]
    refine ⟨?_, ?_⟩
    · rintro ⟨e₁, _, k₁, _, rfl, rfl, hA, E, K, hEK, rfl, rfl⟩
      have hsame : ∀ (F : ι → ℕ) (x : ℕ), ∀ d ∈ cs, Function.update F c x d = F d :=
        fun F x d hd => Function.update_of_ne (fun h : d = c => hc (h ▸ hd)) _ _
      refine ⟨Function.update E c e₁, Function.update K c k₁, ⟨?_, fun d hd => ?_⟩, ?_, ?_⟩
      · rwa [Function.update_self, Function.update_self]
      · rw [hsame E e₁ d hd, hsame K k₁ d hd]
        exact hEK d hd
      · rw [Function.update_self, List.map_congr_left (hsame E e₁)]
      · rw [Function.update_self, List.map_congr_left (hsame K k₁)]
    · rintro ⟨E, K, ⟨hA, hEK⟩, rfl, rfl⟩
      exact ⟨_, _, _, _, rfl, rfl, hA, E, K, hEK, rfl, rfl⟩

/-- If each member fixes the remainder, they do so together. -/
theorem Shares.mod {cs : List ι} {f : ι → ℕ}
    (hA : ∀ c ∈ cs, ∀ e k, A c e k → (f c + k) % 3 = 2 * e % 3) (h : Shares A e k cs) :
    ((cs.map f).sum + k) % 3 = 2 * e % 3 := by
  induction cs generalizing e k with
  | nil =>
    obtain ⟨rfl, rfl⟩ := h
    rfl
  | cons c cs ih =>
    obtain ⟨e₁, e₂, k₁, k₂, rfl, rfl, hc, h⟩ := h
    have hrest := ih (fun d hd => hA d (List.mem_cons_of_mem _ hd)) h
    have hmod := hA c (List.mem_cons_self ..) e₁ k₁ hc
    rw [List.map_cons, List.sum_cons]
    omega

theorem Shares.mono {cs : List ι} (hAB : ∀ c ∈ cs, ∀ e k, A c e k → B c e k)
    (h : Shares A e k cs) : Shares B e k cs := by
  induction cs generalizing e k with
  | nil => exact h
  | cons c cs ih =>
    obtain ⟨e₁, e₂, k₁, k₂, he, hk, hc, h⟩ := h
    exact ⟨e₁, e₂, k₁, k₂, he, hk, hAB c (List.mem_cons_self ..) e₁ k₁ hc,
      ih (fun d hd => hAB d (List.mem_cons_of_mem _ hd)) h⟩

end Shares

/-! ## Without sequences -/

/-- The tiles missing at the places that hold one or two. -/
def need (w : List ℕ) : ℕ := (w.map fun c => if c = 1 then 2 else if c = 2 then 1 else 0).sum

theorem need_cons (c : ℕ) (w : List ℕ) :
    need (c :: w) = (if c = 1 then 2 else if c = 2 then 1 else 0) + need w := rfl

/-- A pair saves one tile at most. -/
theorem Fills.need_le {w : List ℕ} (h : Fills false e k w) : need w ≤ k + e := by
  obtain ⟨u, hle, hsum, -, hs⟩ := h
  induction hle generalizing e k with
  | nil => exact Nat.zero_le _
  | @cons c x w u hc hle ih =>
    obtain ⟨t, s, d, e', hchi, rfl, rfl, hrest⟩ := splits_cons.mp hs
    obtain rfl := hchi rfl
    rw [List.sum_cons, List.sum_cons] at hsum
    have hsum' := hle.sum_le_sum
    have := ih (e := e') (k := u.sum - w.sum) (by omega) hrest
    rw [need_cons]
    split_ifs <;> omega

/-- A place with four tiles is no place for triplets and one pair. -/
theorem Fills.four_not_mem {w : List ℕ} (h : Fills false e k w) (he : e ≤ 1) : 4 ∉ w := by
  obtain ⟨u, hle, -, hfour, hs⟩ := h
  induction hle generalizing e with
  | nil => exact List.not_mem_nil
  | @cons c x w u hc hle ih =>
    obtain ⟨t, s, d, e', hchi, rfl, rfl, hrest⟩ := splits_cons.mp hs
    obtain rfl := hchi rfl
    have hx := hfour _ (List.mem_cons_self ..)
    have hne : 4 ≠ 3 * t + 0 + 0 + 0 + 2 * d := by
      have hd : d = 0 ∨ d = 1 := by omega
      rcases hd with rfl | rfl <;> omega
    rw [List.mem_cons, not_or]
    exact ⟨by omega, ih (by omega) (fun c hc => hfour c (List.mem_cons_of_mem _ hc)) hrest⟩

/-- The tiles missing, without counting any place with four, fix the remainder. -/
theorem sum_add_need_mod {w : List ℕ} (h : ∀ c ∈ w, c ≤ 3) : (w.sum + need w) % 3 = 0 := by
  induction w with
  | nil => rfl
  | cons c w ih =>
    have hc := h c (List.mem_cons_self ..)
    have := ih fun x hx => h x (List.mem_cons_of_mem _ hx)
    rw [List.sum_cons, need_cons]
    split_ifs <;> omega

/-- The missing tiles fill the row. -/
theorem fills_need {w : List ℕ} (h : ∀ c ∈ w, c ≤ 3) : Fills false 0 (need w) w := by
  induction w with
  | nil => exact ⟨[], .nil, rfl, by simp, .nil⟩
  | cons c w ih =>
    have hc := h c (List.mem_cons_self ..)
    obtain ⟨u, hle, hsum, hfour, hs⟩ := ih fun x hx => h x (List.mem_cons_of_mem _ hx)
    have hplace : ∃ x, c ≤ x ∧ x ≤ 4 ∧ x % 3 = 0 ∧
        x = c + if c = 1 then 2 else if c = 2 then 1 else 0 := by
      refine ⟨_, ?_, ?_, ?_, rfl⟩ <;> split_ifs <;> omega
    obtain ⟨x, hcx, hx, hmod, hxc⟩ := hplace
    refine ⟨x :: u, .cons hcx hle, ?_, ?_, splits_cons.mpr ⟨x / 3, 0, 0, 0, fun _ => rfl, by omega,
      rfl, hs⟩⟩
    · rw [List.sum_cons, List.sum_cons, need_cons]
      omega
    · rw [List.forall_mem_cons]
      exact ⟨hx, hfour⟩

/-- If a tile is missing, a pair can be found with one tile less. -/
theorem fills_need_pair {w : List ℕ} (h : ∀ c ∈ w, c ≤ 3) (hk : need w = k + 1) :
    Fills false 1 k w := by
  induction w generalizing k with
  | nil => cases hk
  | cons c w ih =>
    have hc := h c (List.mem_cons_self ..)
    have hrest : ∀ c ∈ w, c ≤ 3 := fun x hx => h x (List.mem_cons_of_mem _ hx)
    rw [need_cons] at hk
    by_cases hpair : c = 1 ∨ c = 2
    · -- the pair is put here
      obtain ⟨u, hle, hsum, hfour, hs⟩ := fills_need hrest
      refine ⟨2 :: u, .cons (by omega) hle, ?_, ?_, splits_cons.mpr ⟨0, 0, 1, 0, fun _ => rfl, rfl,
        rfl, hs⟩⟩
      · rw [List.sum_cons, List.sum_cons]
        split_ifs at hk <;> omega
      · rw [List.forall_mem_cons]
        exact ⟨by decide, hfour⟩
    · rw [if_neg (by omega), if_neg (by omega), Nat.zero_add] at hk
      obtain ⟨u, hle, hsum, hfour, hs⟩ := ih hrest hk
      refine ⟨c :: u, .cons (Nat.le_refl c) hle, ?_, ?_, splits_cons.mpr ⟨c / 3, 0, 0, 1,
        fun _ => rfl, by omega, rfl, hs⟩⟩
      · rw [List.sum_cons, List.sum_cons]
        omega
      · rw [List.forall_mem_cons]
        exact ⟨by omega, hfour⟩

end Melds
