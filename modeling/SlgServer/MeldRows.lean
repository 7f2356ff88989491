import SlgServer.Melds
import Mathlib.Data.Nat.Digits.Lemmas

/-!
# Enumerating the rows that split

Rows of one to `n` counts, each from 1 to 4, are written as decimal numbers,
one digit a count (`key`). `rowKeys` lists the numbers of all rows of bounded
length and weight that split with at most one pair, by a depth-first search
over the digits that carries the set of debts every way of splitting the prefix
leaves (`advance`), and gives a prefix up as soon as that set is empty.
`mem_rowKeys` says that the list is exact; being one closed computation it can
be compared with a table of numbers in the kernel.
-/

namespace Melds

/-! ## Rows as numbers -/

/-- Append the digits of a row to a number. -/
def keyFrom (k : ℕ) (l : List ℕ) : ℕ := l.foldl (fun n c => n * 10 + c) k

/-- A row as a decimal number, first count first. -/
def key (l : List ℕ) : ℕ := keyFrom 0 l

@[simp] theorem keyFrom_nil (k : ℕ) : keyFrom k [] = k := rfl

@[simp] theorem keyFrom_cons (k c : ℕ) (l : List ℕ) :
    keyFrom k (c :: l) = keyFrom (k * 10 + c) l := rfl

/-- A number is written on, row after row. -/
theorem keyFrom_append (k : ℕ) (l l' : List ℕ) :
    keyFrom k (l ++ l') = keyFrom (keyFrom k l) l' := List.foldl_append

/-- The number of a row in terms of `Nat.ofDigits`, which starts with the last digit. -/
theorem key_eq_ofDigits (l : List ℕ) : key l = Nat.ofDigits 10 l.reverse := by
  induction l using List.reverseRecOn with
  | nil => rfl
  | append_singleton l c ih =>
    rw [List.reverse_concat, Nat.ofDigits_cons, ← ih, key, keyFrom_append]
    simp only [key, keyFrom_cons, keyFrom_nil]
    omega

/-- Rows of one length with digits below ten have different numbers. -/
theorem key_injective_of_length {l l' : List ℕ} (hlen : l.length = l'.length)
    (hl : ∀ c ∈ l, c < 10) (hl' : ∀ c ∈ l', c < 10) (h : key l = key l') : l = l' := by
  rw [key_eq_ofDigits, key_eq_ofDigits] at h
  have hrev : l.reverse = l'.reverse :=
    Nat.ofDigits_inj_of_len_eq (by decide) (by simpa using hlen) (by simpa using hl)
      (by simpa using hl') h
  exact List.reverse_injective hrev

/-- Rows without an empty place have different numbers, whatever their lengths. -/
theorem key_injective {l l' : List ℕ} (hl : ∀ c ∈ l, 0 < c ∧ c < 10)
    (hl' : ∀ c ∈ l', 0 < c ∧ c < 10) (h : key l = key l') : l = l' := by
  have hdigits : ∀ l : List ℕ, (∀ c ∈ l, 0 < c ∧ c < 10) →
      Nat.digits 10 (key l) = l.reverse := by
    intro l hl
    rw [key_eq_ofDigits]
    refine Nat.digits_ofDigits 10 (by decide) _ (fun c hc => ?_) (fun hne => ?_)
    · exact (hl c (List.mem_reverse.mp hc)).2
    · have := (hl _ (List.mem_reverse.mp (List.getLast_mem hne))).1
      omega
  have hrev : l.reverse = l'.reverse := by rw [← hdigits l hl, ← hdigits l' hl', h]
  exact List.reverse_injective hrev

/-! ## The search -/

/-- Apply `k` to `x`, evaluated: the kernel sees a literal in place of a
suspended term. -/
def force {α : Type} (x : ℕ) (k : ℕ → α) : α :=
  match x with
  | 0 => k 0
  | n + 1 => k (n + 1)

/-- `force` changes when the argument is evaluated, not what comes out. -/
@[simp] theorem force_eq {α : Type} (x : ℕ) (k : ℕ → α) : force x k = k x := by
  cases x <;> rfl

/-- What a prefix leaves behind: the debts `a` and `b` of `Splits` and the number
of pairs still to be found. -/
abbrev Debt := ℕ × ℕ × ℕ

/-- Place a count `c`, pairs taken away, on the debts `a`, `b`. -/
def settle (c a b e : ℕ) (qs : List Debt) : List Debt :=
  bif Nat.ble (a + b) c then force ((c - (a + b)) % 3) fun s => (s, a, e) :: qs else qs

/-- The debts left after one more count, for each way of splitting so far. -/
def advance (c : ℕ) : List Debt → List Debt
  | [] => []
  | (a, b, 0) :: qs => settle c a b 0 (advance c qs)
  | (a, b, e + 1) :: qs => settle c a b (e + 1)
      (bif Nat.ble 2 c then force (c - 2) fun c' => settle c' a b e (advance c qs)
        else advance c qs)

/-- Some way of splitting is complete. -/
def settled : List Debt → Bool
  | [] => false
  | (a, b, e) :: qs => (Nat.beq a 0 && Nat.beq b 0 && Nat.beq e 0) || settled qs

/-- The numbers of the rows that continue the prefix `k` by at most `n` counts
of weight at most `w` and complete one of the ways `qs` of splitting it. -/
def rowKeys : ℕ → ℕ → List Debt → ℕ → List ℕ
  | _, _, [], _ => []
  | 0, _, q :: qs, k => bif settled (q :: qs) then [k] else []
  | n + 1, w, q :: qs, k =>
    (bif settled (q :: qs) then [k] else []) ++ [1, 2, 3, 4].flatMap fun c =>
      bif Nat.ble c w then
        force (w - c) fun w' => force (k * 10 + c) fun k' => rowKeys n w' (advance c (q :: qs)) k'
      else []

/-! ## The search is exact -/

/-- Some way of splitting the prefix is completed by the row `l`. -/
def Completes (qs : List Debt) (l : List ℕ) : Prop :=
  ∃ q ∈ qs, Splits true q.1 q.2.1 q.2.2 l

/-- Where no way of splitting is left, no row completes one: here the search gives up. -/
theorem completes_nil {l : List ℕ} : ¬ Completes [] l := by
  rintro ⟨q, hq, -⟩
  exact absurd hq List.not_mem_nil

/-- A row completes the first way of splitting, or one of the others. -/
theorem completes_cons {a b e : ℕ} {qs : List Debt} {l : List ℕ} :
    Completes ((a, b, e) :: qs) l ↔ Splits true a b e l ∨ Completes qs l := by
  simp [Completes]

/-- A prefix that is settled needs nothing more. -/
theorem settled_iff {qs : List Debt} : settled qs = true ↔ Completes qs [] := by
  induction qs with
  | nil => simp [settled, completes_nil]
  | cons q qs ih =>
    obtain ⟨a, b, e⟩ := q
    rw [completes_cons, splits_nil, settled, Bool.or_eq_true, ih]
    simp [and_assoc]

/-- A count pays the debts `a` and `b`; the rest is triplets and `s` sequences that begin here. -/
theorem completes_settle {c a b e : ℕ} {qs : List Debt} {l : List ℕ} :
    Completes (settle c a b e qs) l ↔
      (∃ t s, c = 3 * t + s + a + b ∧ Splits true s a e l) ∨ Completes qs l := by
  rw [settle, force_eq]
  by_cases h : a + b ≤ c
  · rw [Nat.ble_eq.mpr h, cond_true, completes_cons]
    refine or_congr ⟨fun hs => ?_, ?_⟩ Iff.rfl
    · exact ⟨(c - (a + b)) / 3, (c - (a + b)) % 3, by omega, hs⟩
    · rintro ⟨t, s, hc, hs⟩
      have hmod : (c - (a + b)) % 3 = s % 3 := by omega
      rw [hmod]
      exact hs.lower_mod
  · have hble : Nat.ble (a + b) c = false := by
      rw [← Bool.not_eq_true, Nat.ble_eq]
      exact h
    rw [hble, cond_false]
    refine ⟨?_, ?_⟩
    · exact .inr
    · rintro (⟨t, s, hc, -⟩ | hq)
      · omega
      · exact hq

/-- With at most one pair to find, one step of the search is one place of the
row. -/
theorem completes_advance {c : ℕ} {qs : List Debt} {l : List ℕ}
    (hqs : ∀ q ∈ qs, q.2.2 ≤ 1) : Completes (advance c qs) l ↔ Completes qs (c :: l) := by
  induction qs with
  | nil => simp [advance, completes_nil]
  | cons q qs ih =>
    obtain ⟨a, b, e⟩ := q
    have he : e ≤ 1 := hqs (a, b, e) (List.mem_cons_self ..)
    have ih' := ih fun q hq => hqs q (List.mem_cons_of_mem _ hq)
    rw [completes_cons, splits_cons]
    obtain rfl | rfl : e = 0 ∨ e = 1 := by omega
    · rw [advance, completes_settle, ih']
      refine or_congr ⟨?_, ?_⟩ Iff.rfl
      · rintro ⟨t, s, hc, h⟩
        exact ⟨t, s, 0, 0, by simp, by omega, rfl, h⟩
      · rintro ⟨t, s, d, e', -, hc, hd, h⟩
        obtain ⟨rfl, rfl⟩ : d = 0 ∧ e' = 0 := by omega
        exact ⟨t, s, by omega, h⟩
    · rw [advance, completes_settle]
      have hpair : Completes
          (bif Nat.ble 2 c then force (c - 2) fun c' => settle c' a b 0 (advance c qs)
            else advance c qs) l ↔
          (∃ t s, c = 3 * t + s + a + b + 2 ∧ Splits true s a 0 l) ∨ Completes qs (c :: l) := by
        by_cases h2 : 2 ≤ c
        · rw [Nat.ble_eq.mpr h2, cond_true, force_eq, completes_settle, ih']
          refine or_congr ?_ Iff.rfl
          constructor <;>
          · rintro ⟨t, s, hc, h⟩
            exact ⟨t, s, by omega, h⟩
        · have hble : Nat.ble 2 c = false := by
            rw [← Bool.not_eq_true, Nat.ble_eq]
            exact h2
          rw [hble, cond_false, ih']
          refine ⟨?_, ?_⟩
          · exact .inr
          · rintro (⟨t, s, hc, -⟩ | h)
            · omega
            · exact h
      rw [hpair, ← or_assoc]
      refine or_congr ⟨?_, ?_⟩ Iff.rfl
      · rintro (⟨t, s, hc, h⟩ | ⟨t, s, hc, h⟩)
        · exact ⟨t, s, 0, 1, by simp, by omega, rfl, h⟩
        · exact ⟨t, s, 1, 0, by simp, by omega, rfl, h⟩
      · rintro ⟨t, s, d, e', -, hc, hd, h⟩
        obtain ⟨rfl, rfl⟩ | ⟨rfl, rfl⟩ : (d = 0 ∧ e' = 1) ∨ (d = 1 ∧ e' = 0) := by omega
        · exact .inl ⟨t, s, by omega, h⟩
        · exact .inr ⟨t, s, by omega, h⟩

/-- Placing a count asks for no more pairs than there were. -/
theorem settle_pairs {c a b e : ℕ} {qs : List Debt} (he : e ≤ 1)
    (hqs : ∀ q ∈ qs, q.2.2 ≤ 1) : ∀ q ∈ settle c a b e qs, q.2.2 ≤ 1 := by
  intro q hq
  rw [settle, force_eq] at hq
  cases hble : Nat.ble (a + b) c
  · rw [hble, cond_false] at hq
    exact hqs q hq
  · rw [hble, cond_true] at hq
    rcases List.mem_cons.mp hq with rfl | hq
    · exact he
    · exact hqs q hq

/-- There is never more than one pair to find. -/
theorem advance_pairs {c : ℕ} {qs : List Debt} (hqs : ∀ q ∈ qs, q.2.2 ≤ 1) :
    ∀ q ∈ advance c qs, q.2.2 ≤ 1 := by
  induction qs with
  | nil => simp [advance]
  | cons q qs ih =>
    obtain ⟨a, b, e⟩ := q
    have he : e ≤ 1 := hqs (a, b, e) (List.mem_cons_self ..)
    have ih' := ih fun q hq => hqs q (List.mem_cons_of_mem _ hq)
    cases e with
    | zero => exact settle_pairs he ih'
    | succ e =>
      rw [advance]
      refine settle_pairs he ?_
      cases Nat.ble 2 c
      · exact ih'
      · rw [cond_true, force_eq]
        exact settle_pairs (by omega) ih'

/-- A row of at most `n` counts, each from 1 to 4, of weight at most `w`. -/
structure IsRow (n w : ℕ) (l : List ℕ) : Prop where
  /-- the length -/
  length_le : l.length ≤ n
  /-- the counts -/
  counts : ∀ c ∈ l, 1 ≤ c ∧ c ≤ 4
  /-- the weight -/
  sum_le : l.sum ≤ w

/-- The row that ends at once. -/
theorem isRow_nil {n w : ℕ} : IsRow n w [] := ⟨by simp, by simp, by simp⟩

/-- A row is its first count, paid for with a part of the weight, and a row of what is left. -/
theorem isRow_cons {n w c : ℕ} {l : List ℕ} :
    IsRow (n + 1) w (c :: l) ↔ (1 ≤ c ∧ c ≤ 4) ∧ c ≤ w ∧ IsRow n (w - c) l := by
  refine ⟨?_, ?_⟩
  · rintro ⟨h₁, h₂, h₃⟩
    rw [List.length_cons] at h₁
    rw [List.sum_cons] at h₃
    exact ⟨h₂ c (List.mem_cons_self ..), by omega,
      by omega, fun c hc => h₂ c (List.mem_cons_of_mem _ hc), by omega⟩
  · rintro ⟨hc, hw, h₁, h₂, h₃⟩
    refine ⟨by rw [List.length_cons]; omega, fun x hx => ?_, by rw [List.sum_cons]; omega⟩
    rcases List.mem_cons.mp hx with rfl | hx
    · exact hc
    · exact h₂ x hx

/-- What is left of a row without a pair is rows. -/
theorem IsRow.without_pair {n w v : ℕ} {l₁ l₂ : List ℕ}
    (hr : IsRow n (w + 2) (l₁ ++ v :: l₂)) :
    (2 < v → IsRow n w (l₁ ++ (v - 2) :: l₂)) ∧ (v = 2 → IsRow n w l₁ ∧ IsRow n w l₂) := by
  obtain ⟨hlen, hcounts, hsum⟩ := hr
  simp only [List.length_append, List.length_cons, List.sum_append, List.sum_cons,
    List.forall_mem_append, List.forall_mem_cons] at hlen hcounts hsum
  obtain ⟨hl₁, hv, hl₂⟩ := hcounts
  refine ⟨fun hgt => ?_, ?_⟩
  · refine ⟨by simp; omega, ?_, by simp; omega⟩
    simp only [List.forall_mem_append, List.forall_mem_cons]
    exact ⟨hl₁, by omega, hl₂⟩
  · rintro rfl
    exact ⟨⟨by omega, hl₁, by omega⟩, ⟨by omega, hl₂, by omega⟩⟩

/-- **The search is exact**: it lists the numbers of the rows that complete one
of the ways of splitting the prefix. -/
theorem mem_rowKeys {n w : ℕ} {qs : List Debt} {k x : ℕ} (hqs : ∀ q ∈ qs, q.2.2 ≤ 1) :
    x ∈ rowKeys n w qs k ↔ ∃ l, IsRow n w l ∧ Completes qs l ∧ x = keyFrom k l := by
  induction n generalizing w qs k with
  | zero =>
    cases qs with
    | nil => simp [rowKeys, completes_nil]
    | cons q qs =>
      have hnil : ∀ l, IsRow 0 w l ↔ l = [] := fun l =>
        ⟨fun h => List.eq_nil_of_length_eq_zero (by have := h.length_le; omega),
          fun h => h ▸ isRow_nil⟩
      simp only [rowKeys, hnil, exists_eq_left, keyFrom_nil, ← settled_iff]
      cases settled (q :: qs) <;> simp
  | succ n ih =>
    cases qs with
    | nil => simp [rowKeys, completes_nil]
    | cons q qs =>
      -- the row may stop here, if nothing is owed any more
      have hstop : x ∈ (bif settled (q :: qs) then [k] else []) ↔
          Completes (q :: qs) [] ∧ x = k := by
        rw [← settled_iff]
        cases settled (q :: qs) <;> simp
      -- or go on with a count for which there is weight left
      have hmore : ∀ c, x ∈ (bif Nat.ble c w then force (w - c) fun w' =>
            force (k * 10 + c) fun k' => rowKeys n w' (advance c (q :: qs)) k' else []) ↔
          c ≤ w ∧ ∃ l, IsRow n (w - c) l ∧ Completes (q :: qs) (c :: l) ∧
            x = keyFrom k (c :: l) := by
        intro c
        by_cases hc : c ≤ w
        · rw [Nat.ble_eq.mpr hc, cond_true, force_eq, force_eq, ih (advance_pairs hqs)]
          simp only [completes_advance hqs, keyFrom_cons, hc, true_and]
        · have hble : Nat.ble c w = false := by
            rw [← Bool.not_eq_true, Nat.ble_eq]
            exact hc
          rw [hble, cond_false]
          simp [hc]
      rw [rowKeys, List.mem_append, hstop, List.mem_flatMap]
      simp only [hmore]
      refine ⟨?_, ?_⟩
      · rintro (⟨h, rfl⟩ | ⟨c, hc, hw, l, hl, h, hx⟩)
        · exact ⟨[], isRow_nil, h, rfl⟩
        · have hc4 : 1 ≤ c ∧ c ≤ 4 := by
            simp only [List.mem_cons, List.not_mem_nil, or_false] at hc
            omega
          exact ⟨c :: l, isRow_cons.mpr ⟨hc4, hw, hl⟩, h, hx⟩
      · rintro ⟨l, hl, h, hx⟩
        cases l with
        | nil => exact .inl ⟨h, hx⟩
        | cons c l =>
          obtain ⟨hc4, hw, hl'⟩ := isRow_cons.mp hl
          refine .inr ⟨c, ?_, hw, l, hl', h, hx⟩
          simp only [List.mem_cons, List.not_mem_nil, or_false]
          omega

/-- The numbers of the rows of at most `n` counts and weight at most `w` that
split with `e` pairs. -/
theorem mem_rowKeys_start {n w e x : ℕ} (he : e ≤ 1) :
    x ∈ rowKeys n w [(0, 0, e)] 0 ↔ ∃ l, IsRow n w l ∧ Splits true 0 0 e l ∧ x = key l := by
  rw [mem_rowKeys (by simpa using he)]
  simp only [completes_cons, completes_nil, or_false]
  rfl

end Melds
