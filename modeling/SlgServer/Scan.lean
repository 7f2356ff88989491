import Mathlib.Data.List.Basic
import Mathlib.Data.Set.Basic

/-!
# Scans: checks over shared state that stop at the first failure

A check takes the state, may change it, and answers. `scanAll f is` runs the
checks `f i` for the members `i` of a list in order, hands the state from one to
the next, and stops with `false` at the first check that fails; the state is
what that check left behind. A program that nests such loops is one scan over
the concatenated list (`scanAll_flatMap`).

`scanAny` is the loop that stops at the first check that passes; if checks that
fail undo their changes, it looks for a member that passes (`scanAny_iff`).

For loops that run to the end, `foldl_visits` collects what each round deals
with.
-/

namespace Scan

universe u v w

variable {ι : Type u} {κ : Type v} {σ : Type w}

/-- Run the checks of a list in order, up to the first that fails. -/
def scanAll (f : ι → σ → Bool × σ) : List ι → σ → Bool × σ
  | [], s => (true, s)
  | i :: is, s =>
    match f i s with
    | (true, s') => scanAll f is s'
    | (false, s') => (false, s')

variable {f : ι → σ → Bool × σ}

@[simp] theorem scanAll_nil (s : σ) : scanAll f [] s = (true, s) := rfl

theorem scanAll_cons_true {i : ι} {is : List ι} {s s' : σ} (h : f i s = (true, s')) :
    scanAll f (i :: is) s = scanAll f is s' := by
  rw [scanAll, h]

theorem scanAll_cons_false {i : ι} {is : List ι} {s : σ} (h : (f i s).1 = false) :
    scanAll f (i :: is) s = (false, (f i s).2) := by
  rw [scanAll]
  rcases he : f i s with ⟨r, s'⟩
  rw [he] at h
  cases h
  rfl

/-- A scan over a concatenation: the second list follows if the first passes. -/
theorem scanAll_append (is js : List ι) (s : σ) :
    scanAll f (is ++ js) s =
      match scanAll f is s with
      | (true, s') => scanAll f js s'
      | (false, s') => (false, s') := by
  induction is generalizing s with
  | nil => rfl
  | cons i is ih =>
    rw [List.cons_append]
    rcases he : f i s with ⟨_ | _, s'⟩
    · rw [scanAll_cons_false (by rw [he]), scanAll_cons_false (by rw [he])]
    · rw [scanAll_cons_true he, scanAll_cons_true he, ih]

theorem scanAll_append_of_true {is js : List ι} {s s' : σ} (h : scanAll f is s = (true, s')) :
    scanAll f (is ++ js) s = scanAll f js s' := by
  rw [scanAll_append, h]

/-- Nested scans are one scan. -/
theorem scanAll_flatMap {g : κ → σ → Bool × σ} {items : κ → List ι} {ks : List κ}
    (h : ∀ k ∈ ks, ∀ s, g k s = scanAll f (items k) s) (s : σ) :
    scanAll g ks s = scanAll f (ks.flatMap items) s := by
  induction ks generalizing s with
  | nil => rfl
  | cons k ks ih =>
    have hk := h k (List.mem_cons_self ..)
    have ih' := ih fun k hk => h k (List.mem_cons_of_mem _ hk)
    rw [List.flatMap_cons, scanAll_append, ← hk, scanAll]
    rcases g k s with ⟨_ | _, s'⟩
    · rfl
    · exact ih' s'

/-- Checks that all pass without a trace. -/
theorem scanAll_of_true {is : List ι} {s : σ} (h : ∀ i ∈ is, f i s = (true, s)) :
    scanAll f is s = (true, s) := by
  induction is with
  | nil => rfl
  | cons i is ih =>
    rw [scanAll_cons_true (h i (List.mem_cons_self ..))]
    exact ih fun j hj => h j (List.mem_cons_of_mem _ hj)

/-- What every check keeps, a scan keeps. -/
theorem scanAll_invariant {I : σ → Prop} {is : List ι} (h : ∀ i ∈ is, ∀ s, I s → I (f i s).2)
    {s : σ} (hs : I s) : I (scanAll f is s).2 := by
  induction is generalizing s with
  | nil => exact hs
  | cons i is ih =>
    have hi := h i (List.mem_cons_self ..) s hs
    have ih' := fun s hs => ih (s := s) (fun j hj => h j (List.mem_cons_of_mem _ hj)) hs
    rcases he : f i s with ⟨_ | _, s'⟩
    · rw [scanAll_cons_false (by rw [he])]
      exact hi
    · rw [scanAll_cons_true he]
      rw [he] at hi
      exact ih' s' hi

/-! ## Searches -/

/-- Run the checks of a list in order, up to the first that passes. -/
def scanAny (f : ι → σ → Bool × σ) : List ι → σ → Bool × σ
  | [], s => (false, s)
  | i :: is, s =>
    match f i s with
    | (true, s') => (true, s')
    | (false, s') => scanAny f is s'

/-- A check that fails leaves the state as it was. -/
def Undoes (f : σ → Bool × σ) : Prop := ∀ s, (f s).1 = false → (f s).2 = s

theorem scanAny_cons {i : ι} (hf : Undoes (f i)) (is : List ι) (s : σ) :
    scanAny f (i :: is) s = if (f i s).1 = true then f i s else scanAny f is s := by
  have hundo := hf s
  rw [scanAny]
  rcases he : f i s with ⟨_ | _, s'⟩
  · rw [he] at hundo
    obtain rfl : s' = s := hundo rfl
    rfl
  · rfl

/-- A search passes iff some check does, in the state in which it began. -/
theorem scanAny_iff {is : List ι} (hf : ∀ i ∈ is, Undoes (f i)) {s : σ} :
    (scanAny f is s).1 = true ↔ ∃ i ∈ is, (f i s).1 = true := by
  induction is with
  | nil => simp [scanAny]
  | cons i is ih =>
    rw [scanAny_cons (hf i (List.mem_cons_self ..)), List.exists_mem_cons_iff,
      ← ih fun j hj => hf j (List.mem_cons_of_mem _ hj)]
    by_cases hi : (f i s).1 = true
    · simp [hi]
    · simp [hi]

theorem scanAny_undoes {is : List ι} (hf : ∀ i ∈ is, Undoes (f i)) : Undoes (scanAny f is) := by
  intro s hs
  induction is with
  | nil => rfl
  | cons i is ih =>
    rw [scanAny_cons (hf i (List.mem_cons_self ..))] at hs ⊢
    by_cases hi : (f i s).1 = true
    · rw [if_pos hi] at hs
      rw [hi] at hs
      cases hs
    · rw [if_neg hi] at hs ⊢
      exact ih (fun j hj => hf j (List.mem_cons_of_mem _ hj)) hs

/-! ## Loops without an exit -/

/-- Let `P V s` say that `V` is what has been dealt with when the state is `s`. If
round `i` of a loop deals with `N i`, the loop deals with the `N i` of all its
rounds. -/
theorem foldl_visits {β : Type*} {P : Set β → σ → Prop} {N : ι → Set β} {g : σ → ι → σ}
    {is : List ι} (h : ∀ i ∈ is, ∀ V s, P V s → P (V ∪ N i) (g s i)) {V : Set β} {s : σ}
    (hs : P V s) : P (V ∪ {b | ∃ i ∈ is, b ∈ N i}) (is.foldl g s) := by
  induction is generalizing V s with
  | nil => simpa using hs
  | cons i is ih =>
    have hi := h i (List.mem_cons_self ..) V s hs
    have hrest := ih (fun j hj => h j (List.mem_cons_of_mem _ hj)) hi
    have heq : V ∪ {b | ∃ j ∈ i :: is, b ∈ N j} = V ∪ N i ∪ {b | ∃ j ∈ is, b ∈ N j} := by
      ext b
      simp [or_assoc]
    rw [heq]
    exact hrest

end Scan
