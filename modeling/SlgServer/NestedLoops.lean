import Mathlib.Data.List.Lex
import Mathlib.Order.Lattice

/-!
# Nested loops

A program of nested loops, each over a list of its own, makes the choices of one value a
loop; `tuples` lists them as they are made, the outermost value first. If every list
increases, so does this one, in the lexicographic order (`pairwise_tuples`).

Of an increasing list the first member with a property is the least one
(`exists_first`), and what stands between two members is what lies between them
(`exists_between`).
-/

namespace NestedLoops

universe u v

variable {α : Type u} {σ : Type v}

/-- The choices of one value for each of several loops, in the order in which they are
made. -/
def tuples : List (List α) → List (List α)
  | [] => [[]]
  | l :: ls => l.flatMap fun a => (tuples ls).map (a :: ·)

theorem mem_tuples_cons {l : List α} {ls : List (List α)} {xs : List α} :
    xs ∈ tuples (l :: ls) ↔ ∃ a ∈ l, ∃ ys ∈ tuples ls, xs = a :: ys := by
  simp only [tuples, List.mem_flatMap, List.mem_map, eq_comm]

/-- Loops over the same list. -/
theorem mem_tuples_replicate {n : ℕ} {l xs : List α} :
    xs ∈ tuples (List.replicate n l) ↔ xs.length = n ∧ ∀ a ∈ xs, a ∈ l := by
  induction n generalizing xs with
  | zero =>
    rw [List.replicate_zero, tuples, List.mem_singleton]
    refine ⟨?_, fun h => List.eq_nil_of_length_eq_zero h.1⟩
    rintro rfl
    simp
  | succ n ih =>
    rw [List.replicate_succ, mem_tuples_cons]
    simp only [ih]
    refine ⟨?_, ?_⟩
    · rintro ⟨a, ha, ys, ⟨rfl, hys⟩, rfl⟩
      exact ⟨rfl, List.forall_mem_cons.mpr ⟨ha, hys⟩⟩
    · rintro ⟨hlen, hxs⟩
      cases xs with
      | nil => cases hlen
      | cons a ys =>
        obtain ⟨ha, hys⟩ := List.forall_mem_cons.mp hxs
        exact ⟨a, ha, ys, ⟨Nat.succ_inj.mp hlen, hys⟩, rfl⟩

/-- The outermost loop, with the others inside. -/
theorem foldl_tuples_cons (l : List α) (ls : List (List α)) (g : σ → List α → σ) (s : σ) :
    (tuples (l :: ls)).foldl g s =
      l.foldl (fun s a => (tuples ls).foldl (fun s xs => g s (a :: xs)) s) s := by
  rw [tuples, List.foldl_flatMap]
  simp only [List.foldl_map]

/-- Loops that do the same on the states with `I`, which they keep. -/
theorem foldl_congr {I : σ → Prop} {f g : σ → α → σ} {l : List α} {s : σ}
    (h : ∀ a ∈ l, ∀ s, I s → f s a = g s a ∧ I (g s a)) (hs : I s) :
    l.foldl f s = l.foldl g s := by
  induction l generalizing s with
  | nil => rfl
  | cons a l ih =>
    obtain ⟨heq, hI⟩ := h a (List.mem_cons_self ..) s hs
    rw [List.foldl_cons, List.foldl_cons, heq]
    exact ih (fun b hb => h b (List.mem_cons_of_mem _ hb)) hI

variable [LinearOrder α]

/-- **The choices are made in lexicographic order.** -/
theorem pairwise_tuples {ls : List (List α)} (h : ∀ l ∈ ls, l.Pairwise (· < ·)) :
    (tuples ls).Pairwise (· < ·) := by
  induction ls with
  | nil => exact List.pairwise_singleton _ _
  | cons l ls ih =>
    obtain ⟨hl, hls⟩ := List.forall_mem_cons.mp h
    rw [tuples, List.pairwise_flatMap]
    refine ⟨fun a _ => ?_, hl.imp fun {a b} hab => ?_⟩
    · rw [List.pairwise_map]
      exact (ih hls).imp fun hxy => List.Lex.cons hxy
    · intro xs hxs ys hys
      obtain ⟨xs, -, rfl⟩ := List.mem_map.mp hxs
      obtain ⟨ys, -, rfl⟩ := List.mem_map.mp hys
      exact List.Lex.rel hab

/-- The first member of an increasing list with a property is the least. -/
theorem exists_first {P : α → Prop} {l : List α} (hl : l.Pairwise (· < ·)) (h : ∃ a ∈ l, P a) :
    ∃ pre a post, l = pre ++ a :: post ∧ P a ∧ (∀ b ∈ pre, ¬ P b) ∧ ∀ b ∈ l, P b → a ≤ b := by
  induction l with
  | nil =>
    obtain ⟨a, ha, -⟩ := h
    exact absurd ha List.not_mem_nil
  | cons x l ih =>
    obtain ⟨hx, hl⟩ := List.pairwise_cons.mp hl
    by_cases hP : P x
    · refine ⟨[], x, l, rfl, hP, by simp, fun b hb _ => ?_⟩
      rcases List.mem_cons.mp hb with rfl | hb
      · exact le_rfl
      · exact (hx b hb).le
    · have hrest : ∃ a ∈ l, P a := by
        obtain ⟨a, ha, hPa⟩ := h
        rcases List.mem_cons.mp ha with rfl | ha
        · exact absurd hPa hP
        · exact ⟨a, ha, hPa⟩
      obtain ⟨pre, a, post, rfl, hPa, hpre, hleast⟩ := ih hl hrest
      refine ⟨x :: pre, a, post, rfl, hPa, List.forall_mem_cons.mpr ⟨hP, hpre⟩, fun b hb hPb => ?_⟩
      rcases List.mem_cons.mp hb with rfl | hb
      · exact absurd hPb hP
      · exact hleast b hb hPb

/-- Of two members of an increasing list the smaller stands first. -/
theorem exists_between {pre post pre' post' : List α} {a b : α}
    (hl : (pre ++ a :: post).Pairwise (· < ·)) (heq : pre ++ a :: post = pre' ++ b :: post')
    (hab : a < b) : ∃ mid, pre' = pre ++ a :: mid := by
  rcases List.append_eq_append_iff.mp heq with ⟨as, rfl, has⟩ | ⟨bs, rfl, hbs⟩
  · cases as with
    | nil => exact absurd (List.cons.inj has).1 hab.ne
    | cons x as =>
      obtain rfl := (List.cons.inj has).1
      exact ⟨as, rfl⟩
  · -- otherwise `b` would stand before `a`, or be `a`
    cases bs with
    | nil => exact absurd (List.cons.inj hbs).1.symm hab.ne
    | cons x bs =>
      obtain rfl := (List.cons.inj hbs).1
      have hba := (List.pairwise_append.mp hl).2.2 b (by simp) a (List.mem_cons_self ..)
      exact absurd hba hab.asymm

end NestedLoops
