import Mathlib.Data.List.Basic
import Mathlib.Logic.Function.Basic

/-!
# Elements in buckets

Buckets are lists, one for every key. Elements are put at the end of the bucket that their
key names.

* `Sorts key l b` says that the buckets `b` hold the elements of `l`, each in the bucket of
  its key, and every bucket in the order of `l`.
* `Sorts.put`, `Sorts.clear` and `Sorts.move` are the rules for one more element, for a
  bucket that is emptied, and for a bucket whose elements are put in again under new keys.
-/

universe u v

variable {κ : Type u} {α : Type v} [DecidableEq κ]

namespace Buckets

/-- The element `x` goes to the end of bucket `k`. -/
def put (b : κ → List α) (k : κ) (x : α) : κ → List α := Function.update b k (b k ++ [x])

/-- The elements of `l`, one after the other, each to the bucket of its key. -/
def putAll (key : α → κ) (b : κ → List α) (l : List α) : κ → List α :=
  l.foldl (fun b x => put b (key x) x) b

/-- The buckets `b` hold the elements of `l` by their keys, every bucket in the order of
`l`. -/
def Sorts (key : α → κ) (l : List α) (b : κ → List α) : Prop :=
  ∀ k, b k = l.filter fun x => key x = k

variable {key key' : α → κ} {l : List α} {b : κ → List α}

theorem put_apply (b : κ → List α) (k : κ) (x : α) (k' : κ) :
    put b k x k' = b k' ++ [x].filter fun _ => k = k' := by
  rcases eq_or_ne k' k with rfl | hne
  · simp [put]
  · simp [put, Function.update_of_ne hne, hne.symm]

theorem putAll_apply (key : α → κ) (b : κ → List α) (l : List α) (k : κ) :
    putAll key b l k = b k ++ l.filter fun x => key x = k := by
  induction l generalizing b with
  | nil => simp [putAll]
  | cons x l ih =>
    have hcons : putAll key b (x :: l) = putAll key (put b (key x) x) l := rfl
    rw [hcons, ih, put_apply, List.append_assoc, ← List.singleton_append (x := x) (l := l),
      List.filter_append]
    congr 1

/-- Empty buckets hold nothing. -/
theorem sorts_nil (key : α → κ) : Sorts key [] fun _ => [] := fun _ => rfl

/-- One more element. -/
theorem Sorts.put (h : Sorts key l b) (x : α) : Sorts key (l ++ [x]) (put b (key x) x) := by
  intro k
  rw [put_apply, h k, List.filter_append]
  congr 1

/-- What bucket `k` held is gone. -/
theorem Sorts.clear (h : Sorts key l b) (k : κ) :
    Sorts key (l.filter fun x => key x ≠ k) (Function.update b k []) := by
  intro k'
  rw [List.filter_filter]
  rcases eq_or_ne k' k with rfl | hne
  · rw [Function.update_self, eq_comm, List.filter_eq_nil_iff]
    simp
  · rw [Function.update_of_ne hne, h k']
    refine List.filter_congr fun x _ => ?_
    rcases eq_or_ne (key x) k' with hk | hk
    · simp [hk, hne]
    · simp [hk]

/-- Other keys that agree on the elements there are. -/
theorem Sorts.congr (h : Sorts key l b) (hkey : ∀ x ∈ l, key' x = key x) : Sorts key' l b := by
  intro k
  rw [h k]
  exact List.filter_congr fun x hx => by rw [hkey x hx]

/-- The keys change, and bucket `k` is emptied and its elements put in again. If all others
keep their keys, and the elements of bucket `k` come to buckets that were empty, then every
bucket still has the order of `l`. -/
theorem Sorts.move (h : Sorts key l b) {k : κ}
    (hstay : ∀ x ∈ l, key x ≠ k → key' x = key x) (hmove : ∀ x ∈ l, key x = k → key' x ≠ k)
    (hempty : ∀ x ∈ l, key x = k → ∀ y ∈ l, key y ≠ key' x) :
    Sorts key' l (putAll key' (Function.update b k []) (b k)) := by
  intro k'
  rw [putAll_apply, h k, List.filter_filter]
  rcases eq_or_ne k' k with rfl | hne
  · -- nobody goes back to the bucket, and nobody else's key becomes `k`
    have hnone : (l.filter fun x => key' x = k') = [] := by
      rw [List.filter_eq_nil_iff]
      intro x hx hk
      rcases eq_or_ne (key x) k' with he | he
      · exact hmove x hx he (of_decide_eq_true hk)
      · exact he (hstay x hx he ▸ of_decide_eq_true hk)
    rw [Function.update_self, List.nil_append, hnone, List.filter_eq_nil_iff]
    intro x hx hk
    rw [List.filter_eq_nil_iff] at hnone
    exact hnone x hx (Bool.and_eq_true_iff.mp hk).1
  · rw [Function.update_of_ne hne, h k']
    rcases (l.filter fun x => decide (key' x = k') && decide (key x = k)).eq_nil_or_concat with
      hnil | ⟨_, x, hx⟩
    · rw [hnil, List.append_nil]
      rw [List.filter_eq_nil_iff] at hnil
      refine List.filter_congr fun x hx => ?_
      rcases eq_or_ne (key x) k with he | he
      · have hx' := hnil x hx
        simp only [he, decide_true, Bool.and_true, decide_eq_true_eq] at hx'
        simp [he, hx', hne.symm]
      · rw [hstay x hx he]
    · -- somebody comes, so the bucket was empty
      have hmem : x ∈ l.filter fun x => decide (key' x = k') && decide (key x = k) := by
        rw [hx]
        simp
      obtain ⟨hl, hk⟩ := List.mem_filter.mp hmem
      obtain ⟨hk', hk⟩ := Bool.and_eq_true_iff.mp hk
      have hnone : (l.filter fun y => key y = k') = [] := by
        rw [List.filter_eq_nil_iff]
        intro y hy he
        exact hempty x hl (of_decide_eq_true hk) y hy
          ((of_decide_eq_true he).trans (of_decide_eq_true hk').symm)
      rw [hnone, List.nil_append]
      rw [List.filter_eq_nil_iff] at hnone
      refine List.filter_congr fun y hy => ?_
      rcases eq_or_ne (key y) k with he | he
      · simp [he]
      · simp only [he, decide_false, Bool.and_false, Bool.false_eq, decide_eq_false_iff_not]
        rw [hstay y hy he]
        exact fun h => hnone y hy (decide_eq_true h)

end Buckets
