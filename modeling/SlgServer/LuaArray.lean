import Mathlib.Logic.Function.Basic
import Mathlib.Data.Nat.Notation
import Mathlib.Tactic.SplitIfs

/-!
# Gap-free Lua arrays

A Lua table used as an array, with the length operator `#` well defined: the
positions that hold a value are exactly `1 .. len`. The invariant is a field, so
an array with a gap cannot be built.

`swapRemove` is the usual way of taking an arbitrary element out in constant
time: the last element moves into its place and the last position is cleared.
Of distinct elements it removes exactly one (`mem_swapRemove`).
-/

universe u

/-- A Lua array: what each position holds, and the length. -/
structure LuaArray (α : Type u) : Type u where
  /-- the value at a position, `none` for `nil` -/
  get : ℕ → Option α
  /-- the length, `#t` -/
  len : ℕ
  /-- the array has no gap -/
  border : ∀ i, (get i).isSome = true ↔ 1 ≤ i ∧ i ≤ len

namespace LuaArray

variable {α : Type u}

/-- The array `f 1, …, f n`, as filled by a loop from 1 to `n`. -/
def ofFn (n : ℕ) (f : ℕ → α) : LuaArray α where
  get i := if 1 ≤ i ∧ i ≤ n then some (f i) else none
  len := n
  border i := by
    by_cases h : 1 ≤ i ∧ i ≤ n
    · simp [h]
    · simp [h]

/-- The element at a position of the array. -/
def elem (a : LuaArray α) (i : ℕ) (h : 1 ≤ i ∧ i ≤ a.len) : α :=
  (a.get i).get ((a.border i).mpr h)

theorem get_eq_elem (a : LuaArray α) {i : ℕ} (h : 1 ≤ i ∧ i ≤ a.len) :
    a.get i = some (a.elem i h) := (Option.some_get _).symm

/-- `t[i] = v` at a position of the array. -/
def set (a : LuaArray α) (i : ℕ) (v : α) (h : 1 ≤ i ∧ i ≤ a.len) : LuaArray α where
  get := Function.update a.get i (some v)
  len := a.len
  border j := by
    by_cases hj : j = i
    · subst hj
      simp [h]
    · rw [Function.update_of_ne hj]
      exact a.border j

/-- `t[#t] = nil`. -/
def pop (a : LuaArray α) : LuaArray α where
  get := Function.update a.get a.len none
  len := a.len - 1
  border j := by
    by_cases hj : j = a.len
    · subst hj
      rw [Function.update_self]
      simp only [Option.isSome_none, Bool.false_eq_true, false_iff]
      omega
    · rw [Function.update_of_ne hj, a.border j]
      omega

/-- The value `v` stands somewhere in the array. -/
def Mem (v : α) (a : LuaArray α) : Prop := ∃ i, a.get i = some v

/-- No value stands in the array twice. -/
def Distinct (a : LuaArray α) : Prop :=
  ∀ i j v, a.get i = some v → a.get j = some v → i = j

/-- Take out the element at `i`: the last element takes its place. -/
def swapRemove (a : LuaArray α) (i : ℕ) (h : 1 ≤ i ∧ i ≤ a.len) : LuaArray α :=
  (a.set i (a.elem a.len (by omega)) h).pop

variable {a : LuaArray α} {i : ℕ} {h : 1 ≤ i ∧ i ≤ a.len}

@[simp] theorem len_swapRemove : (a.swapRemove i h).len = a.len - 1 := rfl

theorem get_swapRemove (j : ℕ) :
    (a.swapRemove i h).get j =
      if j = a.len then none else if j = i then a.get a.len else a.get j := by
  have hlast : 1 ≤ a.len ∧ a.len ≤ a.len := by omega
  simp only [swapRemove, pop, set, Function.update_apply]
  by_cases hj : j = a.len
  · simp [hj]
  · by_cases hji : j = i
    · subst hji
      rw [if_neg hj, if_neg hj, if_pos rfl, if_pos rfl, a.get_eq_elem hlast]
    · simp [hj, hji]

theorem Distinct.swapRemove (hd : a.Distinct) : (a.swapRemove i h).Distinct := by
  intro j k v hj hk
  rw [get_swapRemove] at hj hk
  split_ifs at hj hk with h₁ h₂ h₃ h₄ h₅ h₆
  · omega
  · exact absurd (hd _ _ _ hj hk).symm h₃
  · exact absurd (hd _ _ _ hj hk) h₁
  · exact hd _ _ _ hj hk

/-- Of distinct elements exactly the one at `i` is removed. -/
theorem mem_swapRemove (hd : a.Distinct) {v : α} :
    Mem v (a.swapRemove i h) ↔ Mem v a ∧ v ≠ a.elem i h := by
  have hi := a.get_eq_elem h
  refine ⟨?_, ?_⟩
  · rintro ⟨j, hj⟩
    rw [get_swapRemove] at hj
    split_ifs at hj with h₁ h₂
    · refine ⟨⟨_, hj⟩, ?_⟩
      rintro rfl
      exact h₁ (h₂.trans (hd _ _ _ hi hj))
    · refine ⟨⟨_, hj⟩, ?_⟩
      rintro rfl
      exact h₂ (hd _ _ _ hj hi)
  · rintro ⟨⟨j, hj⟩, hne⟩
    have hji : j ≠ i := by
      rintro rfl
      exact hne (Option.some.inj (hj.symm.trans hi))
    by_cases hlast : j = a.len
    · refine ⟨i, ?_⟩
      rw [get_swapRemove, if_neg (by omega), if_pos rfl, ← hlast, hj]
    · refine ⟨j, ?_⟩
      rw [get_swapRemove, if_neg hlast, if_neg hji, hj]

theorem mem_ofFn {n : ℕ} {f : ℕ → α} {v : α} :
    Mem v (ofFn n f) ↔ ∃ i, (1 ≤ i ∧ i ≤ n) ∧ f i = v := by
  simp only [Mem, ofFn, Option.ite_none_right_eq_some, Option.some.injEq]

end LuaArray
