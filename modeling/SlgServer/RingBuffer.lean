import Mathlib.Data.Nat.Notation
import Mathlib.Data.List.Basic
import Mathlib.Logic.Function.Basic

/-!
# Queues in rings of slots

A ring is a number of slots with a head and a tail. Elements are put in at the tail and
taken out at the head, and both go on in slot 0 after the last slot. If the tail catches
up with the head, the elements move to a larger ring.

To its users a ring is the list of its elements, `toList`: `push` appends to it, whether
the ring grows or not (`toList_push`), and `pop` takes off its head (`pop_eq_some`,
`pop_eq_none`).
-/

universe u

variable {α : Type u}

/-- A ring. It is empty when head and tail are the same. -/
structure RingBuffer (α : Type u) where
  /-- the number of slots -/
  cap : ℕ
  /-- where the next element is taken out -/
  head : ℕ
  /-- where the next element is put in -/
  tail : ℕ
  /-- the slots -/
  slot : ℕ → α
  head_lt : head < cap
  tail_lt : tail < cap

namespace RingBuffer

/-- A ring of `cap` slots, with nothing in it. -/
def empty [Inhabited α] (cap : ℕ) (hcap : 0 < cap) : RingBuffer α :=
  ⟨cap, 0, 0, fun _ => default, hcap, hcap⟩

/-- The slot after `i`. -/
def next (r : RingBuffer α) (i : ℕ) : ℕ := if r.cap ≤ i + 1 then 0 else i + 1

theorem next_lt (r : RingBuffer α) (i : ℕ) : r.next i < r.cap := by
  have hcap := r.head_lt
  rw [next]
  split_ifs <;> omega

/-- An element goes into the slot at the tail. -/
def put (r : RingBuffer α) (x : α) : RingBuffer α :=
  { r with
    tail := r.next r.tail
    slot := Function.update r.slot r.tail x
    tail_lt := r.next_lt r.tail }

/-- All slots, from the head on, move to a ring of `cap` slots. -/
def expand (r : RingBuffer α) (cap : ℕ) (hcap : r.cap < cap) : RingBuffer α where
  cap := cap
  head := 0
  tail := r.cap
  slot i := r.slot ((r.head + i) % r.cap)
  head_lt := Nat.zero_lt_of_lt hcap
  tail_lt := hcap

/-- An element is put in; a ring that is full then grows. -/
def push (grow : ℕ → ℕ) (hgrow : ∀ n, 0 < n → n < grow n) (r : RingBuffer α) (x : α) :
    RingBuffer α :=
  let r := r.put x
  if r.head = r.tail then r.expand (grow r.cap) (hgrow _ (Nat.zero_lt_of_lt r.head_lt)) else r

/-- The element at the head is taken out. -/
def pop (r : RingBuffer α) : Option (α × RingBuffer α) :=
  if r.head = r.tail then none
  else some (r.slot r.head, { r with head := r.next r.head, head_lt := r.next_lt r.head })

/-- The number of elements. -/
def length (r : RingBuffer α) : ℕ :=
  if r.head ≤ r.tail then r.tail - r.head else r.tail + r.cap - r.head

/-- The first `n` slots from the head on. -/
def items (r : RingBuffer α) (n : ℕ) : List α :=
  (List.range n).map fun i => r.slot ((r.head + i) % r.cap)

/-- The elements, in the order in which they were put in. -/
def toList (r : RingBuffer α) : List α := r.items r.length

/-! ## Slots -/

theorem add_mod {a i cap : ℕ} (ha : a < cap) (hi : i ≤ cap) :
    (a + i) % cap = if a + i < cap then a + i else a + i - cap := by
  split_ifs with h
  · exact Nat.mod_eq_of_lt h
  · rw [Nat.mod_eq_sub_mod (Nat.le_of_not_lt h), Nat.mod_eq_of_lt (by omega)]

theorem length_lt (r : RingBuffer α) : r.length < r.cap := by
  have hhead := r.head_lt
  have htail := r.tail_lt
  rw [length]
  split_ifs <;> omega

/-- The elements end where the tail is. -/
theorem add_length_mod (r : RingBuffer α) : (r.head + r.length) % r.cap = r.tail := by
  have hhead := r.head_lt
  have htail := r.tail_lt
  rw [add_mod hhead (Nat.le_of_lt r.length_lt), length]
  split_ifs <;> omega

/-- The slots before the tail are others than the one at the tail. -/
theorem add_mod_ne (r : RingBuffer α) {i : ℕ} (hi : i < r.length) :
    (r.head + i) % r.cap ≠ r.tail := by
  have hhead := r.head_lt
  have htail := r.tail_lt
  have hlen := r.length_lt
  rw [add_mod hhead (by omega)]
  rw [length] at hi hlen
  split_ifs at hi hlen ⊢ <;> omega

/-! ## The list of elements -/

@[simp] theorem length_toList (r : RingBuffer α) : r.toList.length = r.length := by
  rw [toList, items, List.length_map, List.length_range]

theorem length_put (r : RingBuffer α) :
    (r.next r.tail = r.head ∧ r.length + 1 = r.cap) ∨
      (r.next r.tail ≠ r.head ∧ ∀ x, (r.put x).length = r.length + 1) := by
  have hhead := r.head_lt
  have htail := r.tail_lt
  by_cases hfull : r.next r.tail = r.head
  · refine .inl ⟨hfull, ?_⟩
    rw [next] at hfull
    rw [length]
    split_ifs at hfull ⊢ <;> omega
  · refine .inr ⟨hfull, fun x => ?_⟩
    rw [next] at hfull
    simp only [length, put, next]
    split_ifs at hfull ⊢ <;> omega

/-- After `put` the slots hold the elements, and the new one behind them. -/
theorem items_put (r : RingBuffer α) (x : α) :
    (r.put x).items (r.length + 1) = r.toList ++ [x] := by
  rw [items, List.range_succ, List.map_append, List.map_singleton, toList, items]
  congr 1
  · refine List.map_congr_left fun i hi => ?_
    exact Function.update_of_ne (r.add_mod_ne (List.mem_range.mp hi)) _ _
  · have hlast : (r.put x).slot ((r.head + r.length) % r.cap) = x := by
      rw [r.add_length_mod]
      exact Function.update_self ..
    exact congrArg (fun y => [y]) hlast

theorem toList_expand (r : RingBuffer α) {cap : ℕ} (hcap : r.cap < cap) :
    (r.expand cap hcap).toList = r.items r.cap := by
  have hlen : (r.expand cap hcap).length = r.cap := by
    have hhead : (r.expand cap hcap).head ≤ (r.expand cap hcap).tail := Nat.zero_le _
    rw [length, if_pos hhead]
    exact Nat.sub_zero _
  rw [toList, hlen, items, items]
  refine List.map_congr_left fun i hi => ?_
  have hi : i < r.cap := List.mem_range.mp hi
  have hmod : (0 + i) % cap = i := by
    rw [Nat.zero_add, Nat.mod_eq_of_lt (Nat.lt_trans hi hcap)]
  exact congrArg (fun j => r.slot ((r.head + j) % r.cap)) hmod

/-- **`push` appends**, whether the ring grows or not. -/
theorem toList_push (grow : ℕ → ℕ) (hgrow : ∀ n, 0 < n → n < grow n) (r : RingBuffer α) (x : α) :
    (r.push grow hgrow x).toList = r.toList ++ [x] := by
  rw [push, ← r.items_put x]
  rcases r.length_put with ⟨hfull, hlen⟩ | ⟨hfull, hlen⟩
  · have hhead : (r.put x).head = (r.put x).tail := hfull.symm
    rw [if_pos hhead, toList_expand, hlen]
    rfl
  · have hhead : ¬ (r.put x).head = (r.put x).tail := fun h => hfull h.symm
    rw [if_neg hhead, toList, hlen]

/-- Nothing comes out of a ring exactly if there is nothing in it. -/
theorem pop_eq_none {r : RingBuffer α} : r.pop = none ↔ r.toList = [] := by
  have hhead := r.head_lt
  have htail := r.tail_lt
  rw [pop, ← List.length_eq_zero_iff, length_toList, length]
  split_ifs with h h' h' <;> simp <;> omega

/-- **`pop` takes off the head** of the list. -/
theorem pop_eq_some {r r' : RingBuffer α} {x : α} (h : r.pop = some (x, r')) :
    r.toList = x :: r'.toList := by
  have hhead := r.head_lt
  have htail := r.tail_lt
  rw [pop] at h
  split_ifs at h with hne
  obtain ⟨rfl, rfl⟩ := Prod.mk.inj (Option.some.inj h)
  have hlen : r.length =
      length { r with head := r.next r.head, head_lt := r.next_lt r.head } + 1 := by
    simp only [length, next]
    split_ifs <;> omega
  rw [toList, hlen, items, List.range_succ_eq_map, List.map_cons, List.map_map, toList, items]
  congr 1
  · exact congrArg r.slot (Nat.mod_eq_of_lt hhead)
  · refine List.map_congr_left fun i hi => ?_
    have hi := List.mem_range.mp hi
    have hlt := r.length_lt
    have hstep : (r.head + (i + 1)) % r.cap = (r.next r.head + i) % r.cap := by
      rw [next]
      split_ifs with hlast
      · have hwrap : r.head + (i + 1) = r.cap + (0 + i) := by omega
        rw [hwrap, Nat.add_mod_left]
      · congr 1
        omega
    exact congrArg r.slot hstep

end RingBuffer
