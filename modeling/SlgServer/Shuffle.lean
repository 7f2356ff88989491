import SlgServer.Match
import Mathlib.Data.List.Perm.Basic
import Mathlib.Data.Set.Basic

/-!
# Shuffling (`mjlib/base/mjlib.lua`, `mjlib/hubei_huanghuang/mjlib.lua`)

The files of `mjlib` hold the same `shuffle`. It goes down the list and exchanges each
place with one *below* it: `math.random(1, i - 1)`. So every place is left by what it
held, and no draws give back the list as it was.

`shuffle_reaches_iff`: all arrangements can come out only of a list whose entries are all
the same.
-/

namespace SlgServer.MjLib

variable {α : Type}

/-! ## The loop -/

/-- `t[i]` and `t[index]` change places. -/
def exchange (t : List α) (i index : ℕ) : List α :=
  match t[i - 1]?, t[index - 1]? with
  | some tmp, some x => (t.set (i - 1) x).set (index - 1) tmp
  | _, _ => t

/-- The loop of `shuffle` from `i` down to 2; `draws` is what `math.random(1, i - 1)`
returns, round after round. It is `none` if a value is out of range, or missing. -/
def shuffleFrom : ℕ → List ℕ → List α → Option (List α)
  | 0, _, t => some t
  | 1, _, t => some t
  | _ + 2, [], _ => none
  | i + 2, index :: draws, t =>
    if 1 ≤ index ∧ index ≤ i + 1 then shuffleFrom (i + 1) draws (exchange t (i + 2) index)
    else none

/-- `shuffle`. -/
def shuffle (draws : List ℕ) (t : List α) : Option (List α) := shuffleFrom t.length draws t

/-- What can come out of `shuffle`. -/
def Reachable (t : List α) : Set (List α) := {r | ∃ draws, shuffle draws t = some r}

/-! ## One exchange -/

theorem exchange_eq {t : List α} {i index : ℕ} (hi : i < t.length) (hindex : index < t.length) :
    exchange t (i + 1) (index + 1) = (t.set i t[index]).set index t[i] := by
  simp [exchange, hi, hindex]

theorem exchange_perm (t : List α) (i index : ℕ) : (exchange t i index).Perm t := by
  rw [exchange]
  split
  · next tmp x hi hindex =>
    obtain ⟨hlt, rfl⟩ := List.getElem?_eq_some_iff.mp hi
    obtain ⟨hlt', rfl⟩ := List.getElem?_eq_some_iff.mp hindex
    exact List.set_set_perm hlt hlt'
  · exact List.Perm.refl t

/-- The place `i` gets what the place `index` held. -/
theorem exchange_getElem {t : List α} {i index : ℕ} (hi : i < t.length) (hindex : index < i) :
    (exchange t (i + 1) (index + 1))[i]? = t[index]? := by
  rw [exchange_eq hi (by omega), List.getElem?_set_ne (by omega), List.getElem?_set_self hi,
    List.getElem?_eq_getElem]

/-- Equal entries may change places. -/
theorem exchange_self {t : List α} {i index : ℕ} (hi : i < t.length) (hindex : index < i)
    (heq : t[index]? = t[i]?) : exchange t (i + 1) (index + 1) = t := by
  have hlt : index < t.length := by omega
  rw [List.getElem?_eq_getElem hlt, List.getElem?_eq_getElem hi, Option.some.injEq] at heq
  rw [exchange_eq hi hlt, heq, List.set_getElem_self, ← heq, List.set_getElem_self]

/-! ## The whole loop -/

/-- Inversion: a round that goes through has drawn a place below. -/
theorem shuffleFrom_succ {i : ℕ} {draws : List ℕ} {t r : List α}
    (h : shuffleFrom (i + 2) draws t = some r) : ∃ index draws', draws = (index + 1) :: draws' ∧
      index ≤ i ∧ shuffleFrom (i + 1) draws' (exchange t (i + 2) (index + 1)) = some r := by
  cases draws with
  | nil => cases h
  | cons index draws =>
    rw [shuffleFrom] at h
    split_ifs at h with hdraw
    obtain ⟨index, rfl⟩ : ∃ k, index = k + 1 := ⟨index - 1, by omega⟩
    exact ⟨index, draws, rfl, by omega, h⟩

/-- **Nothing is lost and nothing is doubled**, whatever the draws. -/
theorem shuffleFrom_perm {i : ℕ} {draws : List ℕ} {t r : List α}
    (h : shuffleFrom (i + 1) draws t = some r) : r.Perm t := by
  induction i generalizing draws t with
  | zero =>
    cases h
    exact List.Perm.refl _
  | succ i ih =>
    obtain ⟨index, draws, rfl, -, h⟩ := shuffleFrom_succ h
    exact (ih h).trans (exchange_perm t _ _)

/-- The places the loop has passed stay as they are. -/
theorem shuffleFrom_getElem {i : ℕ} {draws : List ℕ} {t r : List α}
    (h : shuffleFrom (i + 1) draws t = some r) {k : ℕ} (hk : i < k) : r[k]? = t[k]? := by
  induction i generalizing draws t with
  | zero =>
    cases h
    rfl
  | succ i ih =>
    obtain ⟨index, draws, rfl, hindex, h⟩ := shuffleFrom_succ h
    rw [ih h (by omega), exchange]
    split
    · rw [List.getElem?_set_ne (by omega), List.getElem?_set_ne (by omega)]
    · rfl

/-- **A list that comes out as it was is constant.** The last place holds what another
place held; then the two are equal, the exchange did nothing, and so on down. -/
theorem constant_of_shuffleFrom {i : ℕ} {draws : List ℕ} {t : List α} (hi : i < t.length)
    (h : shuffleFrom (i + 1) draws t = some t) {k : ℕ} (hk : k ≤ i) : t[k]? = t[0]? := by
  induction i generalizing draws k with
  | zero => rw [Nat.le_zero.mp hk]
  | succ i ih =>
    obtain ⟨index, draws, rfl, hindex, h⟩ := shuffleFrom_succ h
    have hlast : t[i + 1]? = t[index]? := by
      rw [shuffleFrom_getElem h (by omega), exchange_getElem hi (by omega)]
    rw [exchange_self hi (by omega) hlast.symm] at h
    have hrest := fun k hk => ih (k := k) (by omega) h hk
    obtain hlt | rfl : k ≤ i ∨ k = i + 1 := by omega
    · exact hrest k hlt
    · rw [hlast, hrest index hindex]

/-- Some draws are always possible. -/
theorem exists_shuffleFrom (i : ℕ) (t : List α) : ∃ draws r, shuffleFrom i draws t = some r := by
  induction i generalizing t with
  | zero => exact ⟨[], t, rfl⟩
  | succ i ih =>
    cases i with
    | zero => exact ⟨[], t, rfl⟩
    | succ i =>
      obtain ⟨draws, r, h⟩ := ih (exchange t (i + 2) 1)
      exact ⟨1 :: draws, r, by rw [shuffleFrom, if_pos ⟨Nat.le_refl 1, by omega⟩, h]⟩

/-! ## What can come out -/

/-- Every list that comes out is a rearrangement. -/
theorem perm_of_mem_reachable {t r : List α} (h : r ∈ Reachable t) : r.Perm t := by
  obtain ⟨draws, h⟩ := h
  rw [shuffle] at h
  rcases hlen : t.length with _ | i
  · rw [hlen] at h
    cases h
    exact List.Perm.refl _
  · rw [hlen] at h
    exact shuffleFrom_perm h

/-- A list that can come out as it was has one kind of entry. -/
theorem constant_of_mem_reachable {t : List α} (h : t ∈ Reachable t) :
    ∀ x ∈ t, ∀ y ∈ t, x = y := by
  obtain ⟨draws, h⟩ := h
  rw [shuffle] at h
  intro x hx y hy
  obtain ⟨j, hj, rfl⟩ := List.getElem_of_mem hx
  obtain ⟨k, hk, rfl⟩ := List.getElem_of_mem hy
  obtain ⟨i, hlen⟩ : ∃ i, t.length = i + 1 := ⟨t.length - 1, by omega⟩
  rw [hlen] at h
  have hsame := fun k hk => constant_of_shuffleFrom (k := k) (by omega) h hk
  have heq := (hsame j (by omega)).trans (hsame k (by omega)).symm
  rwa [List.getElem?_eq_getElem hj, List.getElem?_eq_getElem hk, Option.some.injEq] at heq

/-- **Where all arrangements can come out.** What comes out of `shuffle` is always a
rearrangement of the list; all of them can come out iff the entries of the list are all
the same. -/
theorem shuffle_reaches_iff (t : List α) :
    Reachable t ⊆ {r | r.Perm t} ∧
      (Reachable t = {r | r.Perm t} ↔ ∀ x ∈ t, ∀ y ∈ t, x = y) := by
  have hperm : Reachable t ⊆ {r | r.Perm t} := fun r hr => perm_of_mem_reachable hr
  refine ⟨hperm, fun h => ?_, fun h => ?_⟩
  · have hmem : t ∈ {r | r.Perm t} := List.Perm.refl t
    rw [← h] at hmem
    exact constant_of_mem_reachable hmem
  · -- then all rearrangements are the list itself
    have hself : ∀ r : List α, r.Perm t → r = t := by
      intro r hr
      cases t with
      | nil => exact hr.eq_nil
      | cons x t =>
        have hrep : x :: t = List.replicate (t.length + 1) x :=
          List.eq_replicate_of_mem fun y hy => h y hy x (List.mem_cons_self ..)
        rw [hrep] at hr ⊢
        exact List.perm_replicate.mp hr
    refine Set.Subset.antisymm hperm fun r hr => ?_
    obtain ⟨draws, r', h'⟩ := exists_shuffleFrom t.length t
    have hr' : r' ∈ Reachable t := ⟨draws, h'⟩
    rw [hself r' (hperm hr')] at hr'
    rwa [hself r hr]

/-- The deck, as it is created, is an arrangement of its tiles, and `shuffle` cannot give
it back. -/
theorem deck_not_reachable :
    create true ∈ {r | r.Perm (create true)} ∧ create true ∉ Reachable (create true) := by
  refine ⟨List.Perm.refl _, fun h => ?_⟩
  have hsame := constant_of_mem_reachable h 1 (by decide) 2 (by decide)
  cases hsame

end SlgServer.MjLib
