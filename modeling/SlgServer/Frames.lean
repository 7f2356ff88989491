import Mathlib.Data.List.Basic

/-!
# Cutting a stream into frames

A stream of symbols is a sequence of frames, one after the other, and a receiver
gets it in pieces that need not end where frames end. `Framing` says how one
frame is written and how one is taken off the front of a buffer, the two being
inverse to each other; `drain` takes frames off until no whole one is left.

What `drain` does is said once (`drain_eq_iff`): the frames it finds are the
ones the buffer begins with, and the rest begins with none. So a receiver that
keeps the rest and puts the next piece behind it finds the frames of the whole
stream, however the stream was cut (`drain_append`, `drain_encoded`).
-/

namespace Frames

universe u v

/-- A format for frames. -/
structure Framing (α : Type u) (β : Type v) where
  /-- the frames that can be written -/
  Valid : β → Prop
  /-- a frame as it is written -/
  encode : β → List α
  /-- the frame at the front of a buffer and what follows it, if a whole one is there -/
  next : List α → Option (β × List α)
  /-- what is read is what was written -/
  next_eq_some : ∀ {s f r}, next s = some (f, r) ↔ Valid f ∧ s = encode f ++ r
  /-- frames take up room -/
  encode_ne_nil : ∀ {f}, Valid f → encode f ≠ []

namespace Framing

variable {α : Type u} {β : Type v} (d : Framing α β)

theorem shrinks {s r : List α} {f : β} (h : d.next s = some (f, r)) : r.length < s.length := by
  obtain ⟨hf, rfl⟩ := d.next_eq_some.mp h
  have hpos := List.length_pos_of_ne_nil (d.encode_ne_nil hf)
  rw [List.length_append]
  omega

/-- Take frames off a buffer until no whole one is left. -/
def drain (s : List α) : List β × List α :=
  match _h : d.next s with
  | none => ([], s)
  | some (f, r) => (f :: (drain r).1, (drain r).2)
termination_by s.length
decreasing_by all_goals exact d.shrinks ‹_›

theorem drain_of_none {s : List α} (h : d.next s = none) : d.drain s = ([], s) := by
  rw [drain]
  split
  · rfl
  · next hsome =>
    rw [h] at hsome
    cases hsome

theorem drain_of_some {s r : List α} {f : β} (h : d.next s = some (f, r)) :
    d.drain s = (f :: (d.drain r).1, (d.drain r).2) := by
  rw [drain]
  split
  · next hnone =>
    rw [h] at hnone
    cases hnone
  · next f' r' hsome =>
    obtain ⟨rfl, rfl⟩ := Prod.mk.inj (Option.some.inj (h.symm.trans hsome))
    rfl

/-- A frame that was written comes off. -/
theorem drain_encode {f : β} (hf : d.Valid f) (s : List α) :
    d.drain (d.encode f ++ s) = (f :: (d.drain s).1, (d.drain s).2) :=
  d.drain_of_some (d.next_eq_some.mpr ⟨hf, rfl⟩)

/-- Frames that were written come off, before what follows them. -/
theorem drain_encoded {fs : List β} (hfs : ∀ f ∈ fs, d.Valid f) (s : List α) :
    d.drain (fs.flatMap d.encode ++ s) = (fs ++ (d.drain s).1, (d.drain s).2) := by
  induction fs with
  | nil => rfl
  | cons f fs ih =>
    have ih' := ih fun f hf => hfs f (List.mem_cons_of_mem _ hf)
    rw [List.flatMap_cons, List.append_assoc, d.drain_encode (hfs f (List.mem_cons_self ..)), ih']
    rfl

/-- What `drain` finds is the buffer. -/
theorem drain_spec (s : List α) :
    (∀ f ∈ (d.drain s).1, d.Valid f) ∧ s = (d.drain s).1.flatMap d.encode ++ (d.drain s).2 ∧
      d.next (d.drain s).2 = none := by
  induction s using drain.induct (d := d) with
  | case1 s hnone =>
    rw [d.drain_of_none hnone]
    exact ⟨by simp, rfl, hnone⟩
  | case2 s f r hsome ih =>
    obtain ⟨hf, rfl⟩ := d.next_eq_some.mp hsome
    obtain ⟨hfs, hs, hrest⟩ := ih
    rw [d.drain_of_some hsome]
    refine ⟨List.forall_mem_cons.mpr ⟨hf, hfs⟩, ?_, hrest⟩
    rw [List.flatMap_cons, List.append_assoc, ← hs]

/-- **What `drain` does**: it finds the frames the buffer is made of, up to a
rest that begins with no whole frame. -/
theorem drain_eq_iff {s r : List α} {fs : List β} :
    d.drain s = (fs, r) ↔
      (∀ f ∈ fs, d.Valid f) ∧ s = fs.flatMap d.encode ++ r ∧ d.next r = none := by
  refine ⟨fun h => ?_, ?_⟩
  · have hspec := d.drain_spec s
    rwa [h] at hspec
  · rintro ⟨hfs, rfl, hrest⟩
    rw [d.drain_encoded hfs, d.drain_of_none hrest, List.append_nil]

/-- **The rest is all that has to be kept** when the next piece comes. -/
theorem drain_append (s t : List α) :
    d.drain (s ++ t) = ((d.drain s).1 ++ (d.drain ((d.drain s).2 ++ t)).1,
      (d.drain ((d.drain s).2 ++ t)).2) := by
  obtain ⟨hfs, hs, -⟩ := d.drain_spec s
  rw [← d.drain_encoded hfs, ← List.append_assoc, ← hs]

/-- Each frame found was as long as it is written. -/
theorem length_drain_le {n : ℕ} (hn : ∀ f, d.Valid f → n ≤ (d.encode f).length) (s : List α) :
    n * (d.drain s).1.length ≤ s.length := by
  induction s using drain.induct (d := d) with
  | case1 s hnone =>
    rw [d.drain_of_none hnone]
    exact Nat.zero_le _
  | case2 s f r hsome ih =>
    obtain ⟨hf, rfl⟩ := d.next_eq_some.mp hsome
    have hlen := hn f hf
    rw [d.drain_of_some hsome, List.length_cons, List.length_append, Nat.mul_succ]
    omega

end Framing

end Frames
