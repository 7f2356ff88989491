import SlgServer.LuaSeri
import SlgServer.Readers

/-!
# Unpacking with what Lua has

`unpack` asks Lua for room on its stack and for memory. If Lua does not have what is needed, then
it raises an error; other than that its answers make no difference (`falters_unpack`). So it is
enough to know what `unpack` does with a Lua that has everything (`plenty`).
-/

namespace SlgServer.LuaSeri

open Readers

/-- An error that Lua raises because it does not have what it was asked for. -/
def Lua.Lacks (lua : Lua) (e : Error) : Prop :=
  ∃ need left, lua.has need left = false ∧ e = need.error

variable {lua : Lua}

/-- Either Lua has what it is asked for, or it raises an error. -/
theorem falters_ask (need : Need) (rb : List UInt8) :
    Falters lua.Lacks (lua.ask need rb) (plenty.ask need rb) := by
  rcases hhas : lua.has need rb.length with _ | _
  · refine .inr ⟨need.error, ⟨need, rb.length, hhas, rfl⟩, ?_⟩
    rw [Lua.ask, hhas, if_neg Bool.false_ne_true]
  · apply Or.inl
    rw [Lua.ask, hhas, if_pos rfl]
    rfl

/-- Lua is asked for memory once the bytes of a string are there. -/
theorem falters_getBuffer (len : ℕ) (rb : List UInt8) :
    Falters lua.Lacks (getBuffer lua len rb) (getBuffer plenty len rb) := by
  apply Falters.ite (.refl _)
  cases rbRead len rb with
  | none => exact .refl _
  | some p => exact .bind (falters_ask .string p.2) fun _ => .refl _

variable {one one' : List UInt8 → Except Error (Value Unit × List UInt8)}

/-- Lua is asked for memory for each field of the array. -/
theorem falters_unpackArray (hone : ∀ rb, Falters lua.Lacks (one rb) (one' rb)) (n i : ℕ)
    (fields : List (Value Unit × Value Unit)) (rb : List UInt8) :
    Falters lua.Lacks (unpackArray lua one n i fields rb)
      (unpackArray plenty one' n i fields rb) := by
  induction n generalizing i fields rb with
  | zero => exact .refl _
  | succ n ih =>
    exact .bind (hone rb) fun p => .bind (falters_ask .field p.2) fun _ => ih (i + 1) _ p.2

/-- So it is for each of the other fields, after the key was found to be one. -/
theorem falters_unpackHash (hone : ∀ rb, Falters lua.Lacks (one rb) (one' rb)) (n : ℕ)
    (fields : List (Value Unit × Value Unit)) (rb : List UInt8) :
    Falters lua.Lacks (unpackHash lua one n fields rb) (unpackHash plenty one' n fields rb) := by
  induction n generalizing fields rb with
  | zero => exact .refl _
  | succ n ih =>
    exact .bind (hone rb) fun k => .ite (.refl _) (.bind (hone k.2) fun v =>
      .bind (.refl (rawset fields k.1 v.1)) fun fields =>
        .bind (falters_ask .field v.2) fun _ => ih fields v.2)

/-- Before its fields, a table needs room on the stack, and memory for as many as the array has.
-/
theorem falters_unpackTable (hone : ∀ rb, Falters lua.Lacks (one rb) (one' rb)) (arraySize : ℕ)
    (rb : List UInt8) :
    Falters lua.Lacks (unpackTable lua one arraySize rb) (unpackTable plenty one' arraySize rb) :=
  .bind (.refl (readArraySize arraySize rb)) fun p =>
    .bind (falters_ask .stack p.2) fun _ =>
    .bind (falters_ask (.array p.1) p.2) fun _ =>
    .bind (falters_unpackArray hone p.1 1 [] p.2) fun q =>
    .bind (falters_unpackHash hone (q.2.length + 1) q.1 q.2) fun _ => .refl _

/-- Only strings and tables need something. -/
theorem falters_pushValue (hone : ∀ rb, Falters lua.Lacks (one rb) (one' rb)) (type cookie : ℕ)
    (rb : List UInt8) :
    Falters lua.Lacks (pushValue lua one type cookie rb)
      (pushValue plenty one' type cookie rb) := by
  have hstring (len : ℕ) (rb : List UInt8) :
      Falters lua.Lacks (getBuffer lua len rb >>= fun p => .ok (Value.string (S := Unit) p.1, p.2))
        (getBuffer plenty len rb >>= fun p => .ok (.string p.1, p.2)) :=
    .bind (falters_getBuffer len rb) fun _ => .refl _
  have hlong (line sz : ℕ) : Falters lua.Lacks _ _ :=
    .bind (.refl (readMemory line sz rb)) fun p => hstring p.1 p.2
  exact .ite (.refl _) (.ite (.refl _) (.ite (.refl _) (.ite (.refl _) (.ite
    (hstring cookie rb) (.ite (.ite (hlong 493 2) (.ite (.refl _) (hlong 504 4))) (.ite
    (falters_unpackTable hone cookie rb) (.refl _)))))))

/-- Tables within tables, by induction on the depth. -/
theorem falters_unpackOne (n : ℕ) (rb : List UInt8) :
    Falters lua.Lacks (unpackOne lua n rb) (unpackOne plenty n rb) := by
  induction n generalizing rb with
  | zero => exact .refl _
  | succ n ih =>
    cases rb with
    | nil => exact .refl _
    | cons t rb => exact falters_pushValue ih _ _ rb

/-- Lua is asked for room before every eighth value. -/
theorem falters_room {α : Type} {p : Prop} [Decidable p] (rb : List UInt8) {x y : Except Error α}
    (h : Falters lua.Lacks x y) :
    Falters lua.Lacks (if p then lua.ask .stack rb >>= fun _ => x else x)
      (if p then plenty.ask .stack rb >>= fun _ => y else y) :=
  .ite (.bind (falters_ask .stack rb) fun _ => h) h

/-- The values of a message, one after another. -/
theorem falters_unpackLoop (n i : ℕ) (rb : List UInt8) :
    Falters lua.Lacks (unpackLoop lua n i rb) (unpackLoop plenty n i rb) := by
  induction n generalizing i rb with
  | zero =>
    cases rb with
    | nil => exact falters_room [] (.refl _)
    | cons t rb => exact falters_room (t :: rb) (.refl _)
  | succ n ih =>
    cases rb with
    | nil => exact falters_room [] (.refl _)
    | cons t rb =>
      apply falters_room (t :: rb)
      exact .bind (falters_pushValue (falters_unpackOne (rb.length + 1)) _ _ rb) fun p =>
        .bind (ih (i + 1) p.2) fun _ => .refl _

/-- **What Lua answers makes no difference, unless it fails.** -/
theorem falters_unpack (lua : Lua) (bytes : List UInt8) :
    Falters lua.Lacks (unpack lua bytes) (unpack plenty bytes) :=
  falters_unpackLoop bytes.length 0 bytes

end SlgServer.LuaSeri
