import Mathlib.Data.List.Basic

/-!
# Readers

A reader takes a value from the front of a list and leaves the rest, or fails. Readers are put
together with `>>=` and `if`; the rules below say of such a reader what is known of its parts.

* `Extends f g`: what `f` reads, `g` reads in the same way, whatever follows. A reader that
  extends itself looks at nothing but what it takes.
* `Keeps P f`: what `f` reads has the property `P`.
* `Ends n e f`: on lists shorter than `n`, `f` does not fail with `e`.
* `Falters E x y`: `x` is `y`, unless it fails with an error of `E`. So a computation that asks
  something of the outside is compared with the same one where everything is granted.
-/

namespace Readers

universe u

variable {β ε : Type u} {α γ : Type u}

/-- The parts of a computation that succeeds. -/
theorem bind_eq_ok {x : Except ε α} {F : α → Except ε γ} {c : γ} :
    (x >>= F) = .ok c ↔ ∃ a, x = .ok a ∧ F a = .ok c := by
  constructor
  · intro h
    cases x with
    | error e => cases h
    | ok a => exact ⟨a, rfl, h⟩
  · rintro ⟨a, rfl, h⟩
    exact h

/-- A reader of values of `α` from lists of `β`. -/
abbrev Reader (β ε α : Type u) : Type u := List β → Except ε (α × List β)

/-! ## What follows does not matter -/

/-- What `f` reads, `g` reads in the same way, whatever follows; and `f` leaves no more than
there was. -/
def Extends (f g : Reader β ε α) : Prop :=
  ∀ bs x rest, f bs = .ok (x, rest) →
    rest.length ≤ bs.length ∧ ∀ more, g (bs ++ more) = .ok (x, rest ++ more)

/-- To read nothing is to look at nothing. -/
theorem Extends.ok (x : α) :
    Extends (fun bs => .ok (x, bs) : Reader β ε α) fun bs => .ok (x, bs) := by
  rintro bs y rest h
  obtain ⟨rfl, rfl⟩ := Prod.mk.inj (Except.ok.inj h)
  exact ⟨Nat.le_refl _, fun _ => rfl⟩

/-- What fails is extended by anything. -/
theorem Extends.error (e : List β → ε) (g : Reader β ε α) :
    Extends (fun bs => .error (e bs)) g := by
  rintro bs y rest h
  cases h

/-- One reader after another. The second one depends on what the first one read, not on how much
was there. -/
theorem Extends.bind {f g : Reader β ε α} {F G : α → Reader β ε γ} (h : Extends f g)
    (hrest : ∀ x, Extends (F x) (G x)) :
    Extends (fun bs => f bs >>= fun p => F p.1 p.2) fun bs => g bs >>= fun p => G p.1 p.2 := by
  rintro bs y rest hread
  obtain ⟨⟨x, bs'⟩, hf, hF⟩ := bind_eq_ok.mp hread
  obtain ⟨hle, hg⟩ := h bs x bs' hf
  obtain ⟨hle', hG⟩ := hrest x bs' y rest hF
  refine ⟨Nat.le_trans hle' hle, fun more => ?_⟩
  dsimp only
  rw [hg more]
  exact hG more

/-- A computation that reads nothing. -/
theorem Extends.lift {F G : α → Reader β ε γ} (e : Except ε α)
    (hrest : ∀ x, Extends (F x) (G x)) :
    Extends (fun bs => e >>= fun x => F x bs) fun bs => e >>= fun x => G x bs := by
  cases e with
  | error e => exact Extends.error (fun _ => e) _
  | ok x => exact hrest x

/-- A choice that does not depend on what there is to read. -/
theorem Extends.ite {p : Prop} [Decidable p] {f f' g g' : Reader β ε α} (h : Extends f g)
    (h' : Extends f' g') :
    Extends (fun bs => if p then f bs else f' bs) fun bs => if p then g bs else g' bs := by
  by_cases hp : p
  · simpa only [if_pos hp] using h
  · simpa only [if_neg hp] using h'

/-- `f` takes something. -/
def Takes (f : Reader β ε α) : Prop :=
  ∀ bs x rest, f bs = .ok (x, rest) → rest.length < bs.length

/-! ## What is read -/

/-- What `f` reads has the property `P`. -/
def Keeps (P : α → Prop) (f : Reader β ε α) : Prop :=
  ∀ bs x rest, f bs = .ok (x, rest) → P x

/-- A value that is given without reading. -/
theorem Keeps.ok {P : α → Prop} {x : α} (h : P x) :
    Keeps P (fun bs => .ok (x, bs) : Reader β ε α) := by
  rintro bs y rest hread
  obtain ⟨rfl, -⟩ := Prod.mk.inj (Except.ok.inj hread)
  exact h

/-- What fails reads nothing wrong. -/
theorem Keeps.error {P : α → Prop} (e : List β → ε) :
    Keeps P (fun bs => .error (e bs) : Reader β ε α) := by
  rintro bs y rest h
  cases h

/-- What is known of the first value may be used of the second. -/
theorem Keeps.bind {P : α → Prop} {Q : γ → Prop} {f : Reader β ε α} {F : α → Reader β ε γ}
    (h : Keeps P f) (hrest : ∀ x, P x → Keeps Q (F x)) :
    Keeps Q fun bs => f bs >>= fun p => F p.1 p.2 := by
  rintro bs y rest hread
  obtain ⟨⟨x, bs'⟩, hf, hF⟩ := bind_eq_ok.mp hread
  exact hrest x (h bs x bs' hf) bs' y rest hF

/-- Nothing is known of what is read. -/
theorem Keeps.any (f : Reader β ε α) : Keeps (fun _ => True) f := fun _ _ _ _ => trivial

/-- A computation that reads nothing, between two readers. -/
theorem Keeps.lift {P : α → Prop} {Q : γ → Prop} {F : α → Reader β ε γ} {e : Except ε α}
    (h : ∀ x, e = .ok x → P x) (hrest : ∀ x, P x → Keeps Q (F x)) :
    Keeps Q fun bs => e >>= fun x => F x bs := by
  cases e with
  | error e => exact Keeps.error fun _ => e
  | ok x => exact hrest x (h x rfl)

/-- Each side of a choice may use the condition. -/
theorem Keeps.ite {p : Prop} [Decidable p] {P : α → Prop} {f f' : Reader β ε α}
    (h : p → Keeps P f) (h' : ¬ p → Keeps P f') : Keeps P fun bs => if p then f bs else f' bs := by
  by_cases hp : p
  · simpa only [if_pos hp] using h hp
  · simpa only [if_neg hp] using h' hp

/-! ## Errors that are not raised -/

/-- On lists shorter than `n`, `f` does not fail with `e`. -/
def Ends (n : ℕ) (e : ε) (f : Reader β ε α) : Prop :=
  ∀ bs, bs.length < n → f bs ≠ .error e

variable {n : ℕ} {e : ε}

/-- To read nothing does not fail. -/
theorem Ends.ok (x : α) : Ends n e (fun bs => .ok (x, bs) : Reader β ε α) :=
  fun _ _ h => by cases h

/-- A failure with other errors. -/
theorem Ends.error {e' : List β → ε} (h : ∀ bs, e' bs ≠ e) :
    Ends n e (fun bs => .error (e' bs) : Reader β ε α) :=
  fun bs _ heq => h bs (Except.error.inj heq)

/-- The second reader has no more to read than the first one had, so the bound holds for it. -/
theorem Ends.bind {f g : Reader β ε α} {F : α → Reader β ε γ} (h : Ends n e f) (hle : Extends f g)
    (hrest : ∀ x, Ends n e (F x)) : Ends n e fun bs => f bs >>= fun p => F p.1 p.2 := by
  rintro bs hn heq
  dsimp only at heq
  rcases hf : f bs with e' | ⟨x, bs'⟩
  · rw [hf] at heq
    exact h bs hn (hf.trans (congrArg Except.error (Except.error.inj heq)))
  · rw [hf] at heq
    exact hrest x bs' (Nat.lt_of_le_of_lt (hle bs x bs' hf).1 hn) heq

/-- A choice between readers that do not fail so. -/
theorem Ends.ite {p : Prop} [Decidable p] {f f' : Reader β ε α} (h : Ends n e f)
    (h' : Ends n e f') : Ends n e fun bs => if p then f bs else f' bs := by
  by_cases hp : p
  · simpa only [if_pos hp] using h
  · simpa only [if_neg hp] using h'

/-! ## Failures from outside -/

/-- `x` is `y`, or it fails with an error of `E`. -/
def Falters (E : ε → Prop) (x y : Except ε α) : Prop := x = y ∨ ∃ e, E e ∧ x = .error e

variable {E : ε → Prop}

/-- A computation that asks for nothing. -/
theorem Falters.refl (x : Except ε α) : Falters E x x := .inl rfl

/-- If the first part fails from outside, then so does the whole. -/
theorem Falters.bind {x y : Except ε α} {F G : α → Except ε γ} (h : Falters E x y)
    (hrest : ∀ a, Falters E (F a) (G a)) : Falters E (x >>= F) (y >>= G) := by
  rcases h with rfl | ⟨e, he, rfl⟩
  · cases x with
    | error e => exact .inl rfl
    | ok a => exact hrest a
  · exact .inr ⟨e, he, rfl⟩

/-- A choice that is the same on both sides. -/
theorem Falters.ite {p : Prop} [Decidable p] {x x' y y' : Except ε α} (h : Falters E x y)
    (h' : Falters E x' y') : Falters E (if p then x else x') (if p then y else y') := by
  by_cases hp : p
  · simpa only [if_pos hp] using h
  · simpa only [if_neg hp] using h'

/-- What is computed in spite of the outside is what is computed without it. -/
theorem Falters.eq_ok {x y : Except ε α} (h : Falters E x y) {a : α} (hx : x = .ok a) :
    y = .ok a := by
  rcases h with rfl | ⟨e, -, rfl⟩
  · exact hx
  · cases hx

end Readers
