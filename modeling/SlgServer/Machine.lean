import Mathlib.Data.List.Basic
import Mathlib.Data.List.Induction

/-!
# Machines: runs of a partial step function

A machine is a partial step function `step : σ → ε → Option σ`; `none` means
that the event cannot happen in that state. Everything a machine may do is in
its *runs*: lists of events taken one after another. Nondeterminism (a random
draw, the next message, the order of an iteration) is part of the event.

* `run` executes a list of events.
* `Always P` says that `P` holds in every state a list of events passes
  through, the first and the last included.
* `Guarded C` says that every step taken meets the condition `C`, which may
  look at the state the step is taken in.
* `count C` is the number of steps that meet the condition `C`.

The rules below turn facts about one step into facts about runs: an invariant
(`run_induction`), an invariant under a condition on the steps
(`always_of_guarded`), and the exact condition under which a property is kept
(`always_iff_guarded`). A rank that no step raises bounds the number of
the steps that lower it (`count_le_rank`). `run_simulation` carries a run of
one machine to a run of another.
-/

namespace Machine

universe u v w x

variable {σ : Type u} {ε : Type v}

/-- Execute a list of events. -/
def run (step : σ → ε → Option σ) : σ → List ε → Option σ
  | s, [] => some s
  | s, e :: es => (step s e).bind fun s' => run step s' es

/-- `P` holds in every state the events pass through. -/
def Always (step : σ → ε → Option σ) (P : σ → Prop) : σ → List ε → Prop
  | s, [] => P s
  | s, e :: es => P s ∧ ∀ s', step s e = some s' → Always step P s' es

/-- Every step the events take meets the condition `C`. -/
def Guarded (step : σ → ε → Option σ) (C : σ → ε → Prop) : σ → List ε → Prop
  | _, [] => True
  | s, e :: es => C s e ∧ ∀ s', step s e = some s' → Guarded step C s' es

/-- How many steps of a run meet the condition `C`. -/
def count (step : σ → ε → Option σ) (C : σ → ε → Prop) [∀ s e, Decidable (C s e)] :
    σ → List ε → ℕ
  | _, [] => 0
  | s, e :: es =>
    (if C s e then 1 else 0) +
      match step s e with
      | some s' => count step C s' es
      | none => 0

variable {step : σ → ε → Option σ}

@[simp] theorem run_nil (s : σ) : run step s [] = some s := rfl

theorem run_cons (s : σ) (e : ε) (es : List ε) :
    run step s (e :: es) = (step s e).bind fun s' => run step s' es := rfl

/-- Inversion: a run of `e :: es` takes `e` first. -/
theorem run_cons_eq_some {s t : σ} {e : ε} {es : List ε}
    (h : run step s (e :: es) = some t) :
    ∃ s', step s e = some s' ∧ run step s' es = some t := by
  rw [run_cons] at h
  exact Option.bind_eq_some_iff.mp h

theorem run_append (s : σ) (es fs : List ε) :
    run step s (es ++ fs) = (run step s es).bind fun t => run step t fs := by
  induction es generalizing s with
  | nil => rfl
  | cons e es ih =>
    rw [List.cons_append, run_cons, run_cons, Option.bind_assoc]
    exact congrArg _ (funext ih)

/-- One more step after a run. -/
theorem run_concat {s t t' : σ} {es : List ε} {e : ε} (h : run step s es = some t)
    (he : step t e = some t') : run step s (es ++ [e]) = some t' := by
  rw [run_append, h]
  simp [run_cons, he]

/-- Inversion at the other end: a run of `es ++ [e]` takes `e` last. -/
theorem run_concat_eq_some {s t' : σ} {es : List ε} {e : ε}
    (h : run step s (es ++ [e]) = some t') :
    ∃ t, run step s es = some t ∧ step t e = some t' := by
  rw [run_append] at h
  obtain ⟨t, ht, he⟩ := Option.bind_eq_some_iff.mp h
  obtain ⟨t'', hs, hnil⟩ := run_cons_eq_some he
  exact ⟨t, ht, Option.some.inj hnil ▸ hs⟩

theorem guarded_cons {C : σ → ε → Prop} {s s' : σ} {e : ε} {es : List ε}
    (h : step s e = some s') (hC : C s e) (hrest : Guarded step C s' es) :
    Guarded step C s (e :: es) := by
  refine ⟨hC, fun s₁ hs₁ => ?_⟩
  obtain rfl := Option.some.inj (h.symm.trans hs₁)
  exact hrest

/-- A condition that can be decided for each step can be decided for a list of events. -/
instance decidableGuarded {C : σ → ε → Prop} [∀ s e, Decidable (C s e)] :
    (s : σ) → (es : List ε) → Decidable (Guarded step C s es)
  | _, [] => isTrue trivial
  | s, e :: es =>
    match h : step s e with
    | none =>
      decidable_of_iff (C s e)
        ⟨fun hC => ⟨hC, fun _ hs => absurd (h.symm.trans hs) (Option.some_ne_none _).symm⟩,
          fun hC => hC.1⟩
    | some s' =>
      have := decidableGuarded (C := C) s' es
      decidable_of_iff (C s e ∧ Guarded step C s' es)
        ⟨fun hC => guarded_cons h hC.1 hC.2, fun hC => ⟨hC.1, hC.2 s' h⟩⟩

/-! ## Invariants -/

/-- What every step keeps, every run keeps. -/
theorem run_induction {I : σ → Prop} (hstep : ∀ s e s', I s → step s e = some s' → I s')
    {s t : σ} {es : List ε} (h₀ : I s) (h : run step s es = some t) : I t := by
  induction es generalizing s with
  | nil => exact Option.some.inj h ▸ h₀
  | cons e es ih =>
    obtain ⟨s', hs, ht⟩ := run_cons_eq_some h
    exact ih (hstep s e s' h₀ hs) ht

/-- An invariant that speaks of the events taken so far. -/
theorem run_history {I : List ε → σ → Prop} {s : σ}
    (hstep : ∀ es t e t', I es t → step t e = some t' → I (es ++ [e]) t') (h₀ : I [] s)
    {es : List ε} {t : σ} (h : run step s es = some t) : I es t := by
  induction es using List.reverseRecOn generalizing t with
  | nil => exact Option.some.inj h ▸ h₀
  | append_singleton es e ih =>
    obtain ⟨t', ht, hs⟩ := run_concat_eq_some h
    exact hstep es t' e t (ih ht) hs

/-- A run that gets through: in the state that the events so far have led to, the next
event can happen, and the invariant survives it. -/
theorem run_progress {I : List ε → σ → Prop} {s : σ} (h₀ : I [] s) {es : List ε}
    (hstep : ∀ ds e fs t, es = ds ++ e :: fs → I ds t →
      ∃ t', step t e = some t' ∧ I (ds ++ [e]) t') :
    ∃ t, run step s es = some t ∧ I es t := by
  induction es using List.reverseRecOn with
  | nil => exact ⟨s, rfl, h₀⟩
  | append_singleton es e ih =>
    obtain ⟨t, ht, hI⟩ := ih fun ds d fs t hes =>
      hstep ds d (fs ++ [e]) t (by rw [hes, List.append_assoc, List.cons_append])
    obtain ⟨t', ht', hI'⟩ := hstep es e [] t rfl hI
    exact ⟨t', run_concat ht ht', hI'⟩

theorem Always.head {P : σ → Prop} {s : σ} {es : List ε} (h : Always step P s es) : P s := by
  cases es with
  | nil => exact h
  | cons e es => exact h.1

/-- What holds throughout a run holds in its last state. -/
theorem Always.last {P : σ → Prop} {s t : σ} {es : List ε} (h : Always step P s es)
    (hrun : run step s es = some t) : P t := by
  induction es generalizing s with
  | nil => exact Option.some.inj hrun ▸ h
  | cons e es ih =>
    obtain ⟨s', hs, ht⟩ := run_cons_eq_some hrun
    exact ih (h.2 s' hs) ht

/-- What follows from an invariant under a condition on the steps holds
throughout runs of such steps. -/
theorem always_of_guarded {I P : σ → Prop} {C : σ → ε → Prop}
    (hI : ∀ s e s', I s → C s e → step s e = some s' → I s') (hP : ∀ s, I s → P s)
    {s : σ} {es : List ε} (hIs : I s) (hC : Guarded step C s es) : Always step P s es := by
  induction es generalizing s with
  | nil => exact hP s hIs
  | cons e es ih =>
    exact ⟨hP s hIs, fun s' hs => ih (hI s e s' hIs hC.1 hs) (hC.2 s' hs)⟩

/-- In the presence of an invariant, what follows from a property holds throughout
the runs in which the property does. -/
theorem always_mono {I P Q : σ → Prop} (hI : ∀ s e s', I s → step s e = some s' → I s')
    (hPQ : ∀ s, I s → P s → Q s) {s : σ} {es : List ε} (hIs : I s) (h : Always step P s es) :
    Always step Q s es := by
  induction es generalizing s with
  | nil => exact hPQ s hIs h
  | cons e es ih =>
    exact ⟨hPQ s hIs h.1, fun s' hs => ih (hI s e s' hIs hs) (h.2 s' hs)⟩

/-- **Exact conditions.** Let `I` be an invariant of the machine. If, from a
state where `P` holds, a step keeps `P` exactly when it meets `C`, then `P`
holds throughout a run exactly when every step of the run meets `C`. -/
theorem always_iff_guarded {I P : σ → Prop} {C : σ → ε → Prop}
    (hI : ∀ s e s', I s → step s e = some s' → I s')
    (hP : ∀ s e s', I s → P s → step s e = some s' → (P s' ↔ C s e))
    {s t : σ} {es : List ε} (hIs : I s) (hPs : P s) (h : run step s es = some t) :
    Always step P s es ↔ Guarded step C s es := by
  induction es generalizing s with
  | nil => exact ⟨fun _ => trivial, fun _ => hPs⟩
  | cons e es ih =>
    obtain ⟨s', hs, ht⟩ := run_cons_eq_some h
    have hI' : I s' := hI s e s' hIs hs
    refine ⟨?_, ?_⟩
    · rintro ⟨-, hA⟩
      have hP' : P s' := (hA s' hs).head
      refine ⟨(hP s e s' hIs hPs hs).mp hP', fun s₁ hs₁ => ?_⟩
      obtain rfl := Option.some.inj (hs.symm.trans hs₁)
      exact (ih hI' hP' ht).mp (hA s' hs)
    · rintro ⟨hC, hG⟩
      have hP' : P s' := (hP s e s' hIs hPs hs).mpr hC
      refine ⟨hPs, fun s₁ hs₁ => ?_⟩
      obtain rfl := Option.some.inj (hs.symm.trans hs₁)
      exact (ih hI' hP' ht).mpr (hG s' hs)

/-- A condition on the steps that implies another one, in the presence of an
invariant, does so for whole runs. -/
theorem guarded_mono {I : σ → Prop} {C D : σ → ε → Prop}
    (hI : ∀ s e s', I s → C s e → step s e = some s' → I s')
    (hCD : ∀ s e s', I s → C s e → step s e = some s' → D s e)
    {s t : σ} {es : List ε} (hIs : I s) (h : run step s es = some t)
    (hC : Guarded step C s es) : Guarded step D s es := by
  induction es generalizing s with
  | nil => trivial
  | cons e es ih =>
    obtain ⟨s', hs, ht⟩ := run_cons_eq_some h
    refine ⟨hCD s e s' hIs hC.1 hs, fun s₁ hs₁ => ?_⟩
    obtain rfl := Option.some.inj (hs.symm.trans hs₁)
    exact ih (hI s e s' hIs hC.1 hs) ht (hC.2 s' hs)

/-! ## Ranks -/

/-- **Ranks.** If no step that meets `D` raises the rank, and those that meet `C` too lower it,
there are no more of them in a run than the rank says. -/
theorem count_le_rank {I : σ → Prop} {C D : σ → ε → Prop} [∀ s e, Decidable (C s e)] (rank : σ → ℕ)
    (hI : ∀ s e s', I s → D s e → step s e = some s' → I s')
    (hle : ∀ s e s', I s → D s e → step s e = some s' → rank s' ≤ rank s)
    (hlt : ∀ s e s', I s → C s e → step s e = some s' → rank s' < rank s)
    {s t : σ} {es : List ε} (hIs : I s) (h : run step s es = some t)
    (hD : Guarded step D s es) : count step C s es + rank t ≤ rank s := by
  induction es generalizing s with
  | nil =>
    obtain rfl := Option.some.inj h
    exact Nat.le_of_eq (Nat.zero_add _)
  | cons e es ih =>
    obtain ⟨s', hs, ht⟩ := run_cons_eq_some h
    have hrest := ih (hI s e s' hIs hD.1 hs) ht (hD.2 s' hs)
    have hstep := hle s e s' hIs hD.1 hs
    rw [count, hs]
    dsimp only
    split_ifs with hC
    · have hless := hlt s e s' hIs hC hs
      omega
    · omega

/-! ## Simulation -/

/-- **Simulation.** If every step of one machine is a run of another under the
maps `f` on states and `g` on steps, then so is every run. -/
theorem run_simulation {τ : Type w} {δ : Type x} {step' : τ → δ → Option τ}
    {f : σ → τ} {g : σ → ε → List δ}
    (hsim : ∀ s e s', step s e = some s' → run step' (f s) (g s e) = some (f s'))
    {s t : σ} {es : List ε} (h : run step s es = some t) :
    ∃ ds, run step' (f s) ds = some (f t) := by
  induction es generalizing s with
  | nil => exact ⟨[], by rw [run_nil, Option.some.inj h]⟩
  | cons e es ih =>
    obtain ⟨s', hs, ht⟩ := run_cons_eq_some h
    obtain ⟨ds, hds⟩ := ih ht
    refine ⟨g s e ++ ds, ?_⟩
    rw [run_append, hsim s e s' hs]
    exact hds

end Machine
