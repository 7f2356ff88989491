import SlgServer.AppSteps
import Mathlib.Data.List.Nodup

/-!
# One record for each account (`player.lua`, `db.lua`)

A login loads the player and inserts a record if there is none. The database answers
later, and other logins of the account are handled meanwhile, on other sockets and on
other base apps. `one_insert_iff` says when no account gets a second record.
-/

namespace SlgServer.App

open Machine

variable {A M B : Type}

/-- An insert that the collection `player` has received. -/
structure Insert (A : Type) : Type where
  /-- the account of the record -/
  account : Option A
  /-- the rest of the record -/
  obj : Record
  /-- the insert has completed -/
  done : Bool
  deriving DecidableEq

/-- Base apps and their database. -/
structure World (A B : Type) : Type where
  /-- the base apps -/
  apps : ℕ → State A B
  /-- the records that the collection `player` had at the start -/
  stored : List (A × Record)
  /-- what it has received -/
  inserts : List (Insert A)

/-- The base apps after their start, and the records in the database. -/
def World.start (stored : List (A × Record)) : World A B where
  apps := fun _ => State.init
  stored := stored
  inserts := []

/-- What happens in a base app, or in the database. -/
inductive WorldEvent (A M : Type) : Type where
  /-- an event of base app `i` -/
  | app (i : ℕ) (e : Event A M)
  /-- the insert number `j` completes -/
  | complete (j : ℕ)

/-- The account of the login number `k`. -/
def State.loginAccount (s : State A B) (k : ℕ) : Option (Option A) :=
  (s.logins[k]?).bind fun l => (s.players[l.obj]?).map Player.account

/-- The base app `i` is told that there is no record for this account. -/
def World.absentFor (w : World A B) (i : ℕ) : Event A M → Option (Option A × Record)
  | .loaded k (.absent time) => ((w.apps i).loginAccount k).map fun a => (a, createDb time)
  | _ => none

variable [DecidableEq A]

/-- The database answers a load with a record iff it had one for the account at the
start or an insert for it has completed. A load without an account may find anything. -/
def World.truthful (w : World A B) (i : ℕ) : Event A M → Bool
  | .loaded k (.found obj) =>
    match (w.apps i).loginAccount k with
    | some (some a) => decide ((a, obj) ∈ w.stored ∨ ⟨some a, obj, true⟩ ∈ w.inserts)
    | _ => true
  | .loaded k (.absent _) =>
    match (w.apps i).loginAccount k with
    | some (some a) => decide (a ∉ w.stored.map Prod.fst ∧
        ∀ x ∈ w.inserts, x.account = some a → x.done = false)
    | _ => true
  | _ => true

/-- One event. A base app that is told that there is no record sends an insert. -/
def worldStep (c : Codec A M B) (w : World A B) : WorldEvent A M → Option (World A B)
  | .app i e =>
    if w.truthful i e then
      (step c (w.apps i) e).map fun s =>
        { w with
          apps := Function.update w.apps i s
          inserts := w.inserts ++ ((w.absentFor i e).map fun r => ⟨r.1, r.2, false⟩).toList }
    else none
  | .complete j =>
    (w.inserts[j]?).map fun x => { w with inserts := w.inserts.set j { x with done := true } }

/-! ## One insert for each account -/

/-- The collection has received at most one insert for each account. -/
def OneInsert (w : World A B) : Prop :=
  ∀ a, (w.inserts.map Insert.account).count (some a) ≤ 1

/-- When a load for an account finds no record, no insert for it is under way. -/
def NoneUnderWay (w : World A B) : WorldEvent A M → Prop
  | .app i e => ∀ a obj, w.absentFor i e = some (some a, obj) →
      ∀ x ∈ w.inserts, x.account = some a → x.done = true
  | .complete _ => True

/-- When a load finds no record for an account, no insert for it has completed. -/
theorem not_done_of_absent {w : World A B} {i : ℕ} {e : Event A M} {a : A} {obj : Record}
    (h : w.absentFor i e = some (some a, obj)) (htrue : w.truthful i e = true) :
    ∀ x ∈ w.inserts, x.account = some a → x.done = false := by
  cases e with
  | loaded k answer =>
    cases answer with
    | absent time =>
      obtain ⟨account, haccount, heq⟩ := Option.map_eq_some_iff.mp h
      obtain ⟨rfl, -⟩ := Prod.mk.inj heq
      have habsent : a ∉ w.stored.map Prod.fst ∧
          ∀ x ∈ w.inserts, x.account = some a → x.done = false := by
        simpa only [World.truthful, haccount, decide_eq_true_eq] using htrue
      exact habsent.2
    | found obj => cases h
    | raised => cases h
  | _ => cases h

/-- At most one insert for each account: the accounts of the inserts are distinct. -/
theorem oneInsert_iff_nodup {w : World A B} :
    OneInsert w ↔ (w.inserts.filterMap Insert.account).Nodup := by
  rw [List.nodup_iff_count_le_one]
  refine forall_congr' fun a => ?_
  have hcount : (w.inserts.map Insert.account).count (some a) =
      (w.inserts.filterMap Insert.account).count a := by
    rw [List.count_filterMap, List.count_eq_countP, List.countP_map]
    rfl
  rw [hcount]

/-- **One step** keeps the records apart iff no insert for the account is under way. -/
theorem oneInsert_step {c : Codec A M B} {w w' : World A B} {e : WorldEvent A M}
    (h : OneInsert w) (hs : worldStep c w e = some w') : OneInsert w' ↔ NoneUnderWay w e := by
  cases e with
  | complete j =>
    obtain ⟨x, hx, rfl⟩ := Option.map_eq_some_iff.mp hs
    have hsame : (w.inserts.set j { x with done := true }).map Insert.account =
        w.inserts.map Insert.account := map_set_eq hx rfl
    refine iff_of_true (fun a => ?_) trivial
    rw [hsame]
    exact h a
  | app i e =>
    rw [worldStep] at hs
    split_ifs at hs with htrue
    obtain ⟨s, -, rfl⟩ := Option.map_eq_some_iff.mp hs
    rcases habsent : w.absentFor i e with _ | ⟨_ | a, obj⟩
    · -- no insert is sent
      refine iff_of_true (fun a => ?_) (by simp [NoneUnderWay, habsent])
      simpa [habsent] using h a
    · refine iff_of_true (fun a => ?_) (by simp [NoneUnderWay, habsent])
      simpa [habsent] using h a
    · -- nothing for the account has completed, so what was received is under way
      have hnot := not_done_of_absent habsent htrue
      have hguard : NoneUnderWay w (.app i e) ↔ ∀ x ∈ w.inserts, x.account ≠ some a := by
        refine ⟨fun hdone x hx hxa => ?_, fun hno b obj' hb x hx hxb => ?_⟩
        · exact Bool.false_ne_true ((hnot x hx hxa).symm.trans (hdone a obj habsent x hx hxa))
        · cases habsent.symm.trans hb
          exact absurd hxb (hno x hx)
      let x : Insert A := ⟨some a, obj, false⟩
      have haccounts : (w.inserts ++ [x]).filterMap Insert.account =
          (w.inserts.filterMap Insert.account).concat a := by simp [x]
      rw [hguard, oneInsert_iff_nodup]
      simp only [Option.map_some, Option.toList_some]
      rw [haccounts, List.nodup_concat, and_iff_left (oneInsert_iff_nodup.mp h), List.mem_filterMap]
      simp only [not_exists, not_and, ne_eq]

/-- **One record for each account.** In every run of any number of base apps the
collection receives no second insert for any account iff no load that finds no record
for an account is answered while an insert for it is under way. -/
theorem one_insert_iff {c : Codec A M B} {stored : List (A × Record)} {w : World A B}
    {es : List (WorldEvent A M)} (h : run (worldStep c) (World.start stored) es = some w) :
    Always (worldStep c) OneInsert (World.start stored) es ↔
      Guarded (worldStep c) NoneUnderWay (World.start stored) es := by
  have hstart : OneInsert (World.start stored : World A B) := fun _ => Nat.zero_le 1
  exact always_iff_guarded (I := fun _ => True) (fun _ _ _ _ _ => trivial)
    (fun w e w' _ hP hs => oneInsert_step hP hs) trivial hstart h

/-- A new account logs in on base app `1`, and then on base app `2`. -/
def twoLogins : List (WorldEvent ℕ Unit) :=
  [.app 1 (.open 3), .app 1 (.accepted 0 true),
    .app 1 (.data 3 1 ⟨some "token", some 7, none, none⟩), .app 1 (.loaded 0 (.absent 100)),
    .complete 0, .app 1 (.saved 0 true), .app 2 (.open 4), .app 2 (.accepted 0 true),
    .app 2 (.data 4 1 ⟨some "token", some 7, none, none⟩),
    .app 2 (.loaded 0 (.found ⟨"Hero100", 0⟩))]

/-- One after the other the logins make one record. -/
theorem one_insert_iff_twoLogins :
    Always (worldStep (plainCodec ℕ Unit)) OneInsert (World.start []) twoLogins := by
  refine (one_insert_iff (w := _) rfl).mpr ?_
  refine guarded_cons rfl ?_ (guarded_cons rfl ?_ (guarded_cons rfl ?_ (guarded_cons rfl ?_
    (guarded_cons rfl ?_ (guarded_cons rfl ?_ (guarded_cons rfl ?_ (guarded_cons rfl ?_
    (guarded_cons rfl ?_ (guarded_cons rfl ?_ trivial)))))))))
  · exact fun a obj h => nomatch h
  · exact fun a obj h => nomatch h
  · exact fun a obj h => nomatch h
  · exact fun a obj _ x hx => absurd hx List.not_mem_nil
  · trivial
  · exact fun a obj h => nomatch h
  · exact fun a obj h => nomatch h
  · exact fun a obj h => nomatch h
  · exact fun a obj h => nomatch h
  · exact fun a obj h => nomatch h

/-- Overlapping logins of a new account make two. -/
theorem overlapping_logins_insert_twice :
    ∃ w, run (worldStep (plainCodec ℕ Unit)) (World.start [])
        [.app 1 (.open 3), .app 1 (.accepted 0 true),
          .app 1 (.data 3 1 ⟨some "token", some 7, none, none⟩),
          .app 2 (.open 4), .app 2 (.accepted 0 true),
          .app 2 (.data 4 1 ⟨some "token", some 7, none, none⟩),
          .app 1 (.loaded 0 (.absent 100)), .app 2 (.loaded 0 (.absent 101))] = some w ∧
      (w.inserts.map Insert.account) = [some 7, some 7] :=
  ⟨_, rfl, rfl⟩

end SlgServer.App
