import SlgServer.SchedulerRuns
import Mathlib.Data.List.Nodup

/-!
# How the scheduler comes to rest

When all threads have come to rest, nothing waits, and what was retired is freed (`at_rest`).
And they do: if nothing new comes in, no step raises the `potential`, each step that `GoesOn`
takes it down, and as long as the node is not at rest there is such a step (`comes_to_rest`).
The other steps are those of workers that find nothing, and of workers that spin: the queue of a
service that was retired, and to which another thread has a reference still (`State.Stale`), goes
out of the global queue and back.
-/

namespace SlgServer.Scheduler

open Pool

variable {D : Type}

/-! ## Rest -/

/-- No thread has anything to do: the workers sleep, and the other threads are gone. -/
def Task.idle : Task D → Bool
  | .next (.pop _) | .next .done => true
  | _ => false

/-- The node is at rest. -/
structure State.Rest (s : State D) : Prop where
  global : s.global = []
  idle : ∀ t ∈ s.tasks, t.idle = true

/-- Threads that are idle add nothing. -/
theorem total_idle {f : Task D → ℕ} (hf : ∀ t, t.idle = true → f t = 0) {ts : List (Task D)}
    (h : ∀ t ∈ ts, t.idle = true) : total f ts = 0 := by
  induction ts with
  | nil => rfl
  | cons t ts ih =>
    rw [total_cons, hf t (h t (.head _)), ih fun u hu => h u (.tail _ hu)]

/-- At rest there is nothing of a service but itself. -/
theorem State.Rest.tally {s : State D} (hrest : s.Rest) (k : ℕ) : s.tally k = ⟨0, 0, 0, 0, []⟩ := by
  have hidle (t : Task D) (ht : t.idle = true) : t.has k = ⟨0, 0, 0, 0, []⟩ := by
    match t with
    | .next (.pop _) | .next .done => rfl
  have hhands : total (Task.hands k) s.tasks = 0 :=
    total_idle (fun t ht => congrArg Tally.places (hidle t ht)) hrest.idle
  apply Tally.ext_of
  · dsimp only [State.tally]
    rw [hrest.global, hhands]
    rfl
  · exact total_idle (fun t ht => congrArg Tally.refs (hidle t ht)) hrest.idle
  · exact total_idle (fun t ht => congrArg Tally.marks (hidle t ht)) hrest.idle
  · exact total_idle (fun t ht => congrArg Tally.makes (hidle t ht)) hrest.idle
  · exact flatMap_eq_nil (flight_of_hands k) hhands

/-- The messages are handled as far as the service is there to handle them. -/
def busyToRest : List (Event ℕ) :=
  busy ++ [.act 4 true, .retire 0, .act 5 true, .act 5 true] ++ List.replicate 12 (.act 0 true)

/-- A service was retired, and there is a reference to it still: a worker that has its queue can
only put it back. -/
def State.Stale (s : State D) (k : ℕ) : Prop :=
  (s.service k).listed = false ∧ (s.service k).mq.release = false

instance (s : State D) (k : ℕ) : Decidable (s.Stale k) := inferInstanceAs (Decidable (_ ∧ _))

/-- A task that can go on, and does not only pass the queue of such a service on. -/
def State.GoesOn (s : State D) : Task D → Prop
  | .next (.pop _) => ∃ k ∈ s.global.head?, ¬ s.Stale k
  | .next (.dispatch _ k) | .next (.mqRelease k _) => ¬ s.Stale k
  | .next .done => False
  | _ => True

/-- What comes next for a worker. -/
def Next.Works : Next → Prop
  | .pop _ | .dispatch _ _ => True
  | .mqRelease _ next | .dropQueue _ next => next.Works
  | .publish _ | .retire _ | .done => False

/-- A worker. -/
def Task.Works : Task D → Prop
  | .loop _ _ _ _ | .popped _ _ _ _ _ | .running _ _ _ _ _ | .finish _ _ | .pushBack _ _ _ => True
  | .next nx | .push _ _ nx | .release _ nx | .delete _ nx | .retire _ nx | .report _ _ nx =>
    nx.Works
  | .mqCreate _ | .init _ => False

/-- A worker is one for ever. -/
theorem works_advance {s : State D} {t : Task D} (h : t.Works) (ok : Bool) :
    (s.advance ok t).2.Works := by
  cases t with
  | next nx =>
    cases nx with
    | pop w | dispatch w k =>
      rw [State.advance]
      split
      · trivial
      · trivial
    | mqRelease k nx | dropQueue k nx =>
      rw [State.advance]
      split
      · exact h
      · exact h
    | publish _ | retire _ | done => exact h.elim
  | loop w k i n =>
    rw [State.advance]
    split
    · split
      · trivial
      · trivial
    · trivial
  | popped w k i n m =>
    rcases i with _ | i
    · rcases w with _ | shift
      · trivial
      · trivial
    · trivial
  | finish w k =>
    rw [State.advance]
    split
    · trivial
    · trivial
  | report k m nx =>
    rw [State.advance]
    split
    · exact h
    · split
      · exact h
      · exact h
  | release k nx | retire k nx =>
    rw [State.advance]
    split
    · exact h
    · exact h
  | push k m nx | delete k nx => exact h
  | running _ _ _ _ _ | pushBack _ _ _ => trivial
  | mqCreate _ | init _ => exact h.elim

/-- If no task has begun anything, no service is stale. -/
theorem not_stale_of_next {s : State D} (hs : Inv s) (h : ∀ t ∈ s.tasks, ∃ nx, t = .next nx)
    (k : ℕ) : ¬ s.Stale k := by
  rintro ⟨hlisted, hrelease⟩
  have hzero {f : Task D → ℕ} (hf : ∀ nx, f (.next nx) = 0) : total f s.tasks = 0 := by
    by_contra hne
    obtain ⟨t, ht, hpos⟩ := exists_pos (Nat.pos_of_ne_zero hne)
    obtain ⟨nx, rfl⟩ := h t ht
    rw [hf] at hpos
    exact Nat.lt_irrefl 0 hpos
  have hrefs : (s.tally k).refs = 0 := hzero fun _ => rfl
  have hmarks : (s.tally k).marks = 0 := hzero fun _ => rfl
  have href := (hs.ok k).ref
  have hm := (hs.ok k).marks
  rw [hlisted, if_neg Bool.false_ne_true, hrefs] at href
  have hzero : (s.service k).ref = 0 := href
  rw [hrelease, if_neg Bool.false_ne_true, hmarks, if_pos hzero] at hm
  cases hm

/-- A node that is not at rest can go on. -/
theorem exists_goesOn {s : State D} (hs : Inv s) (hworker : ∃ t ∈ s.tasks, t.Works)
    (hrest : ¬ s.Rest) : ∃ t ∈ s.tasks, s.GoesOn t := by
  by_cases hnext : ∀ t ∈ s.tasks, ∃ nx, t = .next nx
  · have hstale := not_stale_of_next hs hnext
    by_cases hidle : ∀ t ∈ s.tasks, t.idle = true
    · obtain ⟨t, ht, hworks⟩ := hworker
      obtain ⟨k, global, hglobal⟩ : ∃ k global, s.global = k :: global :=
        List.exists_cons_of_ne_nil fun hglobal => hrest ⟨hglobal, hidle⟩
      have hpop := hidle t ht
      match t with
      | .next (.pop w) => exact ⟨_, ht, k, by rw [hglobal]; rfl, hstale k⟩
      | .next .done => exact hworks.elim
    · push Not at hidle
      obtain ⟨t, ht, hidle⟩ := hidle
      obtain ⟨nx, rfl⟩ := hnext t ht
      refine ⟨_, ht, ?_⟩
      cases nx with
      | pop w => exact absurd rfl hidle
      | dispatch w k | mqRelease k nx => exact hstale k
      | done => exact absurd rfl hidle
      | publish _ | retire _ | dropQueue _ _ => trivial
  · push Not at hnext
    obtain ⟨t, ht, hnext⟩ := hnext
    refine ⟨t, ht, ?_⟩
    cases t with
    | next nx => exact absurd rfl (hnext nx)
    | loop _ _ _ _ | popped _ _ _ _ _ | running _ _ _ _ _ | finish _ _ | pushBack _ _ _
    | report _ _ _ | push _ _ _ | release _ _ | delete _ _ | mqCreate _ | init _ | retire _ _ =>
      trivial

/-! ## The potential -/

/-- Somebody is told when the message is dropped. -/
def State.Told (s : State D) (m : Message D) : Prop := ∃ j ∈ m.source, (s.service j).listed = true

instance (s : State D) (m : Message D) : Decidable (s.Told m) :=
  inferInstanceAs (Decidable (∃ j ∈ m.source, (s.service j).listed = true))

/-- What a message in a queue costs: more if somebody is told when it is dropped. -/
def State.worth (s : State D) (m : Message D) : ℕ := if s.Told m then 24 else 12

/-- What a queue in the global queue costs. -/
def State.entry (s : State D) (k : ℕ) : ℕ := if (s.service k).listed = true then 5 else 4

/-- What comes next costs this many steps at most, apart from messages and from the global
queue. The queue of a stale service costs the same wherever a worker that spins has it. -/
def Next.cost (s : State D) : Next → ℕ
  | .pop _ | .done => 0
  | .dispatch _ k => if (s.service k).mq.release = true then 3 else 4
  | .publish _ => 6
  | .retire _ => 10
  | .mqRelease k next => next.cost s +
    if (s.service k).mq.release = true then 2
    else if (s.service k).listed = true then 6
    else 4
  | .dropQueue _ next => next.cost s + 1

/-- What a task costs. -/
def Task.cost (s : State D) : Task D → ℕ
  | .next nx => nx.cost s
  | .loop _ _ i n => if i = 0 ∧ 0 < n then 3 else 10
  | .popped _ _ _ _ _ => 12
  | .running _ _ _ _ _ => 11
  | .finish _ _ => 9
  | .pushBack _ _ _ => 12
  | .report _ m nx => nx.cost s + 2 + if s.Told m then 21 else 0
  | .push _ m nx => nx.cost s + s.worth m + 8
  | .release _ nx => nx.cost s + 2
  | .delete _ nx => nx.cost s + 1
  | .mqCreate _ => 14
  | .init _ => 13
  | .retire _ nx => nx.cost s + 3

/-- What a service costs: its messages, and the release of its queue. -/
def Service.cost (s : State D) (sv : Service D) : ℕ :=
  total s.worth sv.waiting + if sv.mq.release = true then 0 else 5

/-- The steps that a node can take, by the prices of `e`. -/
def State.potential (s e : State D) : ℕ :=
  total e.entry s.global + total (fun k => (s.service k).cost e) (List.range s.count) +
    total (Task.cost e) s.tasks

/-- Services are retired and queues are marked; never the other way. -/
structure Later (s s' : State D) : Prop where
  count : s'.count = s.count
  listed : ∀ k, (s'.service k).listed = true → (s.service k).listed = true
  release : ∀ k, (s.service k).mq.release = true → (s'.service k).mq.release = true

theorem ite_le_ite {a b : ℕ} (hab : a ≤ b) {p q : Prop} [Decidable p] [Decidable q] (h : p → q) :
    (if p then b else a) ≤ if q then b else a := by
  split_ifs with hp hq
  · exact Nat.le_refl b
  · exact absurd (h hp) hq
  · exact hab
  · exact Nat.le_refl a

section Later

variable {s s' : State D} (h : Later s s')

include h

/-- Whoever is in the table later was in it before. -/
theorem Later.told {m : Message D} : s'.Told m → s.Told m :=
  fun ⟨j, hj, hlisted⟩ => ⟨j, hj, h.listed j hlisted⟩

theorem Later.worth_le (m : Message D) : s'.worth m ≤ s.worth m :=
  ite_le_ite (by omega) h.told

theorem Later.entry_le (k : ℕ) : s'.entry k ≤ s.entry k := ite_le_ite (by omega) (h.listed k)

theorem Later.next_le (nx : Next) : nx.cost s' ≤ nx.cost s := by
  induction nx with
  | dispatch w k =>
    have hrelease := h.release k
    dsimp only [Next.cost]
    split_ifs <;> first | omega | exact absurd (hrelease ‹_›) ‹_›
  | mqRelease k nx ih =>
    apply Nat.add_le_add ih
    have hrelease := h.release k
    have hlisted := h.listed k
    split_ifs <;> first | omega | exact absurd (hrelease ‹_›) ‹_› | exact absurd (hlisted ‹_›) ‹_›
  | dropQueue k nx ih => exact Nat.add_le_add_right ih 1
  | pop _ | publish _ | retire _ | done => exact Nat.le_refl _

theorem Later.task_le (t : Task D) : t.cost s' ≤ t.cost s := by
  cases t with
  | next nx => exact h.next_le nx
  | report k m nx =>
    exact Nat.add_le_add (Nat.add_le_add_right (h.next_le nx) 2)
      (ite_le_ite (Nat.zero_le 21) h.told)
  | push k m nx => exact Nat.add_le_add_right (Nat.add_le_add (h.next_le nx) (h.worth_le m)) 8
  | release k nx => exact Nat.add_le_add_right (h.next_le nx) 2
  | delete k nx => exact Nat.add_le_add_right (h.next_le nx) 1
  | retire k nx => exact Nat.add_le_add_right (h.next_le nx) 3
  | loop _ _ _ _ | popped _ _ _ _ _ | running _ _ _ _ _ | finish _ _ | pushBack _ _ _ | mqCreate _
  | init _ => exact Nat.le_refl _

/-- What everything costs does not rise. -/
theorem Later.potential_le (u : State D) : u.potential s' ≤ u.potential s := by
  apply Nat.add_le_add
  · apply Nat.add_le_add
    · exact total_le_total fun k _ => h.entry_le k
    · apply total_le_total
      intro k _
      exact Nat.add_le_add_right (total_le_total fun m _ => h.worth_le m) _
  · exact total_le_total fun t _ => h.task_le t

end Later

/-- A step uses up `n`, by the prices before it. -/
structure Uses (n : ℕ) (s : State D) (t : Task D) (s' : State D) (t' : Task D) : Prop where
  later : Later s s'
  uses : total s.entry s'.global + total (fun k => (s'.service k).cost s) (List.range s.count) +
      t'.cost s + n ≤
    total s.entry s.global + total (fun k => (s.service k).cost s) (List.range s.count) + t.cost s

theorem Uses.potential_le {n : ℕ} {s s' : State D} {i : ℕ} {t t' : Task D}
    (hi : s.tasks[i]? = some t) (h : Uses n s t s' t') :
    let s₁ : State D := { s' with tasks := s.tasks.set i t' }
    s₁.potential s₁ + n ≤ s.potential s := by
  intro s₁
  have hlater : Later s s₁ := ⟨h.later.count, h.later.listed, h.later.release⟩
  have hle := hlater.potential_le s₁
  have huses := h.uses
  have htasks := total_set (Task.cost s) hi t'
  have hcount : s₁.count = s.count := h.later.count
  have hprices : s₁.potential s + n ≤ s.potential s := by
    rw [State.potential, State.potential, hcount]
    dsimp only [s₁]
    omega
  omega

/-- Queues are passed on. -/
theorem Uses.of_global {n : ℕ} {s : State D} {t t' : Task D} {global : List ℕ}
    (h : total s.entry global + t'.cost s + n ≤ total s.entry s.global + t.cost s) :
    Uses n s t { s with global := global } t' :=
  ⟨⟨rfl, fun _ h => h, fun _ h => h⟩, by dsimp only; omega⟩

/-- A service changes. -/
theorem Uses.of_service {n : ℕ} {s : State D} {t t' : Task D} {k : ℕ} {sv : Service D}
    {global : List ℕ} (hk : k < s.count)
    (hlisted : sv.listed = true → (s.service k).listed = true)
    (hrelease : (s.service k).mq.release = true → sv.mq.release = true)
    (h : total s.entry global + sv.cost s + t'.cost s + n ≤
      total s.entry s.global + (s.service k).cost s + t.cost s) :
    Uses n s t { s with service := Function.update s.service k sv, global := global } t' := by
  refine ⟨⟨rfl, fun k' hl => ?_, fun k' hr => ?_⟩, ?_⟩
  · dsimp only at hl
    rcases eq_or_ne k' k with rfl | hne
    · rw [Function.update_self] at hl
      exact hlisted hl
    · rwa [Function.update_of_ne hne] at hl
  · dsimp only
    rcases eq_or_ne k' k with rfl | hne
    · rw [Function.update_self]
      exact hrelease hr
    · rwa [Function.update_of_ne hne]
  · have hother (k' : ℕ) (hne : k' ≠ k) :
        (Function.update s.service k sv k').cost s = (s.service k').cost s := by
      rw [Function.update_of_ne hne]
    have htotal := total_update List.nodup_range (List.mem_range.mpr hk) hother
    rw [Function.update_self] at htotal
    dsimp only
    omega

/-- A service changes, but not what it costs. -/
theorem Uses.of_modify {n : ℕ} {s : State D} {t t' : Task D} {k : ℕ} {f : Service D → Service D}
    (hk : k < s.count) (hlisted : (f (s.service k)).listed = true → (s.service k).listed = true)
    (hqueue : (f (s.service k)).mq.queue = (s.service k).mq.queue)
    (hrelease : (f (s.service k)).mq.release = (s.service k).mq.release)
    (h : t'.cost s + n ≤ t.cost s) : Uses n s t (s.modify k f) t' := by
  refine .of_service hk hlisted hrelease.trans ?_
  have hcost : (f (s.service k)).cost s = (s.service k).cost s := by
    rw [Service.cost, Service.cost, Service.waiting, Service.waiting, hqueue, hrelease]
  omega

/-- A message is popped. -/
theorem Uses.of_pop {n : ℕ} {s : State D} {t t' : Task D} {k : ℕ} {f : Service D → Service D}
    (hk : k < s.count) (hlisted : (f (s.service k)).listed = true → (s.service k).listed = true)
    {m : Message D} (hqueue : (s.service k).waiting = m :: (f (s.service k)).waiting)
    (hrelease : (f (s.service k)).mq.release = (s.service k).mq.release)
    (h : t'.cost s + n ≤ t.cost s + s.worth m) : Uses n s t (s.modify k f) t' := by
  refine .of_service hk hlisted hrelease.trans ?_
  have hcost : (s.service k).cost s = s.worth m + (f (s.service k)).cost s := by
    rw [Service.cost, Service.cost, hqueue, hrelease, total_cons]
    exact Nat.add_assoc ..
  omega

/-- A task goes on. -/
theorem Uses.of_task {n : ℕ} {s : State D} {t t' : Task D} (h : t'.cost s + n ≤ t.cost s) :
    Uses n s t s t' :=
  .of_global (by omega)

/-- A queue is put into the global queue. -/
theorem Uses.of_globalmqPush {n : ℕ} {s : State D} {t t' : Task D} {k : ℕ}
    (hthere : (s.service k).mq.There) (hk : k ∉ s.global)
    (h : t'.cost s + s.entry k + n ≤ t.cost s) : Uses n s t (s.globalmqPush k) t' := by
  rw [globalmqPush_eq hthere hk]
  apply Uses.of_global
  rw [total_append, total_cons, total_nil]
  omega

/-- A worker takes the first queue of the global queue. -/
theorem Uses.of_globalmqPop {n : ℕ} {s : State D} {t t' : Task D} {k : ℕ} {global : List ℕ}
    (hglobal : s.global = k :: global) (h : t'.cost s + n ≤ t.cost s + s.entry k) :
    Uses n s t { s with global := global } t' := by
  apply Uses.of_global
  rw [hglobal, total_cons]
  omega

theorem le_worth (s : State D) (m : Message D) : 12 ≤ s.worth m := by
  rw [State.worth]
  split_ifs
  · exact Nat.le_add_right 12 12
  · exact Nat.le_refl 12

/-- A queue costs at most five in the global queue. -/
theorem entry_le (s : State D) (k : ℕ) : s.entry k ≤ 5 := by
  rw [State.entry]
  split_ifs
  · exact Nat.le_refl 5
  · exact Nat.le_succ 4

theorem le_entry (s : State D) (k : ℕ) : 4 ≤ s.entry k := by
  rw [State.entry]
  split_ifs
  · exact Nat.le_succ 4
  · exact Nat.le_refl 4

theorem dispatch_cost_le (s : State D) (w : Option ℕ) (k : ℕ) :
    (Next.dispatch w k).cost s ≤ 4 := by
  rw [Next.cost]
  split_ifs
  · exact Nat.le_succ 3
  · exact Nat.le_refl 4

/-- If nobody can refer to a service, it is not in the table. -/
theorem Ok.not_listed {sv : Service D} {t : Tally D} (h : Ok sv t)
    (hrelease : sv.mq.release = true) : sv.listed = false := by
  by_contra hlisted
  have hpos := h.ref_pos (.inr (eq_true_of_ne_false hlisted))
  exact absurd ((h.not_release (by omega)).1.symm.trans hrelease) Bool.false_ne_true

/-- What is not stale is in the table, or marked for release. -/
theorem Inv.of_not_stale {s : State D} (hs : Inv s) {k : ℕ} (h : ¬ s.Stale k) :
    ((s.service k).listed = true ∧ (s.service k).mq.release = false) ∨
      (s.service k).listed = false ∧ (s.service k).mq.release = true := by
  rcases hrelease : (s.service k).mq.release
  · exact .inl ⟨eq_true_of_ne_false fun hlisted => h ⟨hlisted, hrelease⟩, rfl⟩
  · exact .inr ⟨(hs.ok k).not_listed hrelease, rfl⟩

/-- The steps of a worker, and of a thread with a queue to free. -/
theorem next_uses {s : State D} (hs : Inv s) {i : ℕ} {nx : Next}
    (hi : s.tasks[i]? = some (.next nx)) (hgo : s.GoesOn (.next nx)) (ok : Bool) :
    Uses 1 s (.next nx) (s.advance ok (.next nx)).1 (s.advance ok (.next nx)).2 := by
  cases nx with
  | pop w =>
    rw [State.advance]
    obtain ⟨k, hk, hstale⟩ := hgo
    rcases hglobal : s.global with _ | ⟨j, global⟩
    · rw [hglobal] at hk
      cases hk
    · rw [hglobal] at hk
      obtain rfl := Option.some.inj hk
      apply Uses.of_globalmqPop hglobal
      dsimp only [Task.cost, Next.cost, State.entry]
      -- the queue at the head is of a live service or of a marked one: only then is a step counted
      rcases hs.of_not_stale hstale with ⟨hlisted, hrelease⟩ | ⟨hlisted, hrelease⟩
      · rw [hlisted, hrelease, if_neg Bool.false_ne_true, if_pos rfl]
      · rw [hlisted, hrelease, if_pos rfl, if_neg Bool.false_ne_true]
  | dispatch w k =>
    have hk : 0 < (Task.next (.dispatch w k) : Task D).hands k := by simp [Task.hands, Next.hands]
    obtain ⟨hthere, -, hcount, -⟩ := in_hands hs hi hk rfl
    rw [State.advance, useQueue_eq hthere]
    rcases grab_cases hs k with ⟨hlisted, hgrab⟩ | ⟨hlisted, hgrab⟩
    · rw [hgrab]
      dsimp only
      refine Uses.of_modify hcount (fun h => h) rfl rfl ?_
      rcases hs.of_not_stale hgo with ⟨-, hrelease⟩ | ⟨hunlisted, -⟩
      · dsimp only [Task.cost, Next.cost]
        rw [hrelease]
        exact Nat.le_refl 4
      -- not in the table, so the grab would have failed
      · exact absurd (hlisted.symm.trans hunlisted) Bool.true_eq_false.mp
    · rw [hgrab]
      rcases hs.of_not_stale hgo with ⟨hlisted', -⟩ | ⟨-, hrelease⟩
      · exact absurd (hlisted'.symm.trans hlisted) Bool.true_eq_false.mp
      · apply Uses.of_task
        dsimp only [Task.cost, Next.cost]
        rw [if_pos hrelease, if_pos hrelease]
  | publish k =>
    have hk : 0 < (Task.next (.publish k) : Task D).hands k := by simp [Task.hands, Next.hands]
    obtain ⟨hthere, hglobal, -, -⟩ := in_hands hs hi hk rfl
    have hentry := entry_le s k
    rw [State.advance]
    exact Uses.of_globalmqPush hthere hglobal (by dsimp only [Task.cost, Next.cost]; omega)
  | retire k =>
    rw [State.advance]
    apply Uses.of_task
    dsimp only [Task.cost, Next.cost]
    split_ifs
    · omega
    · omega
    · omega
  | mqRelease k nx =>
    have hk : 0 < (Task.next (.mqRelease k nx) : Task D).hands k :=
      Nat.lt_add_right _ (Nat.lt_of_lt_of_eq Nat.zero_lt_one (one_self k).symm)
    obtain ⟨hthere, hglobal, -, -⟩ := in_hands hs hi hk rfl
    have hentry := entry_le s k
    rw [State.advance, useQueue_eq hthere]
    rcases hs.of_not_stale hgo with ⟨hlisted, hrelease⟩ | ⟨-, hrelease⟩
    -- `Inv` does not say that the grab failed, so the cost allows for a service in the table
    · rw [if_neg (Bool.eq_false_iff.mp hrelease)]
      apply Uses.of_globalmqPush hthere hglobal
      dsimp only [Task.cost, Next.cost]
      rw [if_neg (Bool.eq_false_iff.mp hrelease), if_pos hlisted]
      omega
    · rw [if_pos hrelease]
      apply Uses.of_task
      dsimp only [Task.cost, Next.cost]
      rw [if_pos hrelease]
  | dropQueue k nx =>
    have hk : 0 < (Task.next (.dropQueue k nx) : Task D).hands k :=
      Nat.lt_add_right _ (Nat.lt_of_lt_of_eq Nat.zero_lt_one (one_self k).symm)
    obtain ⟨hthere, hglobal, hcount, -⟩ := in_hands hs hi hk rfl
    rw [State.advance]
    rcases mqPop_cases hthere with ⟨m, queue, hqueue, hpop⟩ | ⟨-, hpop⟩
    · rw [hpop]
      dsimp only
      rw [modify_modify]
      refine Uses.of_pop hcount (fun h => h) hqueue rfl ?_
      dsimp only [Task.cost, Next.cost, State.worth]
      split_ifs
      · omega
      · omega
    · rw [hpop]
      dsimp only
      rw [modify_mqFree ⟨hthere.freed, hthere.making⟩ hglobal]
      exact Uses.of_modify hcount (fun h => h) rfl rfl (Nat.le_refl _)
  | done => exact hgo.elim

/-- `skynet_mq_push`: the message pays. -/
theorem push_uses {s : State D} (hs : Inv s) {i : ℕ} {k : ℕ} {m : Message D} {nx : Next}
    (hi : s.tasks[i]? = some (.push k m nx)) :
    Uses 1 s (.push k m nx) (s.mqPush k m) (.release k nx) := by
  obtain ⟨-, hthere, hrelease, hcount, -⟩ := of_push hs hi
  have hwaiting : ((s.service k).pushed m).waiting = (s.service k).waiting ++ [m] :=
    RingBuffer.toList_push (· * 2) lt_double (s.service k).mq.queue m
  have hcost : ((s.service k).pushed m).cost s = (s.service k).cost s + s.worth m := by
    rw [Service.cost, Service.cost, hwaiting, total_append, total_cons, total_nil]
    exact Nat.add_right_comm ..
  have hentry := entry_le s k
  rw [mqPush_eq hthere m fun hin => not_in_global hs hthere.freed hin hrelease]
  refine .of_service hcount (fun h => h) (fun h => h) ?_
  rw [hcost]
  dsimp only [Task.cost]
  split_ifs
  · rw [total_append, total_cons, total_nil]
    omega
  · omega

/-- `skynet_mq_mark_release`: the service pays. -/
theorem delete_uses {s : State D} (hs : Inv s) {i : ℕ} {k : ℕ} {nx : Next}
    (hi : s.tasks[i]? = some (.delete k nx)) :
    Uses 1 s (.delete k nx) (s.mqMarkRelease k) (.next nx) := by
  obtain ⟨hk, hthere, hrelease⟩ := of_delete hs hi
  have hentry := entry_le s k
  rw [mqMarkRelease_eq hthere hrelease fun hin => not_in_global hs hthere.freed hin hrelease]
  refine .of_service (lt_count hs (.inr (.inr hk))) (fun h => h) (fun _ => rfl) ?_
  rw [Service.cost, Service.cost, hrelease, if_neg Bool.false_ne_true]
  dsimp only [Task.cost, Service.waiting]
  rw [if_pos rfl]
  split_ifs
  · rw [total_append, total_cons, total_nil]
    omega
  · omega

/-- **A step uses up potential**, if it does not only pass a stale queue on. -/
theorem advance_uses {s : State D} (hs : Inv s) {i : ℕ} {t : Task D} (hi : s.tasks[i]? = some t)
    (hgo : s.GoesOn t) (ok : Bool) : Uses 1 s t (s.advance ok t).1 (s.advance ok t).2 := by
  cases t with
  | next nx => exact next_uses hs hi hgo ok
  | loop w k j n =>
    have hk : 0 < (Task.loop w k j n : Task D).hands k :=
      Nat.lt_of_lt_of_eq Nat.zero_lt_one (one_self k).symm
    obtain ⟨hthere, -, hcount, -⟩ := in_hands hs hi hk rfl
    rw [State.advance]
    split_ifs with hn
    · rcases mqPop_cases hthere with ⟨m, queue, hqueue, hpop⟩ | ⟨-, hpop⟩
      · rw [hpop]
        dsimp only
        refine Uses.of_pop hcount (fun h => h) hqueue rfl ?_
        have hworth := le_worth s m
        dsimp only [Task.cost]
        split_ifs
        · omega
        · omega
      · rw [hpop]
        dsimp only
        refine Uses.of_modify hcount (fun h => h) rfl rfl ?_
        dsimp only [Task.cost, Next.cost]
        split_ifs
        · omega
        · omega
    -- the rounds are over: the thread takes its next queue, or keeps this one
    · apply Uses.of_task
      dsimp only [Task.cost]
      rw [if_neg (by omega)]
  | popped w k j n m =>
    have hk : 0 < (Task.popped w k j n m).hands k := by simp [Task.hands]
    have hgo (n' : ℕ) : Uses 1 s (.popped w k j n m) s (.running w k j n' m) :=
      Uses.of_task (Nat.le_refl 12)
    rcases j with _ | j
    · rcases w with _ | shift
      · exact hgo n
      · rw [State.advance, State.mqLength, useQueue_eq (in_hands hs hi hk rfl).1]
        exact hgo _
    · exact hgo n
  | running w k j n m =>
    have hk : 0 < (Task.running w k j n m).refs k :=
      Nat.lt_of_lt_of_eq Nat.zero_lt_one (one_self k).symm
    obtain ⟨-, hpos, -, -, hcount⟩ := in_refs hs hi hk
    rw [State.advance, useContext_eq hpos]
    dsimp only
    refine Uses.of_modify hcount (fun h => h) rfl rfl ?_
    dsimp only [Task.cost]
    rw [if_neg fun h => Nat.succ_ne_zero j h.1]
  | finish w k =>
    have hdispatch := dispatch_cost_le s w k
    rw [State.advance]
    rcases hglobal : s.global with _ | ⟨j, global⟩
    · exact Uses.of_task (by dsimp only [Task.cost]; omega)
    · have hentry := le_entry s j
      exact Uses.of_globalmqPop hglobal (by dsimp only [Task.cost]; omega)
  | pushBack w k j =>
    have hk : 0 < (Task.pushBack w k j : Task D).hands k :=
      Nat.lt_add_right _ (Nat.lt_of_lt_of_eq Nat.zero_lt_one (one_self k).symm)
    obtain ⟨hthere, hglobal, -, -⟩ := in_hands hs hi hk rfl
    have hentry := entry_le s k
    have hdispatch := dispatch_cost_le s w j
    rw [State.advance]
    exact Uses.of_globalmqPush hthere hglobal (by dsimp only [Task.cost]; omega)
  | report k m nx =>
    have hrelease := hs.empties _ (List.mem_of_getElem? hi) k (.inl rfl)
    have hlisted := (hs.ok k).not_listed hrelease
    -- the error comes from a service out of the table, so dropping it reports nothing further:
    -- this is why the reports do not go on for ever
    have herror : ¬ s.Told (errorFrom D k) := by
      rintro ⟨j, hj, hl⟩
      obtain rfl := Option.some.inj hj
      exact absurd (hlisted.symm.trans hl) Bool.false_ne_true
    rw [State.advance]
    rcases hsource : m.source with _ | j
    · apply Uses.of_task
      dsimp only [Task.cost, Next.cost]
      omega
    · rcases grab_cases hs j with ⟨hl, hgrab⟩ | ⟨-, hgrab⟩
      · dsimp only
        rw [hgrab]
        have hpos := (hs.ok j).ref_pos (.inr hl)
        have hcount : j < s.count := lt_count hs (.inr (.inl (by omega)))
        have htold : s.Told m := ⟨j, hsource, hl⟩
        dsimp only
        refine Uses.of_modify hcount (fun h => h) rfl rfl ?_
        dsimp only [Task.cost, Next.cost, State.worth]
        rw [if_pos htold, if_neg herror]
        omega
      · dsimp only
        rw [hgrab]
        apply Uses.of_task
        dsimp only [Task.cost, Next.cost]
        omega
  | push k m nx => exact push_uses hs hi
  | release k nx =>
    have hk : 0 < (Task.release k nx : Task D).refs k :=
      Nat.lt_of_lt_of_eq Nat.zero_lt_one (one_self k).symm
    obtain ⟨-, hpos, -, -, hcount⟩ := in_refs hs hi hk
    rw [State.advance, useContext_eq hpos]
    split_ifs
    · dsimp only
      exact Uses.of_modify hcount (fun h => h) rfl rfl (Nat.le_refl _)
    · dsimp only
      refine Uses.of_modify hcount (fun h => h) rfl rfl ?_
      dsimp only [Task.cost]
      omega
  | delete k nx => exact delete_uses hs hi
  | mqCreate k =>
    have hone : 0 < one k k := Nat.lt_of_lt_of_eq Nat.zero_lt_one (one_self k).symm
    obtain ⟨-, hpos, -, -, hcount⟩ := in_refs hs hi hone
    have hmakes : 0 < (s.tally k).makes := Nat.lt_of_lt_of_le hone (le_total (Task.makes k) hi)
    -- nothing was sent before the queue is made, so making it throws nothing away
    have hunmade := (hs.ok k).unmade ((hs.ok k).making hmakes)
    rw [State.advance, useContext_eq hpos]
    dsimp only
    refine Uses.of_modify hcount (fun h => h) ?_ ?_ (Nat.le_refl 14)
    · rw [hunmade]
      rfl
    · rw [hunmade]
      rfl
  | init k =>
    rw [State.advance]
    apply Uses.of_task
    cases ok with
    | false => exact Nat.le_refl 13
    | true => exact Nat.le_add_left 9 4
  | retire k nx =>
    rw [State.advance]
    split_ifs with hlisted
    · have hpos := (hs.ok k).ref_pos (.inr hlisted)
      have hcount : k < s.count := lt_count hs (.inr (.inl (by omega)))
      dsimp only
      exact Uses.of_modify hcount (fun _ => hlisted) rfl rfl (Nat.le_refl _)
    · exact Uses.of_task (by dsimp only [Task.cost]; omega)

/-- A stale queue that is passed on costs what it did. -/
theorem advance_uses_none {s : State D} (hs : Inv s) {i : ℕ} {t : Task D}
    (hi : s.tasks[i]? = some t) (hgo : ¬ s.GoesOn t) (ok : Bool) :
    Uses 0 s t (s.advance ok t).1 (s.advance ok t).2 := by
  cases t with
  | next nx =>
    cases nx with
    | pop w =>
      rw [State.advance]
      rcases hglobal : s.global with _ | ⟨k, global⟩
      · exact Uses.of_task (Nat.le_refl _)
      -- what is popped here is stale, a queue whose service is out of the table and not yet marked:
      -- the worker finds nothing to do and puts it back, for the same cost
      · have hstale : s.Stale k := by
          by_contra hstale
          exact hgo ⟨k, by rw [hglobal]; rfl, hstale⟩
        have hdispatch := dispatch_cost_le s w k
        have hentry := le_entry s k
        apply Uses.of_globalmqPop hglobal
        dsimp only [Task.cost] at hdispatch ⊢
        omega
    | dispatch w k =>
      have hk : 0 < (Task.next (.dispatch w k) : Task D).hands k := by
        simp [Task.hands, Next.hands]
      obtain ⟨hlisted, hrelease⟩ := not_not.mp hgo
      rw [State.advance, useQueue_eq (in_hands hs hi hk rfl).1]
      rcases grab_cases hs k with ⟨hlisted', -⟩ | ⟨-, hgrab⟩
      · exact absurd (hlisted'.symm.trans hlisted) Bool.true_eq_false.mp
      · rw [hgrab]
        apply Uses.of_task
        dsimp only [Task.cost, Next.cost]
        rw [hlisted, hrelease]
        exact Nat.le_refl 4
    | mqRelease k nx =>
      have hk : 0 < (Task.next (.mqRelease k nx) : Task D).hands k :=
        Nat.lt_add_right _ (Nat.lt_of_lt_of_eq Nat.zero_lt_one (one_self k).symm)
      obtain ⟨hthere, hglobal, -, -⟩ := in_hands hs hi hk rfl
      obtain ⟨hlisted, hrelease⟩ := not_not.mp hgo
      rw [State.advance, useQueue_eq hthere, if_neg (Bool.eq_false_iff.mp hrelease)]
      apply Uses.of_globalmqPush hthere hglobal
      dsimp only [Task.cost, Next.cost, State.entry]
      rw [hlisted, hrelease]
      exact Nat.le_refl _
    | done =>
      rw [State.advance]
      exact Uses.of_task (Nat.le_refl _)
    | publish _ | retire _ | dropQueue _ _ => exact absurd trivial hgo
  | loop _ _ _ _ | popped _ _ _ _ _ | running _ _ _ _ _ | finish _ _ | pushBack _ _ _
  | report _ _ _ | push _ _ _ | release _ _ | delete _ _ | mqCreate _ | init _ | retire _ _ =>
    exact absurd trivial hgo

/-! ## Runs without anything new -/

/-- Nothing new comes in: a task takes a step. -/
def Event.Own : Event D → Prop
  | .act _ _ => True
  | _ => False

instance (e : Event D) : Decidable e.Own :=
  match e with
  | .act _ _ => isTrue trivial
  | .send _ _ | .retire _ | .create => isFalse not_false

/-- A task goes on, other than passing a stale queue on. -/
def Event.GoesOn (s : State D) : Event D → Prop
  | .act i _ => ∃ t ∈ s.tasks[i]?, s.GoesOn t
  | _ => False

instance (s : State D) (t : Task D) : Decidable (s.GoesOn t) :=
  match t with
  | .next (.pop _) => inferInstanceAs (Decidable (∃ k ∈ s.global.head?, ¬ s.Stale k))
  | .next (.dispatch _ k) | .next (.mqRelease k _) => inferInstanceAs (Decidable (¬ s.Stale k))
  | .next .done => isFalse not_false
  | .next (.publish _) | .next (.retire _) | .next (.dropQueue _ _) | .loop _ _ _ _
  | .popped _ _ _ _ _ | .running _ _ _ _ _ | .finish _ _ | .pushBack _ _ _ | .report _ _ _
  | .push _ _ _ | .release _ _ | .delete _ _ | .mqCreate _ | .init _ | .retire _ _ =>
    isTrue trivial

instance (s : State D) (e : Event D) : Decidable (e.GoesOn s) :=
  match e with
  | .act i _ => inferInstanceAs (Decidable (∃ t ∈ s.tasks[i]?, s.GoesOn t))
  | .send _ _ | .retire _ | .create => isFalse not_false

/-- How many steps of a run go on, other than passing stale queues on. -/
def stepsOn (s : State D) (es : List (Event D)) : ℕ :=
  Machine.count step (fun s e => e.GoesOn s) s es

/-- A thread that goes on knows what it works on. -/
theorem Event.Own.knows {s : State D} {e : Event D} (he : e.Own) : e.Knows s := by
  cases e with
  | act i ok => trivial
  | send _ _ | retire _ | create => exact he.elim

/-- A step that goes on takes the potential down. -/
theorem goesOn_step {s s' : State D} (hs : Inv s) {e : Event D} (he : e.GoesOn s)
    (h : step s e = some s') : s'.potential s' < s.potential s := by
  cases e with
  | act i ok =>
    obtain ⟨t, hi, hgo⟩ := he
    obtain ⟨u, hu, rfl⟩ := Option.map_eq_some_iff.mp h
    obtain rfl := Option.some.inj (hi.symm.trans hu)
    exact (advance_uses hs hi hgo ok).potential_le hi
  | send _ _ | retire _ | create => exact he.elim

/-- No step raises the potential. -/
theorem own_step {s s' : State D} (hs : Inv s) {e : Event D} (he : e.Own)
    (h : step s e = some s') : s'.potential s' ≤ s.potential s := by
  by_cases hgo : e.GoesOn s
  · exact Nat.le_of_lt (goesOn_step hs hgo h)
  · cases e with
    | act i ok =>
      obtain ⟨t, hi, rfl⟩ := Option.map_eq_some_iff.mp h
      exact (advance_uses_none hs hi (fun hgo' => hgo ⟨t, hi, hgo'⟩) ok).potential_le hi
    | send _ _ | retire _ | create => exact he.elim

theorem guarded_of_own {s : State D} {es : List (Event D)} (h : ∀ e ∈ es, e.Own) :
    Machine.Guarded step (fun _ e => e.Own) s es := by
  induction es generalizing s with
  | nil => trivial
  | cons e es ih => exact ⟨h e (.head _), fun _ _ => ih fun d hd => h d (.tail _ hd)⟩

/-- There still is a worker after a step. -/
theorem works_step {s s' : State D} (e : Event D) (hs : ∃ t ∈ s.tasks, t.Works)
    (h : step s e = some s') : ∃ t ∈ s'.tasks, t.Works := by
  obtain ⟨t, ht, hworks⟩ := hs
  cases e with
  | act i ok =>
    obtain ⟨u, hi, rfl⟩ := Option.map_eq_some_iff.mp h
    obtain ⟨j, hj⟩ := List.mem_iff_getElem?.mp ht
    rcases eq_or_ne i j with rfl | hij
    · obtain rfl := Option.some.inj (hi.symm.trans hj)
      have hadvance : (s.advance ok u).2.Works := works_advance hworks ok
      exact ⟨_, List.mem_set (List.getElem?_eq_some_iff.mp hi).1 _, hadvance⟩
    · refine ⟨t, List.mem_iff_getElem?.mpr ⟨j, ?_⟩, hworks⟩
      exact (List.getElem?_set_ne hij).trans hj
  | send k m =>
    rw [step] at h
    rcases hgrab : s.grab k with _ | s₁
    · rw [hgrab] at h
      exact Option.some.inj h ▸ ⟨t, ht, hworks⟩
    · rw [hgrab] at h
      obtain rfl := Option.some.inj h
      refine ⟨t, List.mem_append_left _ ?_, hworks⟩
      rw [State.grab] at hgrab
      split_ifs at hgrab
      exact Option.some.inj hgrab ▸ ht
  | retire k | create =>
    obtain rfl := Option.some.inj h
    exact ⟨t, List.mem_append_left _ ht, hworks⟩

theorem works_run {weights : List (Option ℕ)} (hweights : weights ≠ []) {es : List (Event D)}
    {s : State D} (h : Machine.run step (State.start D weights) es = some s) :
    ∃ t ∈ s.tasks, t.Works := by
  obtain ⟨weight, hweight⟩ := List.exists_mem_of_ne_nil weights hweights
  have hworker : (.next (.pop weight) : Task D) ∈ (State.start D weights).tasks :=
    List.mem_map.mpr ⟨weight, hweight, rfl⟩
  exact Machine.run_induction (fun _ e _ hs hstep => works_step e hs hstep)
    ⟨_, hworker, trivial⟩ h

/-- The service is retired while it is handled, and while somebody who has sent to it has not
given back the reference. -/
def busyRetired : List (Event ℕ) := busy ++ [.retire 0, .act 5 true, .act 5 true]

/-- The worker spins until the last reference is given back. -/
def spinning : List (Event ℕ) :=
  List.replicate 20 (.act 0 true) ++ [.act 4 true, .act 4 true] ++ List.replicate 5 (.act 0 true)

end SlgServer.Scheduler
