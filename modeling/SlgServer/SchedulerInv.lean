import SlgServer.Scheduler

/-!
# Where the queues of services are

`places` counts where the queue of a service is: in the global queue, or in the hands of a
task. `refs` counts the references that tasks have to its context. `Ok` says what these
numbers have to do with the fields of the service; each kind of step keeps it.
-/

namespace SlgServer.Scheduler

open Pool

variable {D : Type}

/-! ## What tasks have -/

/-- One, for the service itself. -/
def one (k k' : ℕ) : ℕ := if k = k' then 1 else 0

@[simp] theorem one_self (k : ℕ) : one k k = 1 := if_pos rfl

@[simp] theorem one_of_ne {k k' : ℕ} (h : k ≠ k') : one k k' = 0 := if_neg h

/-- How often what comes next has the queue of `k'` in its hands. -/
def Next.hands (k' : ℕ) : Next → ℕ
  | .pop _ | .done => 0
  | .dispatch _ k | .publish k | .retire k => one k k'
  | .mqRelease k next | .dropQueue k next => one k k' + next.hands k'

/-- How often a task has the queue of `k'` in its hands. -/
def Task.hands (k' : ℕ) : Task D → ℕ
  | .next nx | .push _ _ nx | .release _ nx | .delete _ nx | .retire _ nx => nx.hands k'
  | .loop _ k _ _ | .popped _ k _ _ _ | .running _ k _ _ _ | .finish _ k | .mqCreate k
  | .init k => one k k'
  | .pushBack _ k j => one k k' + one j k'
  | .report k _ nx => one k k' + nx.hands k'

/-- How many references to the context of `k'` a task has. -/
def Task.refs (k' : ℕ) : Task D → ℕ
  | .next _ | .report _ _ _ | .delete _ _ | .retire _ _ => 0
  | .loop _ k _ _ | .popped _ k _ _ _ | .running _ k _ _ _ | .finish _ k | .pushBack _ k _
  | .push k _ _ | .release k _ | .mqCreate k | .init k => one k k'

/-- Whether a task is about to mark the queue of `k'` for release. -/
def Task.marks (k' : ℕ) : Task D → ℕ
  | .delete k _ => one k k'
  | _ => 0

/-- Whether a task is about to make the queue of `k'`. -/
def Task.makes (k' : ℕ) : Task D → ℕ
  | .mqCreate k => one k k'
  | _ => 0

/-- The message of `k'` that a task handles. -/
def Task.flight (k' : ℕ) : Task D → List (Message D)
  | .popped _ k _ _ m | .running _ k _ _ m => if k = k' then [m] else []
  | _ => []

/-- Whether what comes next empties the queue of `k'`. -/
def Next.Empties (k' : ℕ) : Next → Prop
  | .dropQueue k next => k = k' ∨ next.Empties k'
  | .mqRelease _ next => next.Empties k'
  | _ => False

/-- Whether a task empties the queue of `k'`. -/
def Task.Empties (k' : ℕ) : Task D → Prop
  | .next nx | .push _ _ nx | .release _ nx | .delete _ nx | .retire _ nx => nx.Empties k'
  | .report k _ nx => k = k' ∨ nx.Empties k'
  | _ => False

/-- What there is of a service, apart from itself. -/
structure Tally (D : Type) : Type where
  /-- how often its queue is in the global queue or in the hands of a task -/
  places : ℕ
  /-- how many references tasks have to its context -/
  refs : ℕ
  /-- how many tasks are about to mark its queue for release -/
  marks : ℕ
  /-- how many tasks are about to make its queue -/
  makes : ℕ
  /-- the messages that are handled -/
  flights : List (Message D)

/-- What there is of the service `k`. -/
def State.tally (s : State D) (k : ℕ) : Tally D where
  places := s.global.count k + total (Task.hands k) s.tasks
  refs := total (Task.refs k) s.tasks
  marks := total (Task.marks k) s.tasks
  makes := total (Task.makes k) s.tasks
  flights := s.tasks.flatMap (Task.flight k)

/-- What holds of a service. -/
structure Ok (sv : Service D) (t : Tally D) : Prop where
  /-- `ref` counts the references -/
  ref : sv.ref = t.refs + if sv.listed then 1 else 0
  /-- its queue is marked for release, once, after the last reference is gone -/
  marks : t.marks + (if sv.mq.release then 1 else 0) = if sv.ref = 0 then 1 else 0
  /-- a queue that was freed is nowhere, and empty -/
  freed : sv.mq.freed = true → sv.mq.release = true ∧ t.places = 0 ∧ sv.mq.queue.toList = []
  /-- any other queue is in one place, or its flag is cleared -/
  places : sv.mq.freed = false →
    t.places = if sv.mq.inGlobal = true ∨ sv.mq.release = true then 1 else 0
  /-- a queue that is nowhere is empty -/
  empty : sv.mq.inGlobal = false → sv.mq.release = false → sv.mq.queue.toList = []
  /-- messages are dropped after the last reference is gone -/
  dropped : sv.mq.release = false → sv.dropped = []
  /-- the messages pushed were handled, are handled, were dropped, or wait, in this order -/
  sent : sv.sent = sv.ran ++ t.flights ++ sv.dropped ++ sv.mq.queue.toList
  /-- a queue that is not there yet is being made -/
  makes : t.makes = if sv.mq.making then 1 else 0
  /-- and nobody has touched it -/
  unmade : sv.mq.making = true → sv.mq = MessageQueue.unmade D

/-! ## What `Ok` says -/

theorem Ok.places_le {sv : Service D} {t : Tally D} (h : Ok sv t) : t.places ≤ 1 := by
  rcases hfreed : sv.mq.freed
  · rw [h.places hfreed]
    split_ifs <;> omega
  · rw [(h.freed hfreed).2.1]
    exact Nat.zero_le 1

theorem Ok.not_freed {sv : Service D} {t : Tally D} (h : Ok sv t) (hplaces : 0 < t.places) :
    sv.mq.freed = false := by
  rcases hfreed : sv.mq.freed
  · rfl
  · rw [(h.freed hfreed).2.1] at hplaces
    exact absurd hplaces (Nat.lt_irrefl 0)

/-- A context to which there are references is there, and its queue too. -/
theorem Ok.not_release {sv : Service D} {t : Tally D} (h : Ok sv t) (href : sv.ref ≠ 0) :
    sv.mq.release = false ∧ sv.mq.freed = false := by
  have hmarks := h.marks
  rw [if_neg href] at hmarks
  have hrelease : sv.mq.release = false := by
    rcases hr : sv.mq.release
    · rfl
    · rw [if_pos hr] at hmarks
      omega
  refine ⟨hrelease, ?_⟩
  rcases hfreed : sv.mq.freed
  · rfl
  · exact absurd ((h.freed hfreed).1.symm.trans hrelease) Bool.true_eq_false.mp

theorem Ok.ref_pos {sv : Service D} {t : Tally D} (h : Ok sv t)
    (hrefs : 0 < t.refs ∨ sv.listed = true) : 0 < sv.ref := by
  have href := h.ref
  rcases hrefs with hrefs | hlisted
  · split_ifs at href <;> omega
  · rw [if_pos hlisted] at href
    omega

/-- A queue that is about to be marked for release was not. -/
theorem Ok.of_marks {sv : Service D} {t : Tally D} (h : Ok sv t) (hmarks : 0 < t.marks) :
    sv.ref = 0 ∧ t.marks = 1 ∧ sv.mq.release = false ∧ sv.mq.freed = false := by
  have hm := h.marks
  have href : sv.ref = 0 := by
    by_contra href
    rw [if_neg href] at hm
    omega
  have hrelease : sv.mq.release = false := by
    rcases hr : sv.mq.release
    · rfl
    · rw [if_pos hr, if_pos href] at hm
      omega
  rw [if_pos href, hrelease, if_neg Bool.false_ne_true] at hm
  refine ⟨href, hm, hrelease, ?_⟩
  rcases hfreed : sv.mq.freed
  · rfl
  · exact absurd ((h.freed hfreed).1.symm.trans hrelease) Bool.true_eq_false.mp

theorem Ok.not_making {sv : Service D} {t : Tally D} (h : Ok sv t) (hmakes : t.makes = 0) :
    sv.mq.making = false := by
  have hm := h.makes
  rcases hmaking : sv.mq.making
  · rfl
  · rw [hmakes, hmaking] at hm
    cases hm

theorem Ok.making {sv : Service D} {t : Tally D} (h : Ok sv t) (hmakes : 0 < t.makes) :
    sv.mq.making = true := by
  have hm := h.makes
  rcases hmaking : sv.mq.making
  · rw [hm, hmaking] at hmakes
    cases hmakes
  · rfl

/-! ## What keeps `Ok` -/

theorem Ok.unborn : Ok (Service.unborn D) ⟨0, 0, 0, 0, []⟩ where
  ref := rfl
  marks := rfl
  freed := fun _ => ⟨rfl, rfl, rfl⟩
  places := fun h => absurd h Bool.true_eq_false.mp
  empty := fun _ h => absurd h Bool.true_eq_false.mp
  dropped := fun _ => rfl
  sent := rfl
  makes := rfl
  unmade := fun h => absurd h Bool.false_ne_true

theorem Ok.register : Ok (Service.register D) ⟨1, 1, 0, 1, []⟩ where
  ref := rfl
  marks := rfl
  freed := fun h => absurd h Bool.false_ne_true
  places := fun _ => rfl
  empty := fun h => absurd h Bool.true_eq_false.mp
  dropped := fun _ => rfl
  sent := rfl
  makes := rfl
  unmade := fun _ => rfl

variable {sv : Service D} {t t' : Tally D}

/-- `skynet_handle_grab`. -/
theorem Ok.grab (h : Ok sv t) (hlisted : sv.listed = true) (hplaces : t'.places = t.places)
    (hrefs : t'.refs = t.refs + 1) (hmarks : t'.marks = t.marks)
    (hmakes : t'.makes = t.makes) (hflights : t'.flights = t.flights) :
    Ok { sv with ref := sv.ref + 1 } t' := by
  have hpos := h.ref_pos (.inr hlisted)
  have href := h.ref
  have hm := h.marks
  refine ⟨?_, ?_, fun hf => hplaces ▸ h.freed hf, fun hf => hplaces ▸ h.places hf, h.empty,
    h.dropped, hflights ▸ h.sent, hmakes ▸ h.makes, h.unmade⟩
  · dsimp only
    rw [hrefs]
    push_cast
    omega
  · have hne : sv.ref ≠ 0 := by omega
    have hne' : sv.ref + 1 ≠ 0 := by omega
    rw [if_neg hne] at hm
    dsimp only
    rw [hmarks, if_neg hne', hm]

/-- `skynet_handle_retire`: the reference of the table goes to the task. -/
theorem Ok.unlist (h : Ok sv t) (hlisted : sv.listed = true) (hplaces : t'.places = t.places)
    (hrefs : t'.refs = t.refs + 1) (hmarks : t'.marks = t.marks)
    (hmakes : t'.makes = t.makes) (hflights : t'.flights = t.flights) :
    Ok { sv with listed := false } t' := by
  have href := h.ref
  rw [if_pos hlisted] at href
  refine ⟨?_, hmarks ▸ h.marks, fun hf => hplaces ▸ h.freed hf, fun hf => hplaces ▸ h.places hf,
    h.empty, h.dropped, hflights ▸ h.sent, hmakes ▸ h.makes, h.unmade⟩
  dsimp only
  rw [hrefs, if_neg Bool.false_ne_true, href]
  push_cast
  omega

/-- `skynet_context_release`; after the last one the queue will be marked. -/
theorem Ok.unref (h : Ok sv t) (hpos : 0 < t.refs) (hplaces : t'.places = t.places)
    (hrefs : t'.refs + 1 = t.refs)
    (hmarks : t'.marks = t.marks + if sv.ref - 1 = 0 then 1 else 0)
    (hmakes : t'.makes = t.makes) (hflights : t'.flights = t.flights) :
    Ok { sv with ref := sv.ref - 1 } t' := by
  have hpos' := h.ref_pos (.inl hpos)
  have href := h.ref
  have hm := h.marks
  refine ⟨?_, ?_, fun hf => hplaces ▸ h.freed hf, fun hf => hplaces ▸ h.places hf, h.empty,
    h.dropped, hflights ▸ h.sent, hmakes ▸ h.makes, h.unmade⟩
  · dsimp only
    rw [href, ← hrefs]
    push_cast
    omega
  · have hne : sv.ref ≠ 0 := by omega
    rw [if_neg hne] at hm
    dsimp only
    rw [hmarks]
    omega

/-- `skynet_mq_create`: the queue is in the hands of the task, as it was. -/
theorem Ok.mqCreate (h : Ok sv t) (hmaking : sv.mq.making = true) (hplaces : t'.places = t.places)
    (hrefs : t'.refs = t.refs) (hmarks : t'.marks = t.marks) (hmakes : t'.makes + 1 = t.makes)
    (hflights : t'.flights = t.flights) : Ok { sv with mq := MessageQueue.create D } t' := by
  have hunmade := h.unmade hmaking
  obtain ⟨mq, ref, listed, sent, ran, dropped⟩ := sv
  dsimp only at hunmade
  subst hunmade
  refine ⟨hrefs ▸ h.ref, hmarks ▸ h.marks, fun hf => absurd hf Bool.false_ne_true,
    fun _ => hplaces ▸ h.places rfl, fun hg => absurd hg Bool.true_eq_false.mp, h.dropped,
    hflights ▸ h.sent, ?_, fun hm => absurd hm Bool.false_ne_true⟩
  have hone : t.makes = 1 := h.makes
  exact Nat.succ.inj (hmakes.trans hone)

/-- `skynet_mq_mark_release`. -/
theorem Ok.mark (h : Ok sv t) (hpos : 0 < t.marks) (hmaking : sv.mq.making = false)
    (hplaces : t'.places = t.places + if sv.mq.inGlobal = false then 1 else 0)
    (hrefs : t'.refs = t.refs) (hmarks : t'.marks + 1 = t.marks) (hmakes : t'.makes = t.makes)
    (hflights : t'.flights = t.flights) :
    Ok { sv with mq := { sv.mq with release := true } } t' := by
  obtain ⟨href, hone, hrelease, hfreed⟩ := h.of_marks hpos
  have hp := h.places hfreed
  refine ⟨hrefs ▸ h.ref, ?_, fun hf => absurd (hfreed.symm.trans hf) Bool.false_ne_true,
    fun _ => ?_, fun _ hr => absurd hr Bool.true_eq_false.mp,
    fun hr => absurd hr Bool.true_eq_false.mp, hflights ▸ h.sent, hmakes ▸ h.makes,
    fun hm => absurd (hmaking.symm.trans hm) Bool.false_ne_true⟩
  · dsimp only
    rw [if_pos href, if_pos rfl]
    omega
  · have hp' : t.places = if sv.mq.inGlobal = true then 1 else 0 := by simpa [hrelease] using hp
    rw [hplaces, hp']
    rcases sv.mq.inGlobal <;> simp

/-- `skynet_mq_pop`, of a message that is handled then. -/
theorem Ok.popped (h : Ok sv t) (hpos : 0 < t.refs) (hmaking : sv.mq.making = false)
    {m : Message D} {queue : RingBuffer (Message D)}
    (hqueue : sv.mq.queue.toList = m :: queue.toList) (hplaces : t'.places = t.places)
    (hrefs : t'.refs = t.refs) (hmarks : t'.marks = t.marks) (hmakes : t'.makes = t.makes)
    (hnone : t.flights = []) (hflights : t'.flights = [m]) :
    Ok { sv with mq := { sv.mq with queue := queue } } t' := by
  have hpos' := h.ref_pos (.inl hpos)
  obtain ⟨hrelease, hfreed⟩ := h.not_release (by omega)
  have hdropped := h.dropped hrelease
  have hsent := h.sent
  refine ⟨hrefs ▸ h.ref, hmarks ▸ h.marks, fun hf => absurd (hfreed.symm.trans hf)
    Bool.false_ne_true, fun hf => hplaces ▸ h.places hf, fun hg hr => ?_, h.dropped, ?_,
    hmakes ▸ h.makes, fun hm => absurd (hmaking.symm.trans hm) Bool.false_ne_true⟩
  · exact absurd ((h.empty hg hr).symm.trans hqueue) (List.cons_ne_nil _ _).symm
  · rw [hqueue, hnone, hdropped] at hsent
    rw [hflights, hsent, hdropped]
    simp

/-- `skynet_mq_pop`, of a queue that is empty. -/
theorem Ok.emptied (h : Ok sv t) (hpos : 0 < t.refs) (hmaking : sv.mq.making = false)
    (hqueue : sv.mq.queue.toList = []) (hin : 0 < t.places) (hplaces : t'.places + 1 = t.places)
    (hrefs : t'.refs = t.refs) (hmarks : t'.marks = t.marks) (hmakes : t'.makes = t.makes)
    (hflights : t'.flights = t.flights) :
    Ok { sv with mq := { sv.mq with inGlobal := false } } t' := by
  have hpos' := h.ref_pos (.inl hpos)
  obtain ⟨hrelease, hfreed⟩ := h.not_release (by omega)
  have hle := h.places_le
  refine ⟨hrefs ▸ h.ref, hmarks ▸ h.marks, fun hf => absurd (hfreed.symm.trans hf)
    Bool.false_ne_true, fun _ => ?_, fun _ _ => hqueue, h.dropped, hflights ▸ h.sent,
    hmakes ▸ h.makes, fun hm => absurd (hmaking.symm.trans hm) Bool.false_ne_true⟩
  rw [hrelease, if_neg (by simp)]
  omega

/-- A message was handled. -/
theorem Ok.ran (h : Ok sv t) {m : Message D} (hm : t.flights = [m]) (hplaces : t'.places = t.places)
    (hrefs : t'.refs = t.refs) (hmarks : t'.marks = t.marks) (hmakes : t'.makes = t.makes)
    (hflights : t'.flights = []) : Ok { sv with ran := sv.ran ++ [m] } t' := by
  have hsent := h.sent
  refine ⟨hrefs ▸ h.ref, hmarks ▸ h.marks, fun hf => hplaces ▸ h.freed hf,
    fun hf => hplaces ▸ h.places hf, h.empty, h.dropped, ?_, hmakes ▸ h.makes, h.unmade⟩
  rw [hsent, hm, hflights, List.append_nil]

/-- `_drop_queue`, of a message. -/
theorem Ok.drop (h : Ok sv t) (hrelease : sv.mq.release = true) (hmaking : sv.mq.making = false)
    {m : Message D} {queue : RingBuffer (Message D)}
    (hqueue : sv.mq.queue.toList = m :: queue.toList) (hplaces : t'.places = t.places)
    (hrefs : t'.refs = t.refs) (hmarks : t'.marks = t.marks) (hmakes : t'.makes = t.makes)
    (hflights : t'.flights = t.flights) :
    Ok { sv with mq := { sv.mq with queue := queue }, dropped := sv.dropped ++ [m] } t' := by
  have hsent := h.sent
  refine ⟨hrefs ▸ h.ref, hmarks ▸ h.marks, fun hf => ?_, fun hf => hplaces ▸ h.places hf,
    fun _ hr => absurd (hrelease.symm.trans hr) Bool.true_eq_false.mp,
    fun hr => absurd (hrelease.symm.trans hr) Bool.true_eq_false.mp, ?_, hmakes ▸ h.makes,
    fun hm => absurd (hmaking.symm.trans hm) Bool.false_ne_true⟩
  · exact absurd ((h.freed hf).2.2.symm.trans hqueue) (List.cons_ne_nil _ _).symm
  · rw [hsent, hqueue, hflights]
    simp

/-- `_drop_queue`, at its end. -/
theorem Ok.free (h : Ok sv t) (hrelease : sv.mq.release = true) (hmaking : sv.mq.making = false)
    (hqueue : sv.mq.queue.toList = []) (hin : 0 < t.places) (hplaces : t'.places + 1 = t.places)
    (hrefs : t'.refs = t.refs) (hmarks : t'.marks = t.marks) (hmakes : t'.makes = t.makes)
    (hflights : t'.flights = t.flights) :
    Ok { sv with mq := { sv.mq with inGlobal := false, freed := true } } t' := by
  have hle := h.places_le
  exact ⟨hrefs ▸ h.ref, hmarks ▸ h.marks, fun _ => ⟨hrelease, by omega, hqueue⟩,
    fun hf => absurd hf Bool.true_eq_false.mp,
    fun _ hr => absurd (hrelease.symm.trans hr) Bool.true_eq_false.mp,
    fun hr => absurd (hrelease.symm.trans hr) Bool.true_eq_false.mp, hflights ▸ h.sent,
    hmakes ▸ h.makes, fun hm => absurd (hmaking.symm.trans hm) Bool.false_ne_true⟩

/-- `skynet_mq_push`; a queue that was nowhere is in the global queue then. -/
theorem Ok.push (h : Ok sv t) (hpos : 0 < t.refs) (hmaking : sv.mq.making = false) {m : Message D}
    {queue : RingBuffer (Message D)} (hqueue : queue.toList = sv.mq.queue.toList ++ [m])
    (hplaces : t'.places = t.places + if sv.mq.inGlobal = false then 1 else 0)
    (hrefs : t'.refs = t.refs) (hmarks : t'.marks = t.marks) (hmakes : t'.makes = t.makes)
    (hflights : t'.flights = t.flights) :
    Ok { sv with mq := { sv.mq with queue := queue, inGlobal := true }, sent := sv.sent ++ [m] }
      t' := by
  have hpos' := h.ref_pos (.inl hpos)
  obtain ⟨hrelease, hfreed⟩ := h.not_release (by omega)
  have hp := h.places hfreed
  refine ⟨hrefs ▸ h.ref, hmarks ▸ h.marks, fun hf => absurd (hfreed.symm.trans hf)
    Bool.false_ne_true, fun _ => ?_, fun hg _ => absurd hg Bool.true_eq_false.mp, h.dropped, ?_,
    hmakes ▸ h.makes, fun hm => absurd (hmaking.symm.trans hm) Bool.false_ne_true⟩
  · have hp' : t.places = if sv.mq.inGlobal = true then 1 else 0 := by simpa [hrelease] using hp
    rw [hplaces, hp']
    rcases sv.mq.inGlobal <;> simp
  · rw [hqueue, h.sent, hflights]
    simp

end SlgServer.Scheduler
