import SlgServer.SchedulerInv

/-!
# What a step of the scheduler does

`advance_effect` says once what a step of a task does: it passes queues on, or changes one
service in a way that keeps `Ok`. In both cases no assertion fails, and no queue is used that was
freed or is not there yet. The invariant `Inv` follows for every run.
-/

namespace SlgServer.Scheduler

open Pool

variable {D : Type}

/-- A task that pushes a message knows the service. -/
def Task.Knows (s : State D) : Task D → Prop
  | .push k m _ => s.Made k ∧ s.Answerable m
  | .report _ m _ => s.Answerable m
  | _ => True

/-- What holds of the node between steps. -/
structure Inv (s : State D) : Prop where
  ok : ∀ k, Ok (s.service k) (s.tally k)
  /-- queues that are emptied were marked for release -/
  empties : ∀ t ∈ s.tasks, ∀ k, t.Empties k → (s.service k).mq.release = true
  new : ∀ k, s.count ≤ k → s.service k = Service.unborn D
  fault : s.fault = false
  answerable : ∀ k, ∀ m ∈ (s.service k).sent, s.Answerable m
  knows : ∀ t ∈ s.tasks, t.Knows s

/-! ## Counting -/

theorem count_cons_one (k : ℕ) (global : List ℕ) (k' : ℕ) :
    (k :: global).count k' = global.count k' + one k k' := by
  rw [List.count_cons, one]
  by_cases h : k = k' <;> simp [h]

theorem count_concat_one (global : List ℕ) (k k' : ℕ) :
    (global ++ [k]).count k' = global.count k' + one k k' := by
  rw [List.count_append, List.count_singleton, one]
  by_cases h : k = k' <;> simp [h]

theorem flight_of_hands (k : ℕ) (t : Task D) (h : t.hands k = 0) : t.flight k = [] := by
  cases t with
  | popped w j i n m | running w j i n m =>
    have hne : j ≠ k := by
      rintro rfl
      rw [Task.hands, one_self] at h
      cases h
    exact if_neg hne
  | next _ | loop _ _ _ _ | finish _ _ | pushBack _ _ _ | report _ _ _ | push _ _ _ | release _ _
  | delete _ _ | mqCreate _ | init _ | retire _ _ => rfl

/-- A queue that is being made is in the hands of the one who makes it. -/
theorem hands_of_makes (k : ℕ) (t : Task D) : t.makes k ≤ t.hands k ∧ t.makes k ≤ t.refs k := by
  cases t with
  | mqCreate j => exact ⟨Nat.le_refl _, Nat.le_refl _⟩
  | next _ | loop _ _ _ _ | popped _ _ _ _ _ | running _ _ _ _ _ | finish _ _ | pushBack _ _ _
  | report _ _ _ | push _ _ _ | release _ _ | delete _ _ | init _ | retire _ _ =>
    exact ⟨Nat.zero_le _, Nat.zero_le _⟩

/-- What a task has of the service `k`. -/
def Task.has (k : ℕ) (t : Task D) : Tally D :=
  ⟨t.hands k, t.refs k, t.marks k, t.makes k, t.flight k⟩

/-- What becomes of the tally of `k` if the task `t` goes on as `t'`, and the global queue is
`global`. -/
structure Moved (s : State D) (t : Task D) (global : List ℕ) (t' : Task D) (k : ℕ)
    (u : Tally D) : Prop where
  places : u.places + (s.global.count k + t.hands k) =
    (s.tally k).places + (global.count k + t'.hands k)
  refs : u.refs + t.refs k = (s.tally k).refs + t'.refs k
  marks : u.marks + t.marks k = (s.tally k).marks + t'.marks k
  makes : u.makes + t.makes k = (s.tally k).makes + t'.makes k
  flights : t'.flight k = t.flight k → u.flights = (s.tally k).flights
  alone : 0 < t.hands k → (s.tally k).places ≤ 1 →
    (s.tally k).flights = t.flight k ∧ u.flights = t'.flight k

theorem moved_set {s : State D} (s' : State D) {i : ℕ} {t t' : Task D} (hi : s.tasks[i]? = some t)
    (htasks : s'.tasks = s.tasks.set i t') (k : ℕ) : Moved s t s'.global t' k (s'.tally k) := by
  have hhands := total_set (Task.hands k) hi t'
  have hrefs := total_set (Task.refs k) hi t'
  have hmarks := total_set (Task.marks k) hi t'
  have hmakes := total_set (Task.makes k) hi t'
  refine ⟨?_, ?_, ?_, ?_, fun h => ?_, fun hpos hle => ?_⟩
  · dsimp only [State.tally]
    rw [htasks]
    omega
  · dsimp only [State.tally]
    rw [htasks]
    omega
  · dsimp only [State.tally]
    rw [htasks]
    omega
  · dsimp only [State.tally]
    rw [htasks]
    omega
  · dsimp only [State.tally]
    rw [htasks, flatMap_set hi h]
  · dsimp only [State.tally] at hle ⊢
    obtain ⟨hbefore, hafter⟩ := flatMap_set_alone (flight_of_hands k) hi (by omega)
    rw [htasks]
    exact ⟨hbefore, hafter t'⟩

/-- What a task has is counted. -/
theorem counted {s : State D} {i : ℕ} {t : Task D} (hi : s.tasks[i]? = some t) (k : ℕ) :
    s.global.count k + t.hands k ≤ (s.tally k).places ∧ t.refs k ≤ (s.tally k).refs ∧
      t.marks k ≤ (s.tally k).marks :=
  ⟨Nat.add_le_add_left (le_total (Task.hands k) hi) _, le_total (Task.refs k) hi,
    le_total (Task.marks k) hi⟩

/-- A queue that can be used. -/
structure MessageQueue.There (mq : MessageQueue D) : Prop where
  freed : mq.freed = false
  making : mq.making = false

/-- A queue whose flags are cleared is nowhere. -/
theorem not_in_global {s : State D} (hs : Inv s) {k : ℕ} (hfreed : (s.service k).mq.freed = false)
    (hin : (s.service k).mq.inGlobal = false) (hrelease : (s.service k).mq.release = false) :
    k ∉ s.global := by
  have hplaces := (hs.ok k).places hfreed
  rw [hin, hrelease, if_neg (by simp)] at hplaces
  apply List.count_eq_zero.mp
  exact Nat.eq_zero_of_add_eq_zero_right hplaces

theorem count_concat_ne {k k' : ℕ} (hne : k' ≠ k) {b : Prop} [Decidable b] (global : List ℕ) :
    (if b then global ++ [k] else global).count k' = global.count k' := by
  split_ifs
  · rw [count_concat_one, one_of_ne hne.symm, Nat.add_zero]
  · rfl

theorem count_concat_self (k : ℕ) {b : Prop} [Decidable b] (global : List ℕ) :
    (if b then global ++ [k] else global).count k = global.count k + if b then 1 else 0 := by
  split_ifs
  · rw [count_concat_one, one_self]
  · rfl

/-! ## The parts of a step -/

@[simp] theorem modify_self (s : State D) (k : ℕ) (f : Service D → Service D) :
    (s.modify k f).service k = f (s.service k) := Function.update_self ..

theorem modify_modify (s : State D) (k : ℕ) (f g : Service D → Service D) :
    (s.modify k f).modify k g = s.modify k fun sv => g (f sv) := by
  rw [State.modify, modify_self]
  dsimp only [State.modify]
  rw [Function.update_idem]

theorem assert_eq (s : State D) {b : Bool} (hb : b = true) : s.assert b = s := by
  rw [State.assert, hb, Bool.not_true, Bool.or_false]

theorem useQueue_eq {s : State D} {k : ℕ} (h : (s.service k).mq.There) : s.useQueue k = s :=
  assert_eq s (by rw [h.freed, h.making]; rfl)

theorem useContext_eq {s : State D} {k : ℕ} (h : 0 < (s.service k).ref) : s.useContext k = s :=
  assert_eq s (decide_eq_true h)

theorem globalmqPush_eq {s : State D} {k : ℕ} (h : (s.service k).mq.There)
    (hk : k ∉ s.global) : s.globalmqPush k = { s with global := s.global ++ [k] } := by
  rw [State.globalmqPush, useQueue_eq h, assert_eq s (decide_eq_true hk)]

/-- A queue is freed after its flag was cleared. -/
theorem modify_mqFree {s : State D} {k : ℕ} {f : Service D → Service D}
    (h : (f (s.service k)).mq.There) (hk : k ∉ s.global) :
    (s.modify k f).mqFree k =
      s.modify k fun sv => { f sv with mq := { (f sv).mq with freed := true } } := by
  have hthere : ((s.modify k f).service k).mq.There := by rwa [modify_self]
  have hglobal : decide (k ∉ (s.modify k f).global) = true := decide_eq_true hk
  rw [State.mqFree, useQueue_eq hthere, assert_eq (s.modify k f) hglobal, modify_modify]

theorem mqMarkRelease_eq {s : State D} {k : ℕ} (hthere : (s.service k).mq.There)
    (hrelease : (s.service k).mq.release = false)
    (hglobal : (s.service k).mq.inGlobal = false → k ∉ s.global) :
    s.mqMarkRelease k = { s with
      service := Function.update s.service k
        { s.service k with mq := { (s.service k).mq with release := true } }
      global := if (s.service k).mq.inGlobal = false then s.global ++ [k] else s.global } := by
  rw [State.mqMarkRelease, useQueue_eq hthere, assert_eq s (decide_eq_true hrelease)]
  dsimp only
  rw [modify_self]
  split_ifs with hin
  · exact globalmqPush_eq (by rw [modify_self]; exact ⟨hthere.freed, hthere.making⟩) (hglobal hin)
  · rfl

/-- A message is popped, or the queue is empty. -/
theorem mqPop_cases {s : State D} {k : ℕ} (h : (s.service k).mq.There) :
    (∃ m queue, (s.service k).mq.queue.toList = m :: queue.toList ∧ s.mqPop k =
        (some m, s.modify k fun sv => { sv with mq := { sv.mq with queue := queue } })) ∨
      ((s.service k).mq.queue.toList = [] ∧ s.mqPop k =
        (none, s.modify k fun sv => { sv with mq := { sv.mq with inGlobal := false } })) := by
  rw [State.mqPop, useQueue_eq h]
  rcases hpop : (s.service k).mq.queue.pop with _ | ⟨m, queue⟩
  · exact .inr ⟨RingBuffer.pop_eq_none.mp hpop, rfl⟩
  · exact .inl ⟨m, queue, RingBuffer.pop_eq_some hpop, rfl⟩

theorem grab_cases {s : State D} (hs : Inv s) (k : ℕ) :
    ((s.service k).listed = true ∧
        s.grab k = some (s.modify k fun sv => { sv with ref := sv.ref + 1 })) ∨
      (s.service k).listed = false ∧ s.grab k = none := by
  rw [State.grab]
  split_ifs with hlisted
  · rw [useContext_eq ((hs.ok k).ref_pos (.inr hlisted))]
    exact .inl ⟨hlisted, rfl⟩
  · exact .inr ⟨eq_false_of_ne_true hlisted, rfl⟩

/-! ## Steps of tasks -/

/-- What a service keeps: a mark for release, a queue that was made, and that its messages can be
answered. -/
structure Kept (s : State D) (sv sv' : Service D) : Prop where
  release : sv.mq.release = true → sv'.mq.release = true
  making : sv'.mq.making = true → sv.mq.making = true
  sent : ∀ m ∈ sv'.sent, m ∈ sv.sent ∨ s.Answerable m

theorem Kept.of_eq {s : State D} {sv sv' : Service D} (hrelease : sv'.mq.release = sv.mq.release)
    (hmaking : sv'.mq.making = sv.mq.making) (hsent : sv'.sent = sv.sent) : Kept s sv sv' :=
  ⟨hrelease.trans, hmaking.symm.trans, fun _ hm => .inl (hsent ▸ hm)⟩

/-- What a step of a task does. -/
inductive Effect (s : State D) (t : Task D) : State D → Task D → Prop where
  /-- queues are passed on -/
  | same {global : List ℕ} {t' : Task D}
      (hhands : ∀ k, global.count k + t'.hands k = s.global.count k + t.hands k)
      (hrefs : ∀ k, t'.refs k = t.refs k) (hmarks : ∀ k, t'.marks k = t.marks k)
      (hmakes : ∀ k, t'.makes k = t.makes k) (hflight : ∀ k, t'.flight k = t.flight k)
      (hempties : ∀ k, t'.Empties k → t.Empties k ∨ (s.service k).mq.release = true)
      (hknows : t'.Knows s) : Effect s t { s with global := global } t'
  /-- a service changes -/
  | service {k : ℕ} {sv : Service D} {global : List ℕ} {t' : Task D} (hk : k < s.count)
      (hothers : ∀ k', k' ≠ k → global.count k' + t'.hands k' = s.global.count k' + t.hands k' ∧
        t'.refs k' = t.refs k' ∧ t'.marks k' = t.marks k' ∧ t'.makes k' = t.makes k' ∧
        t'.flight k' = t.flight k')
      (hok : ∀ u, Moved s t global t' k u → Ok sv u)
      (hempties : ∀ k, t'.Empties k → t.Empties k)
      (hkept : Kept s (s.service k) sv) (hknows : t'.Knows s) :
      Effect s t { s with service := Function.update s.service k sv, global := global } t'

/-- A service that somebody knows has been created. -/
theorem lt_count {s : State D} (hs : Inv s) {k : ℕ}
    (h : 0 < (s.tally k).places ∨ (s.service k).ref ≠ 0 ∨ 0 < (s.tally k).marks) : k < s.count := by
  by_contra hle
  have hnew := hs.new k (Nat.le_of_not_lt hle)
  have hok := hs.ok k
  rw [hnew] at hok h
  rcases h with h | h | h
  · rw [(hok.freed rfl).2.1] at h
    exact Nat.lt_irrefl 0 h
  · exact h rfl
  · exact absurd (hok.of_marks h).2.2.1 Bool.true_eq_false.mp

/-- What is known of a queue in the hands of a task, other than the one that makes it. -/
theorem in_hands {s : State D} (hs : Inv s) {i : ℕ} {t : Task D} (hi : s.tasks[i]? = some t) {k : ℕ}
    (hk : 0 < t.hands k) (hmakes : t.makes k = 0) :
    (s.service k).mq.There ∧ k ∉ s.global ∧ k < s.count ∧ (s.tally k).places = 1 := by
  have hcount := (counted hi k).1
  have hle := (hs.ok k).places_le
  have hnone : (s.tally k).makes = 0 := by
    by_contra hne
    obtain ⟨u, hu, hpos⟩ := exists_pos (Nat.pos_of_ne_zero hne)
    obtain ⟨j, hj⟩ := List.mem_iff_getElem?.mp hu
    have hij : i ≠ j := by
      rintro rfl
      obtain rfl := Option.some.inj (hi.symm.trans hj)
      omega
    have hboth := add_le_total (Task.hands k) hij hi hj
    have huk := (hands_of_makes k u).1
    dsimp only [State.tally] at hle
    omega
  exact ⟨⟨(hs.ok k).not_freed (by omega), (hs.ok k).not_making hnone⟩,
    List.count_eq_zero.mp (by omega), lt_count hs (.inl (by omega)), by omega⟩

/-- What is known of a context that a task has a reference to. -/
theorem in_refs {s : State D} (hs : Inv s) {i : ℕ} {t : Task D} (hi : s.tasks[i]? = some t) {k : ℕ}
    (hk : 0 < t.refs k) :
    0 < (s.tally k).refs ∧ 0 < (s.service k).ref ∧ (s.service k).mq.release = false ∧
      (s.service k).mq.freed = false ∧ k < s.count := by
  have hpos : 0 < (s.tally k).refs := Nat.lt_of_lt_of_le hk (counted hi k).2.1
  have href := (hs.ok k).ref_pos (.inl hpos)
  obtain ⟨hrelease, hfreed⟩ := (hs.ok k).not_release (by omega)
  exact ⟨hpos, href, hrelease, hfreed, lt_count hs (.inr (.inl (by omega)))⟩

/-- Who makes a queue has a reference to the context. -/
theorem Inv.made_of_ref {s : State D} (hs : Inv s) {k : ℕ} (href : (s.service k).ref = 0) :
    (s.service k).mq.making = false := by
  have hle : (s.tally k).makes ≤ (s.tally k).refs :=
    total_le_total fun t _ => (hands_of_makes k t).2
  apply (hs.ok k).not_making
  by_contra hne
  have hpos := (hs.ok k).ref_pos (.inl (by omega))
  omega

/-- One service changes, and the others do not notice. -/
theorem Effect.of_service {s : State D} {t t' : Task D} {k : ℕ} {f : Service D → Service D}
    (hk : k < s.count)
    (hothers : ∀ k', k' ≠ k → t'.hands k' = t.hands k' ∧ t'.refs k' = t.refs k' ∧
      t'.marks k' = t.marks k' ∧ t'.makes k' = t.makes k' ∧ t'.flight k' = t.flight k')
    (hok : ∀ u, Moved s t s.global t' k u → Ok (f (s.service k)) u)
    (hempties : ∀ k, t'.Empties k → t.Empties k)
    (hkept : Kept s (s.service k) (f (s.service k))) (hknows : t'.Knows s) :
    Effect s t (s.modify k f) t' :=
  .service hk (fun k' hne => ⟨congrArg _ (hothers k' hne).1, (hothers k' hne).2⟩) hok hempties hkept
    hknows

/-- A context is grabbed. -/
theorem effect_grab {s : State D} (hs : Inv s) {t t' : Task D} {k : ℕ}
    (hlisted : (s.service k).listed = true)
    (hrefs : ∀ k', t'.refs k' = t.refs k' + one k k')
    (hhas : ∀ k', t'.has k' = { t.has k' with refs := t'.refs k' })
    (hempties : ∀ k', t'.Empties k' → t.Empties k') (hknows : t'.Knows s) :
    Effect s t (s.modify k fun sv => { sv with ref := sv.ref + 1 }) t' := by
  have hpos := (hs.ok k).ref_pos (.inr hlisted)
  refine .of_service (lt_count hs (.inr (.inl (by omega)))) (fun k' hne => ?_) (fun u hu => ?_)
    hempties (.of_eq rfl rfl rfl) hknows
  · refine ⟨congrArg Tally.places (hhas k'), ?_, congrArg Tally.marks (hhas k'),
      congrArg Tally.makes (hhas k'), congrArg Tally.flights (hhas k')⟩
    rw [hrefs, one_of_ne hne.symm, Nat.add_zero]
  · have hp := hu.places
    have hr := hu.refs
    have hm := hu.marks
    have hc := hu.makes
    have hhands : t'.hands k = t.hands k := congrArg Tally.places (hhas k)
    have hrefs := hrefs k
    have hmarks : t'.marks k = t.marks k := congrArg Tally.marks (hhas k)
    have hmakes : t'.makes k = t.makes k := congrArg Tally.makes (hhas k)
    rw [one_self] at hrefs
    exact (hs.ok k).grab hlisted (by omega) (by omega) (by omega) (by omega)
      (hu.flights (congrArg Tally.flights (hhas k)))

/-- A queue that a task has in its hands is put into the global queue. -/
theorem effect_globalmqPush {s : State D} (hs : Inv s) {i : ℕ} {t t' : Task D}
    (hi : s.tasks[i]? = some t) {k : ℕ} (hk : 0 < t.hands k) (hmakes : t.makes k = 0)
    (hhands : ∀ k', t'.hands k' + one k k' = t.hands k')
    (hhas : ∀ k', t'.has k' = { t.has k' with places := t'.hands k' })
    (hempties : ∀ k', t'.Empties k' → t.Empties k') (hknows : t'.Knows s) :
    Effect s t (s.globalmqPush k) t' := by
  obtain ⟨hthere, hglobal, -⟩ := in_hands hs hi hk hmakes
  rw [globalmqPush_eq hthere hglobal]
  refine .same (fun k' => ?_) (fun k' => congrArg Tally.refs (hhas k'))
    (fun k' => congrArg Tally.marks (hhas k')) (fun k' => congrArg Tally.makes (hhas k'))
    (fun k' => congrArg Tally.flights (hhas k')) (fun k' h => .inl (hempties k' h)) hknows
  rw [count_concat_one, ← hhands k']
  omega

/-- A worker takes the first queue of the global queue. -/
theorem effect_globalmqPop {s : State D} {t t' : Task D} {k : ℕ} {global : List ℕ}
    (hglobal : s.global = k :: global) (hhands : ∀ k', t'.hands k' = t.hands k' + one k k')
    (hhas : ∀ k', t'.has k' = { t.has k' with places := t'.hands k' })
    (hempties : ∀ k', t'.Empties k' → t.Empties k') (hknows : t'.Knows s) :
    Effect s t { s with global := global } t' := by
  refine .same (fun k' => ?_) (fun k' => congrArg Tally.refs (hhas k'))
    (fun k' => congrArg Tally.marks (hhas k')) (fun k' => congrArg Tally.makes (hhas k'))
    (fun k' => congrArg Tally.flights (hhas k')) (fun k' h => .inl (hempties k' h)) hknows
  rw [hglobal, count_cons_one, hhands]
  omega

/-- A task goes on, with what it had. -/
theorem effect_goOn {s : State D} {t t' : Task D} (hhas : ∀ k, t'.has k = t.has k)
    (hempties : ∀ k, t'.Empties k → t.Empties k ∨ (s.service k).mq.release = true)
    (hknows : t'.Knows s) : Effect s t s t' :=
  .same (fun k => congrArg (fun u => _ + Tally.places u) (hhas k))
    (fun k => congrArg Tally.refs (hhas k)) (fun k => congrArg Tally.marks (hhas k))
    (fun k => congrArg Tally.makes (hhas k)) (fun k => congrArg Tally.flights (hhas k)) hempties
    hknows

/-- A service with a message more. -/
def Service.pushed (sv : Service D) (m : Message D) : Service D :=
  { sv with
    mq := { sv.mq with
      queue := sv.mq.queue.push (· * 2) lt_double m
      inGlobal := true }
    sent := sv.sent ++ [m] }

theorem mqPush_eq {s : State D} {k : ℕ} (hthere : (s.service k).mq.There) (m : Message D)
    (hglobal : (s.service k).mq.inGlobal = false → k ∉ s.global) :
    s.mqPush k m = { s with
      service := Function.update s.service k ((s.service k).pushed m)
      global := if (s.service k).mq.inGlobal = false then s.global ++ [k] else s.global } := by
  rw [State.mqPush, useQueue_eq hthere]
  dsimp only
  rw [modify_self]
  split_ifs with hin
  · rw [modify_modify]
    exact globalmqPush_eq (by rw [modify_self]; exact ⟨hthere.freed, hthere.making⟩) (hglobal hin)
  · rw [Service.pushed, ← eq_true_of_ne_false hin]
    rfl

/-- Who pushes has a reference, and knows that the queue was made. -/
theorem of_push {s : State D} (hs : Inv s) {i : ℕ} {k : ℕ} {m : Message D} {nx : Next}
    (hi : s.tasks[i]? = some (.push k m nx)) :
    0 < (s.tally k).refs ∧ (s.service k).mq.There ∧ (s.service k).mq.release = false ∧
      k < s.count ∧ s.Answerable m := by
  have hk : 0 < (Task.push k m nx).refs k := Nat.lt_of_lt_of_eq Nat.zero_lt_one (one_self k).symm
  obtain ⟨hrefs, -, hrelease, hfreed, hcount⟩ := in_refs hs hi hk
  obtain ⟨⟨-, hmaking⟩, hanswerable⟩ := hs.knows _ (List.mem_of_getElem? hi)
  exact ⟨hrefs, ⟨hfreed, hmaking⟩, hrelease, hcount, hanswerable⟩

/-- `skynet_mq_push`. -/
theorem effect_mqPush {s : State D} (hs : Inv s) {i : ℕ} {k : ℕ} {m : Message D} {nx : Next}
    (hi : s.tasks[i]? = some (.push k m nx)) :
    Effect s (.push k m nx) (s.mqPush k m) (.release k nx) := by
  obtain ⟨hrefs, hthere, hrelease, hcount, hanswerable⟩ := of_push hs hi
  have hqueue := RingBuffer.toList_push (· * 2) lt_double (s.service k).mq.queue m
  rw [mqPush_eq hthere m fun hin => not_in_global hs hthere.freed hin hrelease]
  refine .service hcount (fun k' hne => ⟨?_, rfl, rfl, rfl, rfl⟩) (fun u hu => ?_) (fun _ h => h)
    ⟨fun h => h, fun h => h, fun m' hm => ?_⟩ trivial
  · exact congrArg (· + _) (count_concat_ne hne _)
  · have hp := hu.places
    rw [Task.hands, Task.hands, count_concat_self] at hp
    exact (hs.ok k).push hrefs hthere.making hqueue (by omega)
      (Nat.add_right_cancel hu.refs) (Nat.add_right_cancel hu.marks) (Nat.add_right_cancel hu.makes)
      (hu.flights rfl)
  · rcases List.mem_append.mp hm with hm | hm
    · exact .inl hm
    · exact .inr (List.mem_singleton.mp hm ▸ hanswerable)

/-- Who marks a queue for release was the last to refer to the service. -/
theorem of_delete {s : State D} (hs : Inv s) {i : ℕ} {k : ℕ} {nx : Next}
    (hi : s.tasks[i]? = some (.delete k nx)) :
    0 < (s.tally k).marks ∧ (s.service k).mq.There ∧ (s.service k).mq.release = false := by
  have hk : 0 < (s.tally k).marks := Nat.lt_of_lt_of_le (Nat.lt_of_lt_of_eq Nat.zero_lt_one
    (one_self k).symm) (counted hi k).2.2
  obtain ⟨href, -, hrelease, hfreed⟩ := (hs.ok k).of_marks hk
  exact ⟨hk, ⟨hfreed, hs.made_of_ref href⟩, hrelease⟩

/-- `skynet_mq_mark_release`. -/
theorem effect_mqMarkRelease {s : State D} (hs : Inv s) {i : ℕ} {k : ℕ} {nx : Next}
    (hi : s.tasks[i]? = some (.delete k nx)) :
    Effect s (.delete k nx) (s.mqMarkRelease k) (.next nx) := by
  obtain ⟨hk, hthere, hrelease⟩ := of_delete hs hi
  rw [mqMarkRelease_eq hthere hrelease fun hin => not_in_global hs hthere.freed hin hrelease]
  refine .service (lt_count hs (.inr (.inr hk))) (fun k' hne => ⟨?_, rfl, ?_, rfl, rfl⟩)
    (fun u hu => ?_) (fun _ h => h) ⟨fun _ => rfl, fun h => h, fun _ => .inl⟩ trivial
  · exact congrArg (· + _) (count_concat_ne hne _)
  · exact (one_of_ne hne.symm).symm
  · have hp := hu.places
    have hm : u.marks + one k k = (s.tally k).marks := hu.marks
    rw [Task.hands, Task.hands, count_concat_self] at hp
    rw [one_self] at hm
    exact (hs.ok k).mark hk hthere.making (by omega)
      (Nat.add_right_cancel hu.refs) hm (Nat.add_right_cancel hu.makes) (hu.flights rfl)

/-- `skynet_mq_create`. -/
theorem effect_mqCreate {s : State D} (hs : Inv s) {i : ℕ} {k : ℕ}
    (hi : s.tasks[i]? = some (.mqCreate k)) :
    Effect s (.mqCreate k) (s.modify k fun sv => { sv with mq := MessageQueue.create D })
      (.init k) := by
  -- who makes the queue holds a reference, so the context is there and not marked
  have hone : 0 < one k k := Nat.lt_of_lt_of_eq Nat.zero_lt_one (one_self k).symm
  obtain ⟨-, -, hrelease, -, hcount⟩ := in_refs hs hi hone
  have hle : one k k ≤ (s.tally k).makes := le_total (Task.makes k) hi
  refine .of_service hcount (fun k' hne => ?_) (fun u hu => ?_) (fun _ h => h)
    ⟨fun h => absurd (hrelease.symm.trans h) Bool.false_ne_true,
      fun h => absurd h Bool.false_ne_true, fun _ => .inl⟩ trivial
  · exact ⟨rfl, rfl, rfl, (one_of_ne hne.symm).symm, rfl⟩
  · have hm : u.makes + one k k = (s.tally k).makes := hu.makes
    rw [one_self] at hm
    exact (hs.ok k).mqCreate ((hs.ok k).making (Nat.lt_of_lt_of_le hone hle))
      (Nat.add_right_cancel hu.places) (Nat.add_right_cancel hu.refs)
      (Nat.add_right_cancel hu.marks) hm (hu.flights rfl)

theorem advance_next {s : State D} (hs : Inv s) {i : ℕ} {nx : Next}
    (hi : s.tasks[i]? = some (.next nx)) (ok : Bool) :
    Effect s (.next nx) (s.advance ok (.next nx)).1 (s.advance ok (.next nx)).2 := by
  cases nx with
  | pop w =>
    rw [State.advance]
    rcases hglobal : s.global with _ | ⟨k, global⟩
    · exact effect_goOn (fun _ => rfl) (fun _ => .inl) trivial
    · exact effect_globalmqPop hglobal (fun _ => (Nat.zero_add _).symm) (fun _ => rfl)
        (fun _ h => h) trivial
  | dispatch w k =>
    -- whoever names a queue holds it, so it is neither freed nor in the global queue
    have hk : 0 < (Task.next (.dispatch w k) : Task D).hands k := by simp [Task.hands, Next.hands]
    rw [State.advance, useQueue_eq (in_hands hs hi hk rfl).1]
    rcases grab_cases hs k with ⟨hlisted, hgrab⟩ | ⟨-, hgrab⟩
    · rw [hgrab]
      exact effect_grab hs hlisted (fun _ => (Nat.zero_add _).symm) (fun _ => rfl)
        (fun _ h => h.elim) trivial
    · rw [hgrab]
      exact effect_goOn (fun _ => rfl) (fun _ => .inl) trivial
  | publish k =>
    have hk : 0 < (Task.next (.publish k) : Task D).hands k := by simp [Task.hands, Next.hands]
    rw [State.advance]
    exact effect_globalmqPush hs hi hk rfl (fun _ => Nat.zero_add _) (fun _ => rfl) (fun _ h => h)
      trivial
  | retire k =>
    rw [State.advance]
    exact effect_goOn (fun _ => rfl) (fun _ => .inl) trivial
  | mqRelease k nx =>
    have hk : 0 < (Task.next (.mqRelease k nx) : Task D).hands k :=
      Nat.lt_add_right _ (Nat.lt_of_lt_of_eq Nat.zero_lt_one (one_self k).symm)
    rw [State.advance, useQueue_eq (in_hands hs hi hk rfl).1]
    -- only a marked queue is emptied; one that is not goes back to the global queue
    split_ifs with hrelease
    · refine effect_goOn (fun _ => rfl) (fun k' h => ?_) trivial
      rcases h with rfl | h
      · exact .inr hrelease
      · exact .inl h
    · exact effect_globalmqPush hs hi hk rfl (fun _ => Nat.add_comm ..) (fun _ => rfl)
        (fun _ h => h) trivial
  | dropQueue k nx =>
    have hk : 0 < (Task.next (.dropQueue k nx) : Task D).hands k :=
      Nat.lt_add_right _ (Nat.lt_of_lt_of_eq Nat.zero_lt_one (one_self k).symm)
    obtain ⟨hthere, hglobal, hcount, hplaces⟩ := in_hands hs hi hk rfl
    have hrelease := hs.empties _ (List.mem_of_getElem? hi) k (.inl rfl)
    rw [State.advance]
    rcases mqPop_cases hthere with ⟨m, queue, hqueue, hpop⟩ | ⟨hqueue, hpop⟩
    · -- what waited was pushed, so its source can be answered
      have hsent : m ∈ (s.service k).sent := by
        rw [(hs.ok k).sent, hqueue]
        exact List.mem_append_right _ (.head _)
      rw [hpop]
      dsimp only
      rw [modify_modify]
      refine Effect.of_service hcount ?_ ?_ ?_ (.of_eq rfl rfl rfl) (hs.answerable k m hsent)
      · exact fun k' hne => ⟨rfl, rfl, rfl, rfl, rfl⟩
      · intro u hu
        exact (hs.ok k).drop hrelease hthere.making hqueue (Nat.add_right_cancel hu.places)
          (Nat.add_right_cancel hu.refs) (Nat.add_right_cancel hu.marks)
          (Nat.add_right_cancel hu.makes) (hu.flights rfl)
      · exact fun _ h => h
    -- the last message is out: the queue is freed and the thread goes on
    · rw [hpop]
      dsimp only
      rw [modify_mqFree ⟨hthere.freed, hthere.making⟩ hglobal]
      refine Effect.of_service hcount ?_ ?_ ?_ (.of_eq rfl rfl rfl) trivial
      · intro k' hne
        refine ⟨?_, rfl, rfl, rfl, rfl⟩
        rw [Task.hands, Task.hands, Next.hands, one_of_ne hne.symm, Nat.zero_add]
      · intro u hu
        have hp := hu.places
        rw [Task.hands, Task.hands, Next.hands, one_self] at hp
        exact (hs.ok k).free hrelease hthere.making hqueue (by omega) (by omega)
          (Nat.add_right_cancel hu.refs) (Nat.add_right_cancel hu.marks)
          (Nat.add_right_cancel hu.makes) (hu.flights rfl)
      · exact fun _ h => .inr h
  | done =>
    rw [State.advance]
    exact effect_goOn (fun _ => rfl) (fun _ => .inl) trivial

theorem advance_effect {s : State D} (hs : Inv s) {i : ℕ} {t : Task D} (hi : s.tasks[i]? = some t)
    (ok : Bool) : Effect s t (s.advance ok t).1 (s.advance ok t).2 := by
  cases t with
  | next nx => exact advance_next hs hi ok
  | loop w k j n =>
    have hk : 0 < (Task.loop w k j n : Task D).hands k :=
      Nat.lt_of_lt_of_eq Nat.zero_lt_one (one_self k).symm
    obtain ⟨hrefs, hpos, -, -, hcount⟩ := in_refs hs hi hk
    obtain ⟨hthere, -, -, hplaces⟩ := in_hands hs hi hk rfl
    have hle := (hs.ok k).places_le
    rw [State.advance]
    -- the `for` of `skynet_context_message_dispatch` goes on while there is a round left
    split_ifs with hn
    · rcases mqPop_cases hthere with ⟨m, queue, hqueue, hpop⟩ | ⟨hqueue, hpop⟩
      -- a message comes out, and this thread alone has it in hand
      · rw [hpop]
        dsimp only
        refine Effect.of_service hcount ?_ ?_ ?_ (.of_eq rfl rfl rfl) trivial
        · exact fun k' hne => ⟨rfl, rfl, rfl, rfl, if_neg hne.symm⟩
        · intro u hu
          obtain ⟨hnone, hone⟩ := hu.alone hk hle
          have hflight : (Task.popped w k j n m).flight k = [m] := if_pos rfl
          exact (hs.ok k).popped hrefs hthere.making hqueue (Nat.add_right_cancel hu.places)
            (Nat.add_right_cancel hu.refs) (Nat.add_right_cancel hu.marks)
            (Nat.add_right_cancel hu.makes) hnone (hone.trans hflight)
        · exact fun _ h => h
      -- the queue is empty: `skynet_mq_pop` clears `in_global`, and the thread lets go of it
      · rw [hpop]
        dsimp only
        refine Effect.of_service hcount ?_ ?_ ?_ (.of_eq rfl rfl rfl) trivial
        · exact fun k' hne => ⟨(one_of_ne hne.symm).symm, rfl, rfl, rfl, rfl⟩
        · intro u hu
          have hp := hu.places
          rw [Task.hands, Task.hands, one_self, Next.hands] at hp
          exact (hs.ok k).emptied hrefs hthere.making hqueue (by omega) (by omega)
            (Nat.add_right_cancel hu.refs) (Nat.add_right_cancel hu.marks)
            (Nat.add_right_cancel hu.makes) (hu.flights rfl)
        · exact fun _ h => h.elim
    · exact effect_goOn (fun _ => rfl) (fun _ => .inl) trivial
  | popped w k j n m =>
    have hk : 0 < (Task.popped w k j n m).hands k := by simp [Task.hands]
    have hgo (n' : ℕ) : Effect s (.popped w k j n m) s (.running w k j n' m) :=
      effect_goOn (fun _ => rfl) (fun _ => .inl) trivial
    -- only the first round asks for the length, and only with a weight that is not negative
    rcases j with _ | j
    · rcases w with _ | shift
      · exact hgo n
      · rw [State.advance, State.mqLength, useQueue_eq (in_hands hs hi hk rfl).1]
        exact hgo _
    · exact hgo n
  | running w k j n m =>
    have hk : 0 < (Task.running w k j n m).hands k :=
      Nat.lt_of_lt_of_eq Nat.zero_lt_one (one_self k).symm
    obtain ⟨-, hpos, -, -, hcount⟩ := in_refs hs hi hk
    have hle := (hs.ok k).places_le
    rw [State.advance, useContext_eq hpos]
    dsimp only
    refine Effect.of_service hcount ?_ ?_ ?_ (.of_eq rfl rfl rfl) trivial
    · exact fun k' hne => ⟨rfl, rfl, rfl, rfl, (if_neg hne.symm).symm⟩
    · intro u hu
      -- no other thread handles a message of the service, since a queue is in one hand only
      obtain ⟨hone, hnone⟩ := hu.alone hk hle
      have hflight : (Task.running w k j n m).flight k = [m] := if_pos rfl
      exact (hs.ok k).ran (hone.trans hflight) (Nat.add_right_cancel hu.places)
        (Nat.add_right_cancel hu.refs) (Nat.add_right_cancel hu.marks)
        (Nat.add_right_cancel hu.makes) hnone
    · exact fun _ h => h
  | finish w k =>
    rw [State.advance]
    rcases hglobal : s.global with _ | ⟨j, global⟩
    · exact effect_goOn (fun _ => rfl) (fun _ => .inl) trivial
    · exact effect_globalmqPop hglobal (fun _ => rfl) (fun _ => rfl) (fun _ h => h) trivial
  | pushBack w k j =>
    have hk : 0 < (Task.pushBack w k j : Task D).hands k :=
      Nat.lt_add_right _ (Nat.lt_of_lt_of_eq Nat.zero_lt_one (one_self k).symm)
    rw [State.advance]
    exact effect_globalmqPush hs hi hk rfl (fun _ => Nat.add_comm ..) (fun _ => rfl) (fun _ h => h)
      trivial
  | report k m nx =>
    have hk : 0 < (Task.report k m nx).hands k :=
      Nat.lt_add_right _ (Nat.lt_of_lt_of_eq Nat.zero_lt_one (one_self k).symm)
    obtain ⟨hthere, -, hcount, -⟩ := in_hands hs hi hk rfl
    have hanswerable : s.Answerable m := hs.knows _ (List.mem_of_getElem? hi)
    -- the error names the dropped queue as its source, and its context was once complete
    have herror : s.Answerable (errorFrom D k) := by
      intro j hj
      obtain rfl := Option.some.inj hj
      exact ⟨hcount, hthere.making⟩
    rw [State.advance]
    rcases hsource : m.source with _ | j
    · exact effect_goOn (fun _ => rfl) (fun _ => .inl) trivial
    · rcases grab_cases hs j with ⟨hlisted, hgrab⟩ | ⟨-, hgrab⟩
      · dsimp only
        rw [hgrab]
        exact effect_grab hs hlisted (fun _ => (Nat.zero_add _).symm) (fun _ => rfl)
          (fun _ h => h) ⟨hanswerable j hsource, herror⟩
      · dsimp only
        rw [hgrab]
        exact effect_goOn (fun _ => rfl) (fun _ => .inl) trivial
  | push k m nx => exact effect_mqPush hs hi
  | release k nx =>
    have hk : 0 < (Task.release k nx : Task D).refs k :=
      Nat.lt_of_lt_of_eq Nat.zero_lt_one (one_self k).symm
    obtain ⟨hrefs, hpos, -, -, hcount⟩ := in_refs hs hi hk
    have hself : ((s.modify k fun sv => { sv with ref := sv.ref - 1 }).service k).ref =
        (s.service k).ref - 1 := by
      dsimp only [State.modify]
      rw [Function.update_self]
    rw [State.advance, useContext_eq hpos]
    -- the last reference marks the queue, any other only counts down
    split_ifs with hzero
    · rw [hself] at hzero
      dsimp only
      refine Effect.of_service hcount ?_ ?_ ?_ (.of_eq rfl rfl rfl) trivial
      · exact fun k' hne => ⟨rfl, (one_of_ne hne.symm).symm, one_of_ne hne.symm, rfl, rfl⟩
      · intro u hu
        have hr : u.refs + one k k = (s.tally k).refs := hu.refs
        have hm : u.marks = (s.tally k).marks + one k k := hu.marks
        rw [one_self] at hr hm
        apply (hs.ok k).unref hrefs (Nat.add_right_cancel hu.places) hr ?_
          (Nat.add_right_cancel hu.makes) (hu.flights rfl)
        rw [if_pos hzero, hm]
      · exact fun _ h => h
    · rw [hself] at hzero
      dsimp only
      refine Effect.of_service hcount ?_ ?_ ?_ (.of_eq rfl rfl rfl) trivial
      · exact fun k' hne => ⟨rfl, (one_of_ne hne.symm).symm, rfl, rfl, rfl⟩
      · intro u hu
        have hr : u.refs + one k k = (s.tally k).refs := hu.refs
        rw [one_self] at hr
        apply (hs.ok k).unref hrefs (Nat.add_right_cancel hu.places) hr ?_
          (Nat.add_right_cancel hu.makes) (hu.flights rfl)
        rw [if_neg hzero]
        exact Nat.add_right_cancel hu.marks
      · exact fun _ h => h
  | delete k nx => exact effect_mqMarkRelease hs hi
  | mqCreate k =>
    have hk : 0 < (Task.mqCreate k : Task D).refs k :=
      Nat.lt_of_lt_of_eq Nat.zero_lt_one (one_self k).symm
    rw [State.advance, useContext_eq (in_refs hs hi hk).2.1]
    exact effect_mqCreate hs hi
  | init k =>
    rw [State.advance]
    cases ok with
    | false => exact effect_goOn (fun _ => rfl) (fun _ => .inl) trivial
    | true => exact effect_goOn (fun _ => rfl) (fun _ => .inl) trivial
  | retire k nx =>
    rw [State.advance]
    -- the handle is retired once: a second caller finds it out of the table and does nothing
    split_ifs with hlisted
    · have hpos := (hs.ok k).ref_pos (.inr hlisted)
      dsimp only
      refine Effect.of_service (lt_count hs (.inr (.inl (by omega)))) ?_ ?_ ?_
        (.of_eq rfl rfl rfl) trivial
      · exact fun k' hne => ⟨rfl, one_of_ne hne.symm, rfl, rfl, rfl⟩
      · intro u hu
        have hr : u.refs = (s.tally k).refs + one k k := hu.refs
        rw [one_self] at hr
        exact (hs.ok k).unlist hlisted (Nat.add_right_cancel hu.places) hr
          (Nat.add_right_cancel hu.marks) (Nat.add_right_cancel hu.makes) (hu.flights rfl)
      · exact fun _ h => h
    · exact effect_goOn (fun _ => rfl) (fun _ => .inl) trivial

end SlgServer.Scheduler
