import SlgServer.AreaMgr
import SlgServer.RoomQueue

/-!
# Where the room ids are

`create` takes an id out of the pool, `close` drops its key from `room_tbl`, and
nothing puts an id back. So an id is in the pool, a key of `room_tbl`, or the id
of a room that was closed (`ids_conserved`), and the pool runs dry with the
999999th `create`, however few rooms are open then.
-/

namespace SlgServer.RoomMgr

open State

variable {A G : Type} [DecidableEq A] {getArea : G → Option ℕ}

/-- The id is in `id_mgr.tbl`. -/
def State.InPool (s : State A G) (id : ℕ) : Prop := LuaArray.Mem id s.idMgr.tbl

/-- The id is a key of `room_tbl`. -/
def State.IsOpen (s : State A G) (id : ℕ) : Prop := ∃ ref, s.roomTbl id = some ref

/-- In the course of the events a `room_begin` closed the open room `id`. -/
def ClosedIn (getArea : G → Option ℕ) (es : List (Event A G)) (id : ℕ) : Prop :=
  ∃ es₁ es₂ s, es = es₁ ++ .roomBegin id :: es₂ ∧
    Machine.run (step getArea) State.init es₁ = some s ∧ s.IsOpen id

/-- The event is a `create_room` request. -/
def Event.isCreate : Event A G → Bool
  | .createRoom .. => true
  | _ => false

/-- A `create_room` request is answered with the id of a newly opened room. -/
def CreateSucceeds (getArea : G → Option ℕ) (s : State A G) (gameId : G) (p : PlayerInfo A) :
    Prop :=
  ∃ index s' id, step getArea s (.createRoom index gameId p) = some s' ∧
    ¬ s.IsOpen id ∧ s'.IsOpen id

/-! ## One step -/

/-- The objects that have left `room_tbl`. -/
def State.Gone (s : State A G) (id : ℕ) : Prop :=
  ¬ s.IsOpen id ∧ ∃ ref, s.idAt ref = some id

omit [DecidableEq A] in
theorem isOpen_iff_roomAt {s : State A G} (hs : Coherent s) {id : ℕ} :
    s.IsOpen id ↔ ∃ ref room, s.roomAt id = some (ref, room) := by
  refine ⟨?_, ?_⟩
  · rintro ⟨ref, hopen⟩
    obtain ⟨room, hroom, -⟩ := rooms_of_idAt (hs.opened id ref hopen)
    exact ⟨ref, room, roomAt_eq_some.mpr ⟨hopen, hroom⟩⟩
  · rintro ⟨ref, room, hroom⟩
    exact ⟨ref, (roomAt_eq_some.mp hroom).1⟩

/-- Creating a room makes nothing gone. -/
theorem gone_create {s : State A G} (hs : Coherent s) (index : ℕ)
    (hindex : 1 ≤ index ∧ index ≤ s.idMgr.tbl.len) (gameId : G) (p : PlayerInfo A) (id : ℕ) :
    (s.create index hindex gameId p).2.Gone id ↔ s.Gone id := by
  have hids := idAt_create s index hindex gameId p
  have hnew : ¬ ∃ ref, s.idAt ref = some (s.idMgr.genId index hindex).1 := by
    rintro ⟨ref, href⟩
    exact (hs.taken ref _ href).2 (s.idMgr.genId_mem index hindex)
  by_cases hid : id = (s.idMgr.genId index hindex).1
  · subst hid
    refine ⟨?_, ?_⟩
    · rintro ⟨hclosed, -⟩
      exact absurd ⟨s.fresh, Function.update_self ..⟩ hclosed
    · rintro ⟨-, href⟩
      exact absurd href hnew
  · have hopen : (s.create index hindex gameId p).2.roomTbl id = s.roomTbl id :=
      Function.update_of_ne hid ..
    have hex : (∃ ref, (s.create index hindex gameId p).2.idAt ref = some id) ↔
        ∃ ref, s.idAt ref = some id := by
      refine ⟨?_, ?_⟩
      · rintro ⟨ref, href⟩
        rw [hids] at href
        split_ifs at href with hr
        · exact absurd (Option.some.inj href).symm hid
        · exact ⟨ref, href⟩
      · rintro ⟨ref, href⟩
        have hlt := hs.live ref id href
        exact ⟨ref, by rw [hids, if_neg (by omega), href]⟩
    simp only [State.Gone, State.IsOpen, hopen, hex]

omit [DecidableEq A] in
/-- Closing a room makes its id gone if it was open. -/
theorem gone_close {s s' : State A G} (hs : Coherent s) {n : ℕ}
    (htbl : s'.roomTbl = Function.update s.roomTbl n none)
    (hids : ∀ ref, s'.idAt ref = s.idAt ref) (id : ℕ) :
    s'.Gone id ↔ s.Gone id ∨ (n = id ∧ s.IsOpen id) := by
  by_cases hn : n = id
  · subst hn
    simp only [State.Gone, State.IsOpen, htbl, hids, Function.update_self]
    refine ⟨?_, ?_⟩
    · rintro ⟨-, ref, href⟩
      by_cases hopen : ∃ r, s.roomTbl n = some r
      · exact .inr ⟨trivial, hopen⟩
      · exact .inl ⟨hopen, ref, href⟩
    · rintro (⟨-, href⟩ | ⟨-, ref, hopen⟩)
      · exact ⟨by simp, href⟩
      · exact ⟨by simp, ref, hs.opened _ ref hopen⟩
  · simp only [State.Gone, State.IsOpen, htbl, hids, Function.update_of_ne (Ne.symm hn), hn,
      false_and, or_false]

/-- A room leaves `room_tbl` by a `room_begin` that finds it, and for good. -/
theorem gone_step {s s' : State A G} {e : Event A G} (hs : Coherent s)
    (h : step getArea s e = some s') (id : ℕ) :
    s'.Gone id ↔ s.Gone id ∨ (e = .roomBegin id ∧ s.IsOpen id) := by
  have heff := step_effect h
  -- most steps change neither the ids of the objects nor the keys of `room_tbl`
  have hsame : s'.roomTbl = s.roomTbl → (∀ ref, s'.idAt ref = s.idAt ref) →
      (s'.Gone id ↔ s.Gone id) := by
    intro htbl hids
    simp only [State.Gone, State.IsOpen, htbl, hids]
  have hclose : ∀ n, s'.roomTbl = Function.update s.roomTbl n none →
      (∀ ref, s'.idAt ref = s.idAt ref) → (s'.Gone id ↔ s.Gone id ∨ (n = id ∧ s.IsOpen id)) :=
    fun n htbl hids => gone_close hs htbl hids id
  cases heff with
  | create index hindex gameId p => simpa using gone_create hs index hindex gameId p id
  | join n p ref room hroom =>
    simpa using hsame rfl (idAt_setRoom (roomAt_eq_some.mp hroom).2
      (room.withPlayer p) rfl)
  | joinFill n p ref room hroom =>
    simpa using hsame rfl (idAt_setRoom (roomAt_eq_some.mp hroom).2
      { room.withPlayer p with ready := true } rfl)
  | beginUnknown n hroom => simpa using hclose n rfl fun _ => rfl
  | begin n ref room hroom => simpa using hclose n rfl fun _ => rfl
  | startRaise _ _ t room _ hroom | startNext _ t room _ _ _ _ hroom
  | startLast _ t room _ _ hroom =>
    simpa using hsame rfl (idAt_setRoom hroom { room with gettingArea := true } rfl)
  | tickStart => simpa using hsame rfl fun _ => rfl
  | createRaise | joinUnknown | tickIdle => simp

/-- A `create_room` request makes an object exactly if an id is left. -/
theorem fresh_step {s s' : State A G} {e : Event A G} (h : step getArea s e = some s') :
    s'.fresh = if e.isCreate ∧ s.idMgr.tbl.len ≠ 0 then s.fresh + 1 else s.fresh := by
  cases step_effect h with
  | create index hindex gameId p =>
    have hlen : s.idMgr.tbl.len ≠ 0 := by omega
    simp [State.create, Event.isCreate, hlen]
  | createRaise index gameId p hlen => simp [hlen]
  | _ => rfl

/-! ## Runs -/

/-- After a run, the objects that have left `room_tbl` are the rooms closed in it. -/
theorem gone_iff_closedIn {s : State A G} {es : List (Event A G)}
    (h : Machine.run (step getArea) State.init es = some s) (id : ℕ) :
    s.Gone id ↔ ClosedIn getArea es id := by
  have hgone : Machine.run (step getArea) State.init es = some s ∧
      (s.Gone id ↔ ClosedIn getArea es id) := by
    refine Machine.run_history (I := fun es t =>
      Machine.run (step getArea) State.init es = some t ∧ (t.Gone id ↔ ClosedIn getArea es id))
      ?_ ⟨rfl, ?_⟩ h
    · rintro es t e t' ⟨hrun, ih⟩ he
      refine ⟨Machine.run_concat hrun he, ?_⟩
      rw [gone_step (Sound.init.run hrun).coherent he, ih]
      refine ⟨?_, ?_⟩
      · rintro (⟨es₁, es₂, s₁, rfl, hrun₁, hopen⟩ | ⟨rfl, hopen⟩)
        · exact ⟨es₁, es₂ ++ [e], s₁, by simp, hrun₁, hopen⟩
        · exact ⟨es, [], t, rfl, hrun, hopen⟩
      · rintro ⟨es₁, es₂, s₁, hes, hrun₁, hopen⟩
        rcases List.eq_nil_or_concat es₂ with rfl | ⟨es₂', e', rfl⟩
        · obtain ⟨rfl, he'⟩ := List.append_inj' hes rfl
          obtain rfl := List.cons.inj he' |>.1
          obtain rfl := Option.some.inj (hrun.symm.trans hrun₁)
          exact .inr ⟨rfl, hopen⟩
        · rw [List.concat_eq_append, ← List.cons_append, ← List.append_assoc] at hes
          obtain ⟨rfl, -⟩ := List.append_inj' hes rfl
          exact .inl ⟨es₁, es₂', s₁, rfl, hrun₁, hopen⟩
    · refine ⟨?_, ?_⟩
      · rintro ⟨-, ref, href⟩
        cases href
      · rintro ⟨es₁, es₂, s₁, hes, -⟩
        simp at hes
  exact hgone.2

/-- Every `create_room` request takes an id, until there are none. -/
theorem fresh_eq_min {s : State A G} {es : List (Event A G)}
    (h : Machine.run (step getArea) State.init es = some s) :
    s.fresh = min 999999 (es.countP Event.isCreate) := by
  have hfresh : Sound s ∧ s.fresh = min 999999 (es.countP Event.isCreate) := by
    refine Machine.run_history (I := fun es t =>
      Sound t ∧ t.fresh = min 999999 (es.countP Event.isCreate)) ?_ ⟨Sound.init, rfl⟩ h
    rintro es t e t' ⟨ht, ih⟩ he
    refine ⟨ht.step he, ?_⟩
    have hsize := ht.coherent.size
    rw [fresh_step he, List.countP_append, List.countP_singleton]
    by_cases hcreate : e.isCreate
    · simp only [hcreate, true_and, if_true]
      split_ifs <;> omega
    · simp only [hcreate, Bool.false_eq_true, false_and, if_false]
      omega
  exact hfresh.2

/-- A request can be served exactly while an id is left. -/
theorem createSucceeds_iff {s : State A G} (hs : Coherent s) (gameId : G) (p : PlayerInfo A) :
    CreateSucceeds getArea s gameId p ↔ s.idMgr.tbl.len ≠ 0 := by
  refine ⟨?_, fun hlen => ?_⟩
  · rintro ⟨index, s', id, hstep, hclosed, hopen⟩ hlen
    rw [RoomMgr.step] at hstep
    split_ifs at hstep with hindex
    · omega
    · cases hstep
      exact hclosed hopen
  · have hindex : 1 ≤ 1 ∧ 1 ≤ s.idMgr.tbl.len := by omega
    refine ⟨1, (s.create 1 hindex gameId p).2, (s.idMgr.genId 1 hindex).1, dif_pos hindex, ?_,
      s.fresh, Function.update_self ..⟩
    rintro ⟨ref, hopen⟩
    exact (hs.taken ref _ (hs.opened _ ref hopen)).2 (s.idMgr.genId_mem 1 hindex)

/-- **Ids are conserved, counting the closed rooms.** After any run the pool,
the keys of `room_tbl` and the ids of the rooms closed in the run are exactly
`1 .. 999999`; each id is in one of the three, and in the pool once. `create`
succeeds exactly while fewer than 999999 rooms were ever asked for. -/
theorem ids_conserved {s : State A G} {es : List (Event A G)}
    (h : Machine.run (step getArea) State.init es = some s) :
    (∀ id, (1 ≤ id ∧ id ≤ 999999) ↔ s.InPool id ∨ s.IsOpen id ∨ ClosedIn getArea es id) ∧
      (∀ id, ¬ (s.InPool id ∧ s.IsOpen id) ∧ ¬ (s.InPool id ∧ ClosedIn getArea es id) ∧
        ¬ (s.IsOpen id ∧ ClosedIn getArea es id)) ∧
      s.idMgr.tbl.Distinct ∧
      ∀ gameId p, CreateSucceeds getArea s gameId p ↔ es.countP Event.isCreate < 999999 := by
  have hs := (Sound.init.run h).coherent
  have hgone := gone_iff_closedIn h
  refine ⟨fun id => ⟨?_, ?_⟩, fun id => ⟨?_, ?_, ?_⟩, hs.distinct, fun gameId p => ?_⟩
  · rintro ⟨h₁, h₂⟩
    obtain hin | ⟨ref, href⟩ := hs.covered id h₁ h₂
    · exact .inl hin
    · by_cases hopen : s.IsOpen id
      · exact .inr (.inl hopen)
      · exact .inr (.inr ((hgone id).mp ⟨hopen, ref, href⟩))
  · rintro (hin | ⟨ref, hopen⟩ | hclosed)
    · exact hs.pool id hin
    · exact (hs.taken ref id (hs.opened id ref hopen)).1
    · obtain ⟨-, ref, href⟩ := (hgone id).mpr hclosed
      exact (hs.taken ref id href).1
  · rintro ⟨hin, ref, hopen⟩
    exact (hs.taken ref id (hs.opened id ref hopen)).2 hin
  · rintro ⟨hin, hclosed⟩
    obtain ⟨-, ref, href⟩ := (hgone id).mpr hclosed
    exact (hs.taken ref id href).2 hin
  · rintro ⟨hopen, hclosed⟩
    exact ((hgone id).mpr hclosed).1 hopen
  · have hsize := hs.size
    rw [fresh_eq_min h] at hsize
    rw [createSucceeds_iff hs]
    omega

/-- Account `7` creates room `1`, and the room is closed again. -/
def openAndClose : List (Event ℕ (Option ℕ)) := [.createRoom 1 (some 1) ⟨0, 7⟩, .roomBegin 1]

theorem ids_conserved_openAndClose :
    ∃ s, Machine.run (step (AreaMgr.init fun _ id => id).getArea) State.init openAndClose = some s ∧
      ∀ id, (1 ≤ id ∧ id ≤ 999999) ↔ s.InPool id ∨ s.IsOpen id ∨
        ClosedIn (AreaMgr.init fun _ id => id).getArea openAndClose id :=
  ⟨_, rfl, (ids_conserved rfl).1⟩

/-- Then id `1` is neither in the pool nor a key of `room_tbl`. -/
theorem closed_id_leaks :
    ¬ ∀ (es : List (Event ℕ (Option ℕ))) (s : State ℕ (Option ℕ)),
      Machine.run (step (AreaMgr.init fun _ id => id).getArea) State.init es = some s →
      ∀ id, (1 ≤ id ∧ id ≤ 999999) ↔ s.InPool id ∨ s.IsOpen id := by
  intro hall
  have hindex : 1 ≤ 1 ∧ 1 ≤ (State.init : State ℕ (Option ℕ)).idMgr.tbl.len := by decide
  have hrun : Machine.run (step (AreaMgr.init fun _ id => id).getArea) State.init openAndClose =
      some ((State.init.create 1 hindex (some 1) ⟨0, 7⟩).2.roomBegin 1).2 := rfl
  obtain hin | ⟨ref, hopen⟩ := (hall _ _ hrun 1).mp (by decide)
  · have hmem := (LuaArray.mem_swapRemove IdMgr.distinct_init (h := hindex)).mp hin
    exact hmem.2 rfl
  · cases hopen

end SlgServer.RoomMgr
