import SlgServer.AreaMgr
import SlgServer.RoomQueue

/-!
# What clients are told (`service/base_app`)

Clients talk to base apps, which pass `create_room` and `join_room` on to
`room_mgr` and answer with what comes back. The handler of `join_room` does not
look at what comes back. So the answers are true exactly as long as every
`join_room` finds its room open and not yet sent to an area (`honest_iff`).
-/

namespace SlgServer.BaseApp

open RoomMgr

variable {A G : Type}

/-! ## The handlers (`msg_handler/room.lua`) -/

/-- A request of a client. -/
inductive Request (G : Type) : Type where
  /-- `room.create_room` -/
  | createRoom (gameId : G)
  /-- `room.join_room` -/
  | joinRoom (roomId : ℕ)

/-- The values `room_mgr` returns: an id, or whether there is such a room. -/
inductive Returned : Type where
  /-- from `create_room` -/
  | id (id : ℕ)
  /-- from `join_room` -/
  | found (b : Bool)

/-- An answer to a client. -/
structure Reply : Type where
  /-- `room_id` -/
  roomId : Option ℕ
  /-- `errmsg` -/
  errmsg : Option String

/-- What the handlers make of the value returned; that of `join_room` is
dropped. -/
def reply : Request G → Returned → Reply
  | .createRoom _, .id id => ⟨some id, none⟩
  | .createRoom _, .found _ => ⟨none, none⟩
  | .joinRoom roomId, _ => ⟨some roomId, none⟩

/-- Where a call of `room_mgr` is. -/
inductive Status : Type where
  /-- `room_mgr` has not handled it -/
  | waiting
  /-- `room_mgr` raised an error, and so does the handler -/
  | raised
  /-- the value is on its way back -/
  | returned (ret : Returned)
  /-- the client has its answer -/
  | answered (r : Reply)

/-- What was the case when `room_mgr` handled a call. Nothing in the program
looks at it. -/
structure Handling : Type where
  /-- afterwards the account was in the player list of the open room answered -/
  seated : Bool
  /-- before, that room had been sent to an area -/
  sentBefore : Bool

/-- A request that is being handled. -/
structure Call (A G : Type) : Type where
  /-- the base app -/
  baseApp : ℕ
  /-- the account of the client -/
  account : A
  /-- what is asked for -/
  request : Request G
  /-- how far it is -/
  status : Status
  /-- what was the case when it was handled -/
  handling : Option Handling

/-- The answer given, or on its way. -/
def Call.answer (c : Call A G) : Option Reply :=
  match c.status with
  | .waiting => none
  | .raised => none
  | .returned ret => some (reply c.request ret)
  | .answered r => some r

/-! ## Base apps and the room manager -/

/-- The room manager, the players known to the base apps and the requests. -/
structure Sys (A G : Type) : Type where
  /-- the service `room_mgr` -/
  mgr : State A G
  /-- `fd_2_player` of each base app: the account behind a connection -/
  fd2Player : ℕ → ℕ → Option A
  /-- the requests so far -/
  calls : List (Call A G)

/-- At the start nobody is logged in. -/
def Sys.init : Sys A G := ⟨State.init, fun _ _ => none, []⟩

/-- What can happen. -/
inductive SysEvent (A G : Type) : Type where
  /-- a client logs in to a base app -/
  | login (baseApp fd : ℕ) (account : A)
  /-- a base app gets a request -/
  | request (baseApp fd : ℕ) (r : Request G)
  /-- `room_mgr` handles the call number `k`; `index` is drawn if a room is created -/
  | handle (k index : ℕ)
  /-- the base app answers the request number `k` -/
  | answer (k : ℕ)
  /-- `room_mgr` handles a tick, an answer of `area_mgr` or a `room_begin` -/
  | mgr (e : Event A G)

section Step

variable [DecidableEq A]

/-- `room_mgr` serves a call: what it returns, or `none` for an error. -/
def serve (s : State A G) (index : ℕ) (p : PlayerInfo A) :
    Request G → Option (Option Returned × State A G)
  | .createRoom gameId =>
    if h : 1 ≤ index ∧ index ≤ s.idMgr.tbl.len then
      let r := s.create index h gameId p
      some (some (.id r.1), r.2)
    else if s.idMgr.tbl.len = 0 then some (none, s)
    else none
  | .joinRoom roomId =>
    let r := s.join roomId p
    some (some (.found r.1), r.2)

/-- The account is in the player list of the open room `id`. -/
def seatedIn (s : State A G) (account : A) (id : ℕ) : Bool :=
  match s.roomAt id with
  | none => false
  | some (_, room) => decide (account ∈ room.accounts)

instance (s : State A G) (id : ℕ) : Decidable (s.Sent id) :=
  inferInstanceAs (Decidable (∃ m ∈ s.sent, m.2.id = id))

/-- A call that `room_mgr` has handled. -/
def Call.handled (c : Call A G) (before after : State A G) : Option Returned → Call A G
  | none => { c with status := .raised }
  | some ret => { c with
      status := .returned ret
      handling := (reply c.request ret).roomId.map fun id =>
        ⟨seatedIn after c.account id, decide (before.Sent id)⟩ }

/-- One event. Without a player behind the connection, `player:get_account`
raises and nothing is sent. -/
def sysStep (getArea : G → Option ℕ) (n : Sys A G) : SysEvent A G → Option (Sys A G)
  | .login baseApp fd account => some { n with
      fd2Player := Function.update n.fd2Player baseApp
        (Function.update (n.fd2Player baseApp) fd (some account)) }
  | .request baseApp fd r =>
    match n.fd2Player baseApp fd with
    | none => some n
    | some account => some { n with
        calls := n.calls ++ [⟨baseApp, account, r, .waiting, none⟩] }
  | .handle k index =>
    match n.calls[k]? with
    | none => none
    | some c =>
      match c.status with
      | .waiting => (serve n.mgr index ⟨c.baseApp, c.account⟩ c.request).map fun r =>
          { n with mgr := r.2, calls := n.calls.set k (c.handled n.mgr r.2 r.1) }
      | _ => none
  | .answer k =>
    match n.calls[k]? with
    | none => none
    | some c =>
      match c.status with
      | .returned ret => some { n with
          calls := n.calls.set k { c with status := .answered (reply c.request ret) } }
      | _ => none
  | .mgr (.createRoom ..) => none
  | .mgr (.joinRoom ..) => none
  | .mgr e => (step getArea n.mgr e).map fun s => { n with mgr := s }

end Step

/-! ## Honest answers -/

/-- The request is a `join_room`. -/
def Request.IsJoin : Request G → Prop
  | .createRoom _ => False
  | .joinRoom _ => True

/-- What is answered without an error took effect: the account was put in the
player list of the open room, for a join before the room was sent to an area,
and it is in every player list that was sent for the room. -/
def HonestCall (s : State A G) (c : Call A G) : Prop :=
  ∀ id, c.answer = some ⟨some id, none⟩ →
    (∃ h, c.handling = some h ∧ h.seated = true ∧ (c.request.IsJoin → h.sentBefore = false)) ∧
      ∀ m ∈ s.sent, m.2.id = id → c.account ∈ m.2.accounts

/-- All answers are true. -/
def Honest (n : Sys A G) : Prop := ∀ c ∈ n.calls, HonestCall n.mgr c

/-- A `join_room` is handled while its room is open and was not yet sent. -/
def FindsRoom (n : Sys A G) : SysEvent A G → Prop
  | .handle k _ => ∀ c roomId, n.calls[k]? = some c → c.request = .joinRoom roomId →
      (∃ ref room, n.mgr.roomAt roomId = some (ref, room)) ∧ ¬ n.mgr.Sent roomId
  | _ => True

theorem Honest.init : Honest (Sys.init : Sys A G) := by
  intro c hc
  cases hc

variable [DecidableEq A] {getArea : G → Option ℕ}

theorem seatedIn_iff {s : State A G} {a : A} {id : ℕ} :
    seatedIn s a id = true ↔ ∃ ref room, s.roomAt id = some (ref, room) ∧ a ∈ room.accounts := by
  rw [seatedIn]
  cases hroom : s.roomAt id with
  | none => simp
  | some r =>
    obtain ⟨ref, room⟩ := r
    simp

/-- An account that was seated is still in the player list of the room object. -/
def Kept (s : State A G) (c : Call A G) : Prop :=
  ∀ h r id, c.handling = some h → h.seated = true → c.answer = some r → r.roomId = some id →
    ∃ ref room, s.rooms ref = some room ∧ room.id = id ∧ c.account ∈ room.accounts

/-- What holds in every state the system can reach. -/
structure SysInv (n : Sys A G) : Prop where
  /-- the manager is in a reachable state -/
  sound : Sound n.mgr
  /-- seats are kept -/
  kept : ∀ c ∈ n.calls, Kept n.mgr c

omit [DecidableEq A] in
theorem SysInv.init : SysInv (Sys.init : Sys A G) := ⟨Sound.init, fun _ h => by cases h⟩

/-- Seats are kept by what `room_mgr` does. -/
theorem Kept.frame {s s' : State A G} {e : Event A G} {c : Call A G} (hs : Sound s)
    (hc : Kept s c) (h : Effect getArea s e s') : Kept s' c := by
  intro hd r id hhandling hseated hanswer hid
  obtain ⟨ref, room, hroom, hrid, hmem⟩ := hc hd r id hhandling hseated hanswer hid
  obtain ⟨room', hroom', hle⟩ := h.heapLe hs.coherent hroom
  exact ⟨ref, room', hroom', hle.id.trans hrid, (hle.players.map _).subset hmem⟩

/-- Answers stay true: a room is sent with all that were seated in it. -/
theorem HonestCall.frame {s s' : State A G} {e : Event A G} {c : Call A G} (hs : Sound s)
    (hkept : Kept s c) (hc : HonestCall s c) (h : Effect getArea s e s') : HonestCall s' c := by
  intro id hanswer
  obtain ⟨hhandling, hsentOld⟩ := hc id hanswer
  refine ⟨hhandling, ?_⟩
  obtain ⟨_, _, t, room, addr, -, -, hroom, -, hsent⟩ | hsent := h.sent
  · rw [hsent]
    intro m hm hid
    rcases List.mem_append.mp hm with hm | hm
    · exact hsentOld m hm hid
    · obtain rfl := List.mem_singleton.mp hm
      obtain ⟨hd, hhd, hseated, -⟩ := hhandling
      obtain ⟨ref, room', hroom', hrid, hmem⟩ := hkept hd _ id hhd hseated hanswer rfl
      -- the object sent is the one the account was seated in
      have href : ref = t.room := hs.coherent.unique _ _ id
        (by rw [idAt_of_rooms hroom', hrid]) (by rw [idAt_of_rooms hroom]; exact congrArg _ hid)
      subst href
      obtain rfl := Option.some.inj (hroom'.symm.trans hroom)
      exact hmem
  · rw [hsent]
    exact hsentOld

/-- The event of `room_mgr` that serves a call. -/
def Call.event (c : Call A G) (index : ℕ) : Event A G :=
  match c.request with
  | .createRoom gameId => .createRoom index gameId ⟨c.baseApp, c.account⟩
  | .joinRoom roomId => .joinRoom roomId ⟨c.baseApp, c.account⟩

theorem serve_step {s : State A G} {index : ℕ} {c : Call A G} {r : Option Returned × State A G}
    (h : serve s index ⟨c.baseApp, c.account⟩ c.request = some r) :
    RoomMgr.step getArea s (c.event index) = some r.2 := by
  rw [Call.event]
  cases hreq : c.request with
  | createRoom gameId =>
    rw [hreq, serve] at h
    rw [RoomMgr.step]
    split_ifs at h with hindex hlen
    · cases h
      rw [dif_pos hindex]
    · cases h
      rw [dif_neg hindex, if_pos hlen]
  | joinRoom roomId =>
    rw [hreq, serve] at h
    cases h
    rfl

/-- The seat noted when a call is handled is a seat in a room object. -/
theorem kept_handled {s s' : State A G} (hs' : Coherent s') (c : Call A G)
    (ret : Option Returned) : Kept s' (c.handled s s' ret) := by
  intro h r id hhandling hseated hanswer hid
  cases ret with
  | none => cases hanswer
  | some ret =>
    obtain rfl := Option.some.inj hanswer
    have hroomId : (reply c.request ret).roomId = some id := hid
    simp only [Call.handled, hroomId, Option.map_some, Option.some.injEq] at hhandling
    subst hhandling
    obtain ⟨ref, room, hroom, hmem⟩ := seatedIn_iff.mp hseated
    exact ⟨ref, room, (roomAt_eq_some.mp hroom).2, hs'.id_eq hroom, hmem⟩

/-- A created room has its owner in it, and was never sent. -/
theorem honest_created {s : State A G} (hs : Sound s) {index : ℕ}
    (hindex : 1 ≤ index ∧ index ≤ s.idMgr.tbl.len) {gameId : G} {c : Call A G}
    (hreq : c.request = .createRoom gameId) :
    HonestCall (s.create index hindex gameId ⟨c.baseApp, c.account⟩).2
      (c.handled s (s.create index hindex gameId ⟨c.baseApp, c.account⟩).2
        (some (.id (s.create index hindex gameId ⟨c.baseApp, c.account⟩).1))) := by
  intro id hanswer
  have hid : (s.create index hindex gameId ⟨c.baseApp, c.account⟩).1 = id := by
    simpa [Call.answer, Call.handled, hreq, reply] using hanswer
  subst hid
  refine ⟨⟨_, by simp [Call.handled, hreq, reply]; rfl, ?_, ?_⟩, ?_⟩
  · refine seatedIn_iff.mpr ⟨s.fresh, Room.new _ gameId ⟨c.baseApp, c.account⟩,
      roomAt_eq_some.mpr ⟨Function.update_self .., Function.update_self ..⟩, ?_⟩
    simp [Room.accounts, Room.new]
  · intro hjoin
    simp [Call.handled, hreq, Request.IsJoin] at hjoin
  · intro m hm hid
    obtain ⟨ref, room, hroom, hrid, -⟩ := hs.queued.sent m hm
    have htaken := (hs.coherent.taken ref _ (idAt_of_rooms hroom)).2
    rw [hrid, hid] at htaken
    exact absurd (s.idMgr.genId_mem index hindex) htaken

/-- A join is answered truly exactly if it finds its room. -/
theorem honest_joined {s : State A G} {roomId : ℕ} {c : Call A G}
    (hreq : c.request = .joinRoom roomId) :
    HonestCall (s.join roomId ⟨c.baseApp, c.account⟩).2
        (c.handled s (s.join roomId ⟨c.baseApp, c.account⟩).2
          (some (.found (s.join roomId ⟨c.baseApp, c.account⟩).1))) ↔
      (∃ ref room, s.roomAt roomId = some (ref, room)) ∧ ¬ s.Sent roomId := by
  have heff : Effect (fun _ => none) s (.joinRoom roomId ⟨c.baseApp, c.account⟩)
      (s.join roomId ⟨c.baseApp, c.account⟩).2 := step_effect rfl
  have hanswer : ∀ s' b, (c.handled s s' (some (.found b))).answer = some ⟨some roomId, none⟩ := by
    intro s' b
    simp [Call.answer, Call.handled, hreq, reply]
  have hhandling : ∀ s' b, (c.handled s s' (some (.found b))).handling =
      some ⟨seatedIn s' c.account roomId, decide (s.Sent roomId)⟩ := by
    intro s' b
    simp [Call.handled, hreq, reply]
  refine ⟨fun hc => ?_, ?_⟩
  · obtain ⟨⟨h, hh, hseated, hbefore⟩, -⟩ := hc roomId (hanswer _ _)
    rw [hhandling] at hh
    obtain rfl := Option.some.inj hh
    refine ⟨?_, ?_⟩
    · obtain ⟨ref, room, hroom, -⟩ := seatedIn_iff.mp hseated
      cases hold : s.roomAt roomId with
      | none =>
        -- an unknown room is not made by a join
        simp only [State.join, hold] at hroom
        cases hroom
      | some r => exact ⟨r.1, r.2, rfl⟩
    · have hjoin : (c.handled s (s.join roomId ⟨c.baseApp, c.account⟩).2
          (some (.found (s.join roomId ⟨c.baseApp, c.account⟩).1))).request.IsJoin := by
        simp [Call.handled, hreq, Request.IsJoin]
      exact of_decide_eq_false (hbefore hjoin)
  · rintro ⟨⟨ref, room, hroom⟩, hnot⟩ id hid
    rw [hanswer] at hid
    obtain rfl : roomId = id := by simpa using hid
    obtain ⟨room', hroom', hplayers⟩ := heff.joined hroom
    refine ⟨⟨_, hhandling _ _, ?_, fun _ => decide_eq_false hnot⟩, ?_⟩
    · refine seatedIn_iff.mpr ⟨ref, room', hroom', ?_⟩
      simp [Room.accounts, hplayers]
    · obtain ⟨_, _, _, _, _, he, -⟩ | hsent := heff.sent
      · cases he
      · rw [hsent]
        intro m hm hmid
        exact absurd ⟨m, hm, hmid⟩ hnot

/-- **A call that is handled**, if it is a join, is answered truly exactly if it
finds its room. -/
theorem honest_handled {s : State A G} (hs : Sound s) {index : ℕ} {c : Call A G}
    {r : Option Returned × State A G}
    (h : serve s index ⟨c.baseApp, c.account⟩ c.request = some r) :
    HonestCall r.2 (c.handled s r.2 r.1) ↔ ∀ roomId, c.request = .joinRoom roomId →
      (∃ ref room, s.roomAt roomId = some (ref, room)) ∧ ¬ s.Sent roomId := by
  cases hreq : c.request with
  | createRoom gameId =>
    rw [hreq, serve] at h
    refine iff_of_true ?_ fun roomId he => by cases he
    split_ifs at h with hindex hlen
    · cases h
      exact honest_created hs hindex hreq
    · cases h
      intro id hanswer
      cases hanswer
  | joinRoom roomId =>
    rw [hreq, serve] at h
    cases h
    rw [honest_joined hreq]
    refine ⟨?_, fun hall => ?_⟩
    · rintro hfinds n he
      obtain rfl := Request.joinRoom.inj he
      exact hfinds
    · exact hall roomId rfl

/-- Each way an event can go. -/
inductive SysEffect (getArea : G → Option ℕ) (n : Sys A G) : SysEvent A G → Sys A G → Prop where
  /-- a client logs in -/
  | login (baseApp fd : ℕ) (account : A) :
      SysEffect getArea n (.login baseApp fd account) { n with
        fd2Player := Function.update n.fd2Player baseApp
          (Function.update (n.fd2Player baseApp) fd (some account)) }
  /-- a request of nobody -/
  | stray (baseApp fd : ℕ) (r : Request G) : SysEffect getArea n (.request baseApp fd r) n
  /-- a request is passed on -/
  | request (baseApp fd : ℕ) (r : Request G) (account : A) :
      SysEffect getArea n (.request baseApp fd r) { n with
        calls := n.calls ++ [⟨baseApp, account, r, .waiting, none⟩] }
  /-- a call is handled -/
  | handle (k index : ℕ) (c : Call A G) (r : Option Returned × State A G)
      (hcall : n.calls[k]? = some c)
      (hserve : serve n.mgr index ⟨c.baseApp, c.account⟩ c.request = some r) :
      SysEffect getArea n (.handle k index)
        { n with mgr := r.2, calls := n.calls.set k (c.handled n.mgr r.2 r.1) }
  /-- a request is answered -/
  | answer (k : ℕ) (c : Call A G) (ret : Returned) (hcall : n.calls[k]? = some c)
      (hstatus : c.status = .returned ret) :
      SysEffect getArea n (.answer k) { n with
        calls := n.calls.set k { c with status := .answered (reply c.request ret) } }
  /-- `room_mgr` does something else -/
  | mgr (e : Event A G) (s : State A G) (hstep : RoomMgr.step getArea n.mgr e = some s) :
      SysEffect getArea n (.mgr e) { n with mgr := s }

/-- **Inversion.** -/
theorem sysStep_effect {n n' : Sys A G} {e : SysEvent A G} (h : sysStep getArea n e = some n') :
    SysEffect getArea n e n' := by
  cases e with
  | login baseApp fd account =>
    cases h
    exact .login baseApp fd account
  | request baseApp fd r =>
    rw [sysStep] at h
    cases hplayer : n.fd2Player baseApp fd with
    | none =>
      simp only [hplayer, Option.some.injEq] at h
      subst h
      exact .stray baseApp fd r
    | some account =>
      simp only [hplayer, Option.some.injEq] at h
      subst h
      exact .request baseApp fd r account
  | handle k index =>
    rw [sysStep] at h
    cases hcall : n.calls[k]? with
    | none => simp [hcall] at h
    | some c =>
      cases hstatus : c.status with
      | waiting =>
        simp only [hcall, hstatus] at h
        obtain ⟨r, hserve, rfl⟩ := Option.map_eq_some_iff.mp h
        exact .handle k index c r hcall hserve
      | _ => simp [hcall, hstatus] at h
  | answer k =>
    rw [sysStep] at h
    cases hcall : n.calls[k]? with
    | none => simp [hcall] at h
    | some c =>
      cases hstatus : c.status with
      | returned ret =>
        simp only [hcall, hstatus, Option.some.injEq] at h
        subst h
        exact .answer k c ret hcall hstatus
      | _ => simp [hcall, hstatus] at h
  | mgr e =>
    have hmgr : (RoomMgr.step getArea n.mgr e).map (fun s => { n with mgr := s }) = some n' := by
      cases e with
      | createRoom | joinRoom => cases h
      | _ => exact h
    obtain ⟨s, hstep, rfl⟩ := Option.map_eq_some_iff.mp hmgr
    exact .mgr _ s hstep

omit [DecidableEq A] in
/-- Answering a request changes nothing about the answer. -/
theorem answer_answered {c : Call A G} {ret : Returned} (hstatus : c.status = .returned ret) :
    Call.answer { c with status := .answered (reply c.request ret) } = c.answer := by
  simp [Call.answer, hstatus]

/-- The step lemma. -/
theorem SysInv.step {n n' : Sys A G} {e : SysEvent A G} (hn : SysInv n)
    (h : sysStep getArea n e = some n') : SysInv n' := by
  cases sysStep_effect h with
  | login | stray => exact ⟨hn.sound, hn.kept⟩
  | request baseApp fd r account =>
    refine ⟨hn.sound, fun c hc => ?_⟩
    rcases List.mem_append.mp hc with hc | hc
    · exact hn.kept c hc
    · obtain rfl := List.mem_singleton.mp hc
      intro h r id hhandling
      cases hhandling
  | handle k index c r hcall hserve =>
    have hstep : RoomMgr.step getArea n.mgr (c.event index) = some r.2 := serve_step hserve
    have hsound := hn.sound.step hstep
    refine ⟨hsound, fun c' hc' => ?_⟩
    rcases List.mem_or_eq_of_mem_set hc' with hc' | rfl
    · exact (hn.kept c' hc').frame hn.sound (step_effect hstep)
    · exact kept_handled hsound.coherent c r.1
  | answer k c ret hcall hstatus =>
    refine ⟨hn.sound, fun c' hc' => ?_⟩
    rcases List.mem_or_eq_of_mem_set hc' with hc' | rfl
    · exact hn.kept c' hc'
    · intro h r id hhandling hseated hanswer
      rw [answer_answered hstatus] at hanswer
      exact hn.kept c (List.mem_of_getElem? hcall) h r id hhandling hseated hanswer
  | mgr e s hstep =>
    exact ⟨hn.sound.step hstep, fun c hc =>
      (hn.kept c hc).frame hn.sound (step_effect hstep)⟩

/-- A step keeps the answers true exactly if a join that is handled finds its
room. -/
theorem honest_step {n n' : Sys A G} {e : SysEvent A G} (hn : SysInv n) (hp : Honest n)
    (h : sysStep getArea n e = some n') : Honest n' ↔ FindsRoom n e := by
  cases sysStep_effect h with
  | login | stray => exact iff_of_true hp trivial
  | request baseApp fd r account =>
    refine iff_of_true (fun c hc => ?_) trivial
    rcases List.mem_append.mp hc with hc | hc
    · exact hp c hc
    · obtain rfl := List.mem_singleton.mp hc
      intro id hanswer
      cases hanswer
  | handle k index c r hcall hserve =>
    have hstep : RoomMgr.step getArea n.mgr (c.event index) = some r.2 := serve_step hserve
    have hiff := honest_handled hn.sound hserve
    refine ⟨fun hp' c' roomId hcall' hreq => ?_, fun hfinds c' hc' => ?_⟩
    · obtain rfl := Option.some.inj (hcall.symm.trans hcall')
      obtain ⟨hlt, -⟩ := List.getElem?_eq_some_iff.mp hcall
      exact hiff.mp (hp' _ (List.mem_set hlt _)) roomId hreq
    · rcases List.mem_or_eq_of_mem_set hc' with hc' | rfl
      · exact (hp c' hc').frame hn.sound (hn.kept c' hc') (step_effect hstep)
      · exact hiff.mpr fun roomId hreq => hfinds c roomId hcall hreq
  | answer k c ret hcall hstatus =>
    refine iff_of_true (fun c' hc' => ?_) trivial
    rcases List.mem_or_eq_of_mem_set hc' with hc' | rfl
    · exact hp c' hc'
    · intro id hanswer
      rw [answer_answered hstatus] at hanswer
      exact hp c (List.mem_of_getElem? hcall) id hanswer
  | mgr e s hstep =>
    exact iff_of_true (fun c hc =>
      (hp c hc).frame hn.sound (hn.kept c hc) (step_effect hstep)) trivial

/-- **When clients are told the truth.** Throughout a run everything that is
answered without an error took effect, iff every join of the run is handled
while its room is open and was not yet sent to an area. -/
theorem honest_iff {n : Sys A G} {es : List (SysEvent A G)}
    (h : Machine.run (sysStep getArea) Sys.init es = some n) :
    Machine.Always (sysStep getArea) Honest Sys.init es ↔
      Machine.Guarded (sysStep getArea) FindsRoom Sys.init es :=
  Machine.always_iff_guarded (I := SysInv) (fun _ _ _ hn h => hn.step h)
    (fun _ _ _ hn hp h => honest_step hn hp h) SysInv.init Honest.init h

/-- A client logs in and creates room `1`. -/
def loginAndCreate : List (SysEvent ℕ (Option ℕ)) :=
  [.login 0 7 1, .request 0 7 (.createRoom (some 1)), .handle 0 1, .answer 0]

theorem honest_loginAndCreate :
    Machine.Always (sysStep (AreaMgr.init fun _ id => id).getArea) Honest Sys.init
        loginAndCreate ↔
      Machine.Guarded (sysStep (AreaMgr.init fun _ id => id).getArea) FindsRoom Sys.init
        loginAndCreate :=
  honest_iff (n := _) rfl

/-- A client that joins a room nobody has created is told that it joined. -/
theorem unknown_room_joined :
    ¬ ∀ (es : List (SysEvent ℕ (Option ℕ))) (n : Sys ℕ (Option ℕ)),
      Machine.run (sysStep (AreaMgr.init fun _ id => id).getArea) Sys.init es = some n →
      Honest n := by
  intro hall
  have hrun : ∃ n c, Machine.run (sysStep (AreaMgr.init fun _ id => id).getArea) Sys.init
      [.login 0 7 1, .request 0 7 (.joinRoom 123), .handle 0 1, .answer 0] = some n ∧
      n.calls = [c] ∧ c.status = .answered ⟨some 123, none⟩ ∧
      c.handling = some ⟨false, false⟩ :=
    ⟨_, _, rfl, rfl, rfl, rfl⟩
  obtain ⟨n, c, hrun, hcalls, hstatus, hhandling⟩ := hrun
  have hc : c ∈ n.calls := by
    rw [hcalls]
    exact List.mem_singleton_self c
  have hanswer : c.answer = some ⟨some 123, none⟩ := by rw [Call.answer, hstatus]
  obtain ⟨⟨h, hh, hseated, -⟩, -⟩ := hall _ n hrun c hc 123 hanswer
  rw [hhandling] at hh
  obtain rfl := Option.some.inj hh
  cases hseated

end SlgServer.BaseApp
