import SlgServer.RoomMgr
import Mathlib.Data.List.Nodup

/-!
# What a step of the room manager can do

`Effect` lists the steps: one constructor for each path through a handler, with
its guards and the state it leaves. `step_effect` inverts `step` once and for
all; the invariants below, and those of the later files, go by cases on it.

`Coherent` is the first of them: the pool, the heap and `room_tbl` fit together.
-/

namespace SlgServer.RoomMgr

open State

variable {A G : Type}

/-! ## The heap -/

/-- The id of the room object at a reference. -/
def State.idAt (s : State A G) (ref : ℕ) : Option ℕ := (s.rooms ref).map Room.id

theorem roomAt_eq_some {s : State A G} {id ref : ℕ} {room : Room A G} :
    s.roomAt id = some (ref, room) ↔ s.roomTbl id = some ref ∧ s.rooms ref = some room := by
  simp [State.roomAt, Option.bind_eq_some_iff, Option.map_eq_some_iff]

theorem idAt_of_rooms {s : State A G} {ref : ℕ} {room : Room A G} (h : s.rooms ref = some room) :
    s.idAt ref = some room.id := by
  rw [State.idAt, h]
  rfl

theorem rooms_of_idAt {s : State A G} {ref id : ℕ} (h : s.idAt ref = some id) :
    ∃ room, s.rooms ref = some room ∧ room.id = id := Option.map_eq_some_iff.mp h

/-- An object written over one with the same id. -/
theorem idAt_setRoom {s : State A G} {ref : ℕ} {room : Room A G} (h : s.rooms ref = some room)
    (room' : Room A G) (hid : room'.id = room.id) (r : ℕ) :
    (s.setRoom ref room').idAt r = s.idAt r := by
  by_cases hr : r = ref
  · subst hr
    simp [State.idAt, State.setRoom, h, hid]
  · simp [State.idAt, State.setRoom, Function.update_of_ne hr]

/-- What never changes about a room object, and that its players only get more. -/
structure Room.Le (room room' : Room A G) : Prop where
  /-- the id stays -/
  id : room'.id = room.id
  /-- the game stays -/
  gameId : room'.gameId = room.gameId
  /-- players are added at the end -/
  players : room.playerList <+: room'.playerList

theorem Room.Le.refl (room : Room A G) : room.Le room := ⟨rfl, rfl, List.prefix_refl _⟩

theorem exists_setRoom {s : State A G} {ref : ℕ} {room : Room A G} (h : s.rooms ref = some room)
    (room' : Room A G) (hle : room.Le room') {r : ℕ} {x : Room A G}
    (hx : s.rooms r = some x) : ∃ x', (s.setRoom ref room').rooms r = some x' ∧ x.Le x' := by
  by_cases hr : r = ref
  · subst hr
    obtain rfl := Option.some.inj (hx.symm.trans h)
    exact ⟨room', by simp [State.setRoom], hle⟩
  · exact ⟨x, by simp [State.setRoom, Function.update_of_ne hr, hx], Room.Le.refl x⟩

/-! ## The pool, the heap and `room_tbl` -/

/-- Ids are in the pool or belong to one room object, and `room_tbl` refers to
objects under their ids. -/
structure Coherent (s : State A G) : Prop where
  /-- no id is in the pool twice -/
  distinct : s.idMgr.tbl.Distinct
  /-- the pool holds ids only -/
  pool : ∀ v, LuaArray.Mem v s.idMgr.tbl → 1 ≤ v ∧ v ≤ 999999
  /-- an id in use is not in the pool -/
  taken : ∀ ref id, s.idAt ref = some id →
    (1 ≤ id ∧ id ≤ 999999) ∧ ¬ LuaArray.Mem id s.idMgr.tbl
  /-- an id that is not in the pool is in use -/
  covered : ∀ v, 1 ≤ v → v ≤ 999999 →
    LuaArray.Mem v s.idMgr.tbl ∨ ∃ ref, s.idAt ref = some v
  /-- references are handed out in order -/
  live : ∀ ref id, s.idAt ref = some id → ref < s.fresh
  /-- no two objects have the same id -/
  unique : ∀ ref ref' id, s.idAt ref = some id → s.idAt ref' = some id → ref = ref'
  /-- every object took one id out of the pool -/
  size : s.idMgr.tbl.len + s.fresh = 999999
  /-- `room_tbl` refers to objects under their ids -/
  opened : ∀ id ref, s.roomTbl id = some ref → s.idAt ref = some id

theorem Coherent.init : Coherent (State.init : State A G) where
  distinct := IdMgr.distinct_init
  pool _ h := IdMgr.mem_init.mp h
  taken _ _ h := by cases h
  covered _ h₁ h₂ := .inl (IdMgr.mem_init.mpr ⟨h₁, h₂⟩)
  live _ _ h := by cases h
  unique _ _ _ h := by cases h
  size := rfl
  opened _ _ h := by cases h

/-- `room_tbl` has a room under its own id. -/
theorem Coherent.id_eq {s : State A G} (hs : Coherent s) {id ref : ℕ} {room : Room A G}
    (hroom : s.roomAt id = some (ref, room)) : room.id = id := by
  obtain ⟨hopen, href⟩ := roomAt_eq_some.mp hroom
  exact Option.some.inj ((idAt_of_rooms href).symm.trans (hs.opened id ref hopen))

variable [DecidableEq A] {getArea : G → Option ℕ}

/-! ## The steps, one by one -/

/-- A room with one more player. -/
def Room.withPlayer (room : Room A G) (playerInfo : PlayerInfo A) : Room A G :=
  { room with playerList := room.playerList ++ [playerInfo] }

/-- The state once `area_mgr` has answered the call that starts `t.room`. -/
def State.gotArea (s : State A G) (t : Tick) (room : Room A G) : State A G :=
  s.setRoom t.room { room with gettingArea := true }

/-- The state once `create_room` is sent. -/
def State.started (s : State A G) (t : Tick) (room : Room A G) (addr : ℕ) : State A G :=
  { s.gotArea t room with sent := s.sent ++ [(addr, room.pack)] }

/-- Each way a step can go. -/
inductive Effect (getArea : G → Option ℕ) (s : State A G) : Event A G → State A G → Prop where
  /-- no id is left -/
  | createRaise (index : ℕ) (gameId : G) (p : PlayerInfo A) (hlen : s.idMgr.tbl.len = 0) :
      Effect getArea s (.createRoom index gameId p) s
  /-- a room is created -/
  | create (index : ℕ) (h : 1 ≤ index ∧ index ≤ s.idMgr.tbl.len) (gameId : G)
      (p : PlayerInfo A) :
      Effect getArea s (.createRoom index gameId p) (s.create index h gameId p).2
  /-- there is no such room to join -/
  | joinUnknown (id : ℕ) (p : PlayerInfo A) (hroom : s.roomAt id = none) :
      Effect getArea s (.joinRoom id p) s
  /-- a player joins who is not the fourth -/
  | join (id : ℕ) (p : PlayerInfo A) (ref : ℕ) (room : Room A G)
      (hroom : s.roomAt id = some (ref, room)) (hlen : room.playerList.length ≠ 3) :
      Effect getArea s (.joinRoom id p) (s.setRoom ref (room.withPlayer p))
  /-- the fourth player joins -/
  | joinFill (id : ℕ) (p : PlayerInfo A) (ref : ℕ) (room : Room A G)
      (hroom : s.roomAt id = some (ref, room)) (hlen : room.playerList.length = 3) :
      Effect getArea s (.joinRoom id p)
        { s.setRoom ref { room.withPlayer p with ready := true } with
          tables := Function.update s.tables s.readyTbl (s.readyFields.setField room.id ref) }
  /-- `room_begin` for a room that is not there: `close` raises -/
  | beginUnknown (id : ℕ) (hroom : s.roomAt id = none) :
      Effect getArea s (.roomBegin id) { s with roomTbl := Function.update s.roomTbl id none }
  /-- a room is closed -/
  | begin (id ref : ℕ) (room : Room A G) (hroom : s.roomAt id = some (ref, room)) :
      Effect getArea s (.roomBegin id)
        { s with
          roomTbl := Function.update s.roomTbl id none
          player2Room := room.playerList.foldl
            (fun t v => Function.update t v.account none) s.player2Room }
  /-- a tick finds no ready room -/
  | tickIdle (hfields : s.readyFields = []) : Effect getArea s (.checkReady none) s
  /-- a tick starts its first room -/
  | tickStart (id ref : ℕ) (hfield : s.readyFields.lookup id = some ref) :
      Effect getArea s (.checkReady (some id))
        { s with ticks := s.ticks ++ [⟨s.readyTbl, s.readyFields.length, [id], ref⟩] }
  /-- the room being started has no area: the whole call raises -/
  | startRaise (k : ℕ) (next : Option ℕ) (t : Tick) (room : Room A G)
      (htick : s.ticks[k]? = some t) (hroom : s.rooms t.room = some room)
      (harea : getArea room.gameId = none) :
      Effect getArea s (.getAreaRet k next)
        { s.gotArea t room with ticks := s.ticks.eraseIdx k }
  /-- the room is sent to its area, and the loop goes on -/
  | startNext (k : ℕ) (t : Tick) (room : Room A G) (addr id ref : ℕ)
      (htick : s.ticks[k]? = some t) (hroom : s.rooms t.room = some room)
      (harea : getArea room.gameId = some addr)
      (hnext : MayYield (s.tables t.tbl) t.size t.seen (some id))
      (hfield : (s.tables t.tbl).lookup id = some ref) :
      Effect getArea s (.getAreaRet k (some id))
        { s.started t room addr with
          ticks := s.ticks.set k { t with seen := id :: t.seen, room := ref } }
  /-- the room is sent to its area, and the loop ends -/
  | startLast (k : ℕ) (t : Tick) (room : Room A G) (addr : ℕ)
      (htick : s.ticks[k]? = some t) (hroom : s.rooms t.room = some room)
      (harea : getArea room.gameId = some addr)
      (hnext : MayYield (s.tables t.tbl) t.size t.seen none) :
      Effect getArea s (.getAreaRet k none)
        { s.started t room addr with
          ticks := s.ticks.eraseIdx k
          tables := Function.update s.tables (s.readyTbl + 1) []
          readyTbl := s.readyTbl + 1 }

theorem checkReady_effect {s s' : State A G} {first : Option ℕ}
    (h : s.checkReady first = some s') : Effect getArea s (.checkReady first) s' := by
  unfold State.checkReady at h
  split_ifs at h with hfields hfirst
  · subst hfirst
    cases h
    exact .tickIdle hfields
  · cases first with
    | none => cases h
    | some id =>
      obtain ⟨ref, hfield, rfl⟩ := Option.map_eq_some_iff.mp h
      exact .tickStart id ref hfield

theorem getAreaRet_effect {s s' : State A G} {k : ℕ} {next : Option ℕ}
    (h : s.getAreaRet getArea k next = some s') : Effect getArea s (.getAreaRet k next) s' := by
  unfold State.getAreaRet at h
  cases htick : s.ticks[k]? with
  | none => simp [htick] at h
  | some t =>
    cases hroom : s.rooms t.room with
    | none => simp [htick, hroom] at h
    | some room =>
      cases harea : getArea room.gameId with
      | none =>
        simp only [htick, hroom, harea, Option.some.injEq] at h
        subst h
        exact .startRaise k next t room htick hroom harea
      | some addr =>
        simp only [htick, hroom, harea] at h
        split_ifs at h with hnext
        cases next with
        | none =>
          cases h
          exact .startLast k t room addr htick hroom harea hnext
        | some id =>
          obtain ⟨ref, hfield, rfl⟩ := Option.map_eq_some_iff.mp h
          exact .startNext k t room addr id ref htick hroom harea hnext hfield

/-- **Inversion.** -/
theorem step_effect {s s' : State A G} {e : Event A G} (h : step getArea s e = some s') :
    Effect getArea s e s' := by
  cases e with
  | createRoom index gameId p =>
    rw [step] at h
    split_ifs at h with hindex hlen
    · cases h
      exact .create index hindex gameId p
    · cases h
      exact .createRaise index gameId p hlen
  | joinRoom id p =>
    rw [step, Option.some.injEq] at h
    subst h
    rw [State.join]
    cases hroom : s.roomAt id with
    | none => exact .joinUnknown id p hroom
    | some r =>
      obtain ⟨ref, room⟩ := r
      by_cases hlen : room.playerList.length = 3
      · have hfour : (room.playerList ++ [p]).length = 4 := by simp [hlen]
        simp only [State.add, hfour, if_true]
        exact .joinFill id p ref room hroom hlen
      · have hfour : ¬ (room.playerList ++ [p]).length = 4 := by simpa using hlen
        simp only [State.add, hfour, if_false]
        exact .join id p ref room hroom hlen
  | roomBegin id =>
    rw [step, Option.some.injEq] at h
    subst h
    rw [State.roomBegin, State.close]
    cases hroom : s.roomAt id with
    | none => exact .beginUnknown id hroom
    | some r => exact .begin id r.1 r.2 hroom
  | checkReady first => exact checkReady_effect h
  | getAreaRet k next => exact getAreaRet_effect h

/-! ## Invariants -/

/-- Every step but a successful `create` leaves the ids of the objects alone and
adds nothing to `room_tbl`. -/
theorem Effect.frame {s s' : State A G} {e : Event A G} (h : Effect getArea s e s') :
    (∃ index hindex gameId p, e = .createRoom index gameId p ∧
        s' = (s.create index hindex gameId p).2) ∨
      (s'.idMgr = s.idMgr ∧ s'.fresh = s.fresh ∧ (∀ ref, s'.idAt ref = s.idAt ref) ∧
        ∀ id ref, s'.roomTbl id = some ref → s.roomTbl id = some ref) := by
  have hclosed : ∀ id i ref : ℕ, Function.update s.roomTbl id none i = some ref →
      s.roomTbl i = some ref := by
    intro id i ref hi
    by_cases h : i = id
    · subst h
      simp at hi
    · rwa [Function.update_of_ne h] at hi
  cases h with
  | create index hindex gameId p => exact .inl ⟨index, hindex, gameId, p, rfl, rfl⟩
  | createRaise | joinUnknown | tickIdle | tickStart =>
    exact .inr ⟨rfl, rfl, fun _ => rfl, fun _ _ h => h⟩
  | join _ p ref room hroom =>
    have hids := idAt_setRoom (roomAt_eq_some.mp hroom).2 (room.withPlayer p) rfl
    exact .inr ⟨rfl, rfl, hids, fun _ _ h => h⟩
  | joinFill _ p ref room hroom =>
    have hids := idAt_setRoom (roomAt_eq_some.mp hroom).2
      { room.withPlayer p with ready := true } rfl
    exact .inr ⟨rfl, rfl, hids, fun _ _ h => h⟩
  | beginUnknown id | begin id => exact .inr ⟨rfl, rfl, fun _ => rfl, hclosed id⟩
  | startRaise _ _ t room _ hroom | startNext _ t room _ _ _ _ hroom
  | startLast _ t room _ _ hroom =>
    exact .inr ⟨rfl, rfl, idAt_setRoom hroom { room with gettingArea := true } rfl,
      fun _ _ h => h⟩

/-- `create` puts its object at a fresh reference. -/
theorem idAt_create (s : State A G) (index : ℕ) (h : 1 ≤ index ∧ index ≤ s.idMgr.tbl.len)
    (gameId : G) (p : PlayerInfo A) (ref : ℕ) :
    (s.create index h gameId p).2.idAt ref =
      if ref = s.fresh then some (s.idMgr.genId index h).1 else s.idAt ref := by
  by_cases hr : ref = s.fresh
  · subst hr
    simp [State.idAt, State.create, Room.new]
  · simp [State.idAt, State.create, hr]

/-- The pool after `create` has lost the id drawn. -/
theorem Coherent.mem_create {s : State A G} (hs : Coherent s) (index : ℕ)
    (h : 1 ≤ index ∧ index ≤ s.idMgr.tbl.len) (gameId : G) (p : PlayerInfo A) (v : ℕ) :
    LuaArray.Mem v (s.create index h gameId p).2.idMgr.tbl ↔
      LuaArray.Mem v s.idMgr.tbl ∧ v ≠ (s.idMgr.genId index h).1 :=
  LuaArray.mem_swapRemove hs.distinct

/-- An object is the new one, or it was there before and has another id. -/
theorem Coherent.idAt_create_cases {s : State A G} (hs : Coherent s) {index : ℕ}
    {h : 1 ≤ index ∧ index ≤ s.idMgr.tbl.len} {gameId : G} {p : PlayerInfo A} {ref id : ℕ}
    (hid : (s.create index h gameId p).2.idAt ref = some id) :
    (ref = s.fresh ∧ id = (s.idMgr.genId index h).1) ∨
      (s.idAt ref = some id ∧ ref ≠ s.fresh ∧ id ≠ (s.idMgr.genId index h).1) := by
  rw [idAt_create] at hid
  split_ifs at hid with hr
  · exact .inl ⟨hr, (Option.some.inj hid).symm⟩
  · refine .inr ⟨hid, hr, ?_⟩
    rintro rfl
    exact (hs.taken _ _ hid).2 (s.idMgr.genId_mem index h)

theorem Coherent.create {s : State A G} (hs : Coherent s) (index : ℕ)
    (h : 1 ≤ index ∧ index ≤ s.idMgr.tbl.len) (gameId : G) (p : PlayerInfo A) :
    Coherent (s.create index h gameId p).2 where
  distinct := hs.distinct.swapRemove
  pool v hv := hs.pool v ((hs.mem_create index h gameId p v).mp hv).1
  taken ref id hid := by
    have hpool := hs.mem_create index h gameId p id
    obtain ⟨-, rfl⟩ | ⟨hid, -, -⟩ := hs.idAt_create_cases hid
    · exact ⟨hs.pool _ (s.idMgr.genId_mem index h), fun hv => (hpool.mp hv).2 rfl⟩
    · exact ⟨(hs.taken ref id hid).1, fun hv => (hs.taken ref id hid).2 (hpool.mp hv).1⟩
  covered v h₁ h₂ := by
    by_cases hv : v = (s.idMgr.genId index h).1
    · exact .inr ⟨s.fresh, by rw [idAt_create, if_pos rfl, hv]⟩
    · obtain hin | ⟨ref, href⟩ := hs.covered v h₁ h₂
      · exact .inl ((hs.mem_create index h gameId p v).mpr ⟨hin, hv⟩)
      · have hlt := hs.live ref v href
        exact .inr ⟨ref, by rw [idAt_create, if_neg (by omega), href]⟩
  live ref id hid := by
    change ref < s.fresh + 1
    obtain ⟨rfl, -⟩ | ⟨hid, -, -⟩ := hs.idAt_create_cases hid
    · omega
    · have hlt := hs.live ref id hid
      omega
  unique ref ref' id hid hid' := by
    obtain ⟨rfl, rfl⟩ | ⟨hold, hr, hne⟩ := hs.idAt_create_cases hid
    · obtain ⟨rfl, -⟩ | ⟨-, -, hne'⟩ := hs.idAt_create_cases hid'
      · rfl
      · exact absurd rfl hne'
    · obtain ⟨-, rfl⟩ | ⟨hold', -, -⟩ := hs.idAt_create_cases hid'
      · exact absurd rfl hne
      · exact hs.unique ref ref' id hold hold'
  size := by
    have hsize := hs.size
    change s.idMgr.tbl.len - 1 + (s.fresh + 1) = 999999
    omega
  opened id ref hopen := by
    change Function.update s.roomTbl (s.idMgr.genId index h).1 (some s.fresh) id = some ref at hopen
    by_cases hid : id = (s.idMgr.genId index h).1
    · subst hid
      rw [Function.update_self] at hopen
      obtain rfl := Option.some.inj hopen
      rw [idAt_create, if_pos rfl]
    · rw [Function.update_of_ne hid] at hopen
      have hold := hs.opened id ref hopen
      have hlt := hs.live ref id hold
      rw [idAt_create, if_neg (by omega), hold]

/-- The step lemma. -/
theorem Coherent.step {s s' : State A G} {e : Event A G} (hs : Coherent s)
    (h : RoomMgr.step getArea s e = some s') : Coherent s' := by
  obtain ⟨index, hindex, gameId, p, -, rfl⟩ | ⟨hpool, hfresh, hids, htbl⟩ :=
    (step_effect h).frame
  · exact hs.create index hindex gameId p
  · constructor
    · rw [hpool]
      exact hs.distinct
    · rw [hpool]
      exact hs.pool
    · simp only [hids, hpool]
      exact hs.taken
    · simp only [hids, hpool]
      exact hs.covered
    · simp only [hids, hfresh]
      exact hs.live
    · simp only [hids]
      exact hs.unique
    · rw [hpool, hfresh]
      exact hs.size
    · intro id ref hopen
      rw [hids]
      exact hs.opened id ref (htbl id ref hopen)

/-- Room objects stay, with their ids and games, and keep their players. -/
theorem Effect.heapLe {s s' : State A G} {e : Event A G} (hs : Coherent s)
    (h : Effect getArea s e s') {ref : ℕ} {room : Room A G} (hroom : s.rooms ref = some room) :
    ∃ room', s'.rooms ref = some room' ∧ room.Le room' := by
  have hsame : ∃ room', s.rooms ref = some room' ∧ room.Le room' := ⟨room, hroom, Room.Le.refl _⟩
  cases h with
  | create index hindex gameId p =>
    have hlt := hs.live ref _ (idAt_of_rooms hroom)
    refine ⟨room, ?_, Room.Le.refl _⟩
    simp only [State.create]
    rw [Function.update_of_ne (by omega)]
    exact hroom
  | createRaise | joinUnknown | beginUnknown | begin | tickIdle | tickStart => exact hsame
  | join _ p r x hx =>
    exact exists_setRoom (roomAt_eq_some.mp hx).2 (x.withPlayer p)
      ⟨rfl, rfl, List.prefix_append ..⟩ hroom
  | joinFill _ p r x hx =>
    exact exists_setRoom (roomAt_eq_some.mp hx).2 { x.withPlayer p with ready := true }
      ⟨rfl, rfl, List.prefix_append ..⟩ hroom
  | startRaise _ _ t x _ hx | startNext _ t x _ _ _ _ hx | startLast _ t x _ _ hx =>
    exact exists_setRoom hx { x with gettingArea := true }
      ⟨rfl, rfl, List.prefix_refl _⟩ hroom

/-- A room object after a step: its players are those it had, or it is new, or a
player has joined it. -/
theorem Effect.players {s s' : State A G} {e : Event A G} (h : Effect getArea s e s') {ref : ℕ}
    {room' : Room A G} (hroom' : s'.rooms ref = some room') :
    (∃ room, s.rooms ref = some room ∧ room'.playerList = room.playerList) ∨
      (∃ index gameId p, e = .createRoom index gameId p ∧ ref = s.fresh ∧
        room'.playerList = [p]) ∨
      ∃ id p room, e = .joinRoom id p ∧ s.roomAt id = some (ref, room) ∧
        room'.playerList = room.playerList ++ [p] := by
  have hset : ∀ {r x}, Function.update s.rooms r (some x) ref = some room' →
      (ref = r ∧ room' = x) ∨ s.rooms ref = some room' := by
    intro r x hx
    by_cases hr : ref = r
    · subst hr
      rw [Function.update_self] at hx
      exact .inl ⟨rfl, (Option.some.inj hx).symm⟩
    · rw [Function.update_of_ne hr] at hx
      exact .inr hx
  cases h with
  | create index hindex gameId p =>
    simp only [State.create] at hroom'
    by_cases hr : ref = s.fresh
    · subst hr
      rw [Function.update_self] at hroom'
      obtain rfl := Option.some.inj hroom'
      exact .inr (.inl ⟨index, gameId, p, rfl, rfl, rfl⟩)
    · rw [Function.update_of_ne hr] at hroom'
      exact .inl ⟨room', hroom', rfl⟩
  | join id p r x hx | joinFill id p r x hx =>
    obtain ⟨rfl, rfl⟩ | hold := hset hroom'
    · exact .inr (.inr ⟨id, p, x, rfl, hx, rfl⟩)
    · exact .inl ⟨room', hold, rfl⟩
  | startRaise _ _ t x _ hx | startNext _ t x _ _ _ _ hx | startLast _ t x _ _ hx =>
    obtain ⟨rfl, rfl⟩ | hold := hset hroom'
    · exact .inl ⟨x, hx, rfl⟩
    · exact .inl ⟨room', hold, rfl⟩
  | _ => exact .inl ⟨room', hroom', rfl⟩

/-- What a join does to an open room. -/
theorem Effect.joined {s s' : State A G} {id : ℕ} {p : PlayerInfo A}
    (h : Effect getArea s (.joinRoom id p) s') {ref : ℕ} {room : Room A G}
    (hroom : s.roomAt id = some (ref, room)) :
    ∃ room', s'.roomAt id = some (ref, room') ∧ room'.playerList = room.playerList ++ [p] := by
  obtain ⟨hopen, href⟩ := roomAt_eq_some.mp hroom
  cases h with
  | joinUnknown _ _ hnone => rw [hroom] at hnone; cases hnone
  | join _ _ r x hx =>
    obtain ⟨rfl, rfl⟩ := Prod.mk.inj (Option.some.inj (hroom.symm.trans hx))
    exact ⟨room.withPlayer p, roomAt_eq_some.mpr ⟨hopen, Function.update_self ..⟩, rfl⟩
  | joinFill _ _ r x hx =>
    obtain ⟨rfl, rfl⟩ := Prod.mk.inj (Option.some.inj (hroom.symm.trans hx))
    exact ⟨{ room.withPlayer p with ready := true },
      roomAt_eq_some.mpr ⟨hopen, Function.update_self ..⟩, rfl⟩

/-- A key of `room_tbl` after a step was there before, or the room is new. -/
theorem Effect.roomTbl {s s' : State A G} {e : Event A G} (h : Effect getArea s e s') {id ref : ℕ}
    (hopen : s'.roomTbl id = some ref) :
    s.roomTbl id = some ref ∨
      ∃ index gameId p, e = .createRoom index gameId p ∧ ref = s.fresh := by
  obtain ⟨index, hindex, gameId, p, rfl, rfl⟩ | ⟨-, -, -, htbl⟩ := h.frame
  · simp only [State.create] at hopen
    by_cases hid : id = (s.idMgr.genId index hindex).1
    · subst hid
      rw [Function.update_self] at hopen
      exact .inr ⟨index, gameId, p, rfl, (Option.some.inj hopen).symm⟩
    · rw [Function.update_of_ne hid] at hopen
      exact .inl hopen
  · exact .inl (htbl id ref hopen)

/-- An open room after a step: as it was, new with its owner alone, or just joined. -/
theorem Effect.openRoom {s s' : State A G} {e : Event A G} (hs : Coherent s)
    (h : Effect getArea s e s') {id ref : ℕ} {room' : Room A G}
    (hroom' : s'.roomAt id = some (ref, room')) :
    (∃ room, s.roomAt id = some (ref, room) ∧ room'.playerList = room.playerList) ∨
      (∃ p, room'.playerList = [p]) ∨
      ∃ p room, e = .joinRoom id p ∧ s.roomAt id = some (ref, room) ∧
        room'.playerList = room.playerList ++ [p] := by
  obtain ⟨hopen', href'⟩ := roomAt_eq_some.mp hroom'
  obtain ⟨room, href, heq⟩ | ⟨_, _, p, -, -, hone⟩ | ⟨n, p, room, rfl, hroom, hconcat⟩ :=
    h.players href'
  · obtain hopen | ⟨_, _, _, -, hfresh⟩ := h.roomTbl hopen'
    · exact .inl ⟨room, roomAt_eq_some.mpr ⟨hopen, href⟩, heq⟩
    · have hlt := hs.live ref _ (idAt_of_rooms href)
      omega
  · exact .inr (.inl ⟨p, hone⟩)
  · -- the room joined is the one under this key
    have hn : id = n := by
      obtain hold | ⟨_, _, _, he, -⟩ := h.roomTbl hopen'
      · exact Option.some.inj ((hs.opened _ _ hold).symm.trans
          (hs.opened _ _ (roomAt_eq_some.mp hroom).1))
      · cases he
    subst hn
    exact .inr (.inr ⟨p, room, rfl, hroom, hconcat⟩)

end SlgServer.RoomMgr
