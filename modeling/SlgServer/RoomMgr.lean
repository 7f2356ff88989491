import SlgServer.IdMgr
import SlgServer.Machine

/-!
# The room manager (`service/room_mgr`)

`room_mgr` gathers players into rooms and hands full rooms to the area services.
A skynet service handles one message at a time, but a handler that waits in
`skynet.call` lets others in: `check_ready` does so once for every room it
starts. The model is a machine whose events are the messages the service
handles and the answers it waits for.

* Room objects live on a heap and are shared by reference: `room_tbl`, the
  tables of ready rooms and the loops of suspended `check_ready` calls all hold
  references to them.
* `self.ready_tbl` is itself an object; `check_ready` replaces it while other
  calls may still iterate the old one, so the tables are numbered.
* `pairs` yields the fields of a table in an unspecified order: the field that
  comes next is part of the event. Once a field was added to a table that is
  being iterated, Lua leaves open what `next` does, and so does the model
  (`MayYield`).

Accounts and game ids are any types; `getArea` is what `area_mgr` answers.
-/

namespace SlgServer.RoomMgr

variable {A G : Type}

/-! ## Rooms (`room.lua`) -/

/-- What a base app sends about a player. -/
structure PlayerInfo (A : Type) : Type where
  /-- the address of the base app -/
  baseApp : ℕ
  /-- the account -/
  account : A
  deriving DecidableEq

/-- A room object. -/
structure Room (A G : Type) : Type where
  /-- the room id -/
  id : ℕ
  /-- the game asked for by the owner -/
  gameId : G
  /-- who created the room -/
  ownerAccount : A
  /-- the players, in the order in which they came -/
  playerList : List (PlayerInfo A)
  /-- four players have come -/
  ready : Bool
  /-- `area_mgr` has answered -/
  gettingArea : Bool

namespace Room

/-- `room.new`. -/
def new (id : ℕ) (gameId : G) (playerInfo : PlayerInfo A) : Room A G :=
  ⟨id, gameId, playerInfo.account, [playerInfo], false, false⟩

/-- The accounts of the players. -/
def accounts (room : Room A G) : List A := room.playerList.map PlayerInfo.account

end Room

/-- What `room:pack` builds for the area. -/
structure Pack (A : Type) : Type where
  /-- the room id -/
  id : ℕ
  /-- who created the room -/
  ownerAccount : A
  /-- the players -/
  playerList : List (PlayerInfo A)

/-- The accounts of a packed room. -/
def Pack.accounts (m : Pack A) : List A := m.playerList.map PlayerInfo.account

/-- `room:pack`. -/
def Room.pack (room : Room A G) : Pack A := ⟨room.id, room.ownerAccount, room.playerList⟩

/-! ## Tables of ready rooms -/

/-- A table of ready rooms: its fields, room ids to references. -/
abbrev ReadyTable : Type := List (ℕ × ℕ)

/-- The keys of a table. -/
def ReadyTable.keys (tbl : ReadyTable) : List ℕ := tbl.map Prod.fst

/-- `tbl[id] = ref`. -/
def ReadyTable.setField (tbl : ReadyTable) (id ref : ℕ) : ReadyTable :=
  if id ∈ tbl.keys then tbl.map fun f => if f.1 = id then (id, ref) else f else tbl ++ [(id, ref)]

/-- A `check_ready` suspended inside `room:start`, waiting for `area_mgr`. -/
structure Tick : Type where
  /-- the table its loop iterates -/
  tbl : ℕ
  /-- how many fields the table had when the loop began -/
  size : ℕ
  /-- the keys `pairs` has yielded, the latest first -/
  seen : List ℕ
  /-- the room being started, a reference -/
  room : ℕ

/-- What `pairs` may yield next on a table that had `size` fields when the loop
began. On a table nothing was added to, every key comes once and then the loop
ends; otherwise `next` may yield any key, or end. -/
def MayYield (tbl : ReadyTable) (size : ℕ) (seen : List ℕ) : Option ℕ → Prop
  | some id => id ∈ tbl.keys ∧ (tbl.length = size → id ∉ seen)
  | none => tbl.length = size → ∀ id ∈ tbl.keys, id ∈ seen

instance (tbl : ReadyTable) (size : ℕ) (seen : List ℕ) (next : Option ℕ) :
    Decidable (MayYield tbl size seen next) := by
  cases next <;> unfold MayYield <;> infer_instance

/-! ## The service (`room_mgr.lua`, `main.lua`) -/

/-- The state of the service. -/
structure State (A G : Type) : Type where
  /-- `id_mgr` -/
  idMgr : IdMgr
  /-- the heap of room objects, by reference -/
  rooms : ℕ → Option (Room A G)
  /-- the next reference -/
  fresh : ℕ
  /-- `self.room_tbl` -/
  roomTbl : ℕ → Option ℕ
  /-- `self.player_2_room` -/
  player2Room : A → Option ℕ
  /-- the tables of ready rooms, old and new -/
  tables : ℕ → ReadyTable
  /-- `self.ready_tbl`: which of them it is now -/
  readyTbl : ℕ
  /-- the suspended calls of `check_ready` -/
  ticks : List Tick
  /-- the `create_room` messages sent so far, with the area addressed -/
  sent : List (ℕ × Pack A)

namespace State

/-- `room_mgr:init`. -/
def init : State A G where
  idMgr := IdMgr.init
  rooms _ := none
  fresh := 0
  roomTbl _ := none
  player2Room _ := none
  tables _ := []
  readyTbl := 0
  ticks := []
  sent := []

/-- `self.room_tbl[id]`: the reference and the object. -/
def roomAt (s : State A G) (id : ℕ) : Option (ℕ × Room A G) :=
  (s.roomTbl id).bind fun ref => (s.rooms ref).map fun room => (ref, room)

/-- Write a room object back to the heap. -/
def setRoom (s : State A G) (ref : ℕ) (room : Room A G) : State A G :=
  { s with rooms := Function.update s.rooms ref (some room) }

/-- The fields of `self.ready_tbl`. -/
def readyFields (s : State A G) : ReadyTable := s.tables s.readyTbl

/-- `create_room` has been sent for the room `id`. -/
def Sent (s : State A G) (id : ℕ) : Prop := ∃ m ∈ s.sent, m.2.id = id

section Operations

variable [DecidableEq A]

/-- `room_mgr:create`, for the draw `index` of `gen_id`: the id, and the state
after it. -/
def create (s : State A G) (index : ℕ) (h : 1 ≤ index ∧ index ≤ s.idMgr.tbl.len) (gameId : G)
    (playerInfo : PlayerInfo A) : ℕ × State A G :=
  let r := s.idMgr.genId index h
  (r.1, { s with
    idMgr := r.2
    rooms := Function.update s.rooms s.fresh (some (Room.new r.1 gameId playerInfo))
    fresh := s.fresh + 1
    roomTbl := Function.update s.roomTbl r.1 (some s.fresh)
    player2Room := Function.update s.player2Room playerInfo.account (some r.1) })

/-- `room_mgr:add_ready`. -/
def addReady (s : State A G) (room : Room A G) (ref : ℕ) : State A G :=
  { s with tables := Function.update s.tables s.readyTbl (s.readyFields.setField room.id ref) }

/-- `room:add`, for the room object at `ref`. -/
def add (s : State A G) (ref : ℕ) (room : Room A G) (playerInfo : PlayerInfo A) : State A G :=
  let room := { room with playerList := room.playerList ++ [playerInfo] }
  if room.playerList.length = 4 then
    (s.setRoom ref { room with ready := true }).addReady room ref
  else s.setRoom ref room

/-- `room_mgr:join`. -/
def join (s : State A G) (roomId : ℕ) (playerInfo : PlayerInfo A) : Bool × State A G :=
  match s.roomAt roomId with
  | none => (false, s)
  | some (ref, room) => (true, s.add ref room playerInfo)

/-- `room_mgr:close`; the flag says whether it returns. Without a room the field
is cleared all the same, and then indexing `nil` raises. -/
def close (s : State A G) (roomId : ℕ) : Bool × State A G :=
  let cleared := { s with roomTbl := Function.update s.roomTbl roomId none }
  match s.roomAt roomId with
  | none => (false, cleared)
  | some (_, room) => (true, { cleared with
      player2Room := room.playerList.foldl
        (fun t v => Function.update t v.account none) s.player2Room })

/-- `room_mgr:get_room_by_player`. -/
def getRoomByPlayer (s : State A G) (account : A) : Option (Room A G) :=
  (s.player2Room account).bind fun id => (s.roomAt id).map Prod.snd

/-- `room_mgr:room_begin`. -/
def roomBegin (s : State A G) (roomId : ℕ) : Bool × State A G := s.close roomId

/-- `room_mgr:check_ready`, up to the call of the first `room:start`; `first` is
the field `pairs` yields first. -/
def checkReady (s : State A G) (first : Option ℕ) : Option (State A G) :=
  if s.readyFields = [] then if first = none then some s else none
  else
    match first with
    | none => none
    | some id => (s.readyFields.lookup id).map fun ref =>
        { s with ticks := s.ticks ++ [⟨s.readyTbl, s.readyFields.length, [id], ref⟩] }

/-- `area_mgr`'s answer resumes the suspended `check_ready` number `k`. Without an
area, `area.addr` raises and the call is over. With one, `create_room` is sent
and the loop goes on to the field `next`, or ends and leaves a new table behind. -/
def getAreaRet (getArea : G → Option ℕ) (s : State A G) (k : ℕ) (next : Option ℕ) :
    Option (State A G) :=
  match s.ticks[k]? with
  | none => none
  | some t =>
    match s.rooms t.room with
    | none => none
    | some room =>
      let s := s.setRoom t.room { room with gettingArea := true }
      match getArea room.gameId with
      | none => some { s with ticks := s.ticks.eraseIdx k }
      | some addr =>
        let s := { s with sent := s.sent ++ [(addr, room.pack)] }
        if MayYield (s.tables t.tbl) t.size t.seen next then
          match next with
          | some id => ((s.tables t.tbl).lookup id).map fun ref =>
              { s with ticks := s.ticks.set k { t with seen := id :: t.seen, room := ref } }
          | none => some { s with
              ticks := s.ticks.eraseIdx k
              tables := Function.update s.tables (s.readyTbl + 1) []
              readyTbl := s.readyTbl + 1 }
        else none

end Operations

end State

/-! ## The machine -/

/-- What the service reacts to. Draws and iteration orders are part of it. -/
inductive Event (A G : Type) : Type where
  /-- a `create_room` request -/
  | createRoom (index : ℕ) (gameId : G) (playerInfo : PlayerInfo A)
  /-- a `join_room` request -/
  | joinRoom (roomId : ℕ) (playerInfo : PlayerInfo A)
  /-- a `room_begin` message -/
  | roomBegin (roomId : ℕ)
  /-- a tick of the timer -/
  | checkReady (first : Option ℕ)
  /-- `area_mgr` answers a suspended `check_ready` -/
  | getAreaRet (k : ℕ) (next : Option ℕ)

variable [DecidableEq A]

/-- One event. A `create_room` on an empty pool raises in `math.random(1, 0)` and
changes nothing. -/
def step (getArea : G → Option ℕ) (s : State A G) : Event A G → Option (State A G)
  | .createRoom index gameId playerInfo =>
    if h : 1 ≤ index ∧ index ≤ s.idMgr.tbl.len then
      some (s.create index h gameId playerInfo).2
    else if s.idMgr.tbl.len = 0 then some s
    else none
  | .joinRoom roomId playerInfo => some (s.join roomId playerInfo).2
  | .roomBegin roomId => some (s.roomBegin roomId).2
  | .checkReady first => s.checkReady first
  | .getAreaRet k next => s.getAreaRet getArea k next

/-- The requests of players `1` to `4`, who fill a room; the draw is `id`. -/
def fillRoom (id : ℕ) (gameId : Option ℕ) : List (Event ℕ (Option ℕ)) :=
  [.createRoom id gameId ⟨0, 1⟩, .joinRoom id ⟨0, 2⟩, .joinRoom id ⟨0, 3⟩, .joinRoom id ⟨0, 4⟩]

end SlgServer.RoomMgr
