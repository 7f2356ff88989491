import SlgServer.Machine
import Mathlib.Data.Int.Notation
import Mathlib.Logic.Function.Basic

/-!
# A base app (`service/base_app`)

The service keeps three tables: `authed_fd` of `sock_mgr`, and `player_tbl` and
`fd_2_player` of `player_mgr`. Its handlers run until they wait for another
service (the gate's `accept`, the database in a login, `room_mgr` for a room
request); other messages are handled meanwhile. An event is what starts or
resumes a handler, so a list of events is an interleaving.

What the gate has delivered, and which logins have ended, is kept in `Seen`;
the program has no such record and nothing in it looks at one.
-/

namespace SlgServer.App

/-! ## Messages -/

/-- What the handlers read of the table a client sends. -/
structure Params (A : Type) : Type where
  /-- `msg.token` -/
  token : Option String
  /-- `msg.account` -/
  account : Option A
  /-- `request.game_id` -/
  gameId : Option ℕ
  /-- `request.room_id` -/
  roomId : Option ℕ

/-- A record of the collection `player`. -/
structure Record : Type where
  /-- `nick_name` -/
  nickName : String
  /-- `score` -/
  score : ℤ
  deriving DecidableEq

/-- The tables that are sent to clients; `msg` are those pushed from elsewhere. -/
inductive Table (A M : Type) : Type where
  /-- `{errmsg = ...}` -/
  | errmsg (text : String)
  /-- `{info = obj:pack()}` -/
  | info (account : Option A) (nickName : String) (score : ℤ)
  /-- `{room_id = ...}` -/
  | roomId (id : Option ℕ)
  /-- `{}` -/
  | empty
  /-- any other table -/
  | msg (m : M)

/-- What `packer.pack` is given after the id. -/
inductive Value (A M : Type) : Type where
  /-- a number -/
  | number (n : ℕ)
  /-- a table -/
  | table (t : Table A M)

/-- `msg_define` and `packer`, which are not in the repository. -/
structure Codec (A M B : Type) : Type where
  /-- `msg_define.idToName` -/
  idToName : ℕ → Option String
  /-- `msg_define.nameToId` -/
  nameToId : String → ℕ
  /-- `packer.pack` -/
  pack : ℕ → Value A M → B

/-- A codec of some names, whose packets are the pairs packed. -/
def plainCodec (A M : Type) : Codec A M (ℕ × Value A M) where
  idToName
    | 1 => some "login.login_baseapp"
    | 2 => some "room.create_room"
    | 3 => some "room.join_room"
    | 4 => some "login.login"
    | 5 => some "login.register"
    | _ => none
  nameToId name := name.length
  pack := Prod.mk

/-! ## The state -/

/-- A player object. Of its other fields, `_db` is read by `pack` only, in the
handler that sets it, and `status`, `area` and `room_id` nowhere. -/
structure Player (A : Type) : Type where
  /-- the socket it was created for -/
  fd : ℕ
  /-- its account, if the client named one -/
  account : Option A
  deriving DecidableEq

/-- What a login waits for. -/
inductive Stage : Type where
  /-- `db:load_player` -/
  | loading
  /-- `db:save_player` of a new record -/
  | saving (obj : Record)
  deriving DecidableEq

/-- A login handler that waits for the database. -/
structure Login : Type where
  /-- the player object, by its number -/
  obj : ℕ
  /-- the id of the request, with which the answer is sent -/
  protoId : ℕ
  /-- what it waits for -/
  stage : Stage
  deriving DecidableEq

/-- A handler of a room request that waits for `room_mgr`. -/
structure Call : Type where
  /-- the socket -/
  fd : ℕ
  /-- the id of the request -/
  protoId : ℕ
  /-- the room to be joined; `none` for `create_room` -/
  join : Option (Option ℕ)
  deriving DecidableEq

/-- What has happened at the sockets. -/
structure Seen (A : Type) : Type where
  /-- the sockets opened and neither closed nor failed -/
  connected : List ℕ
  /-- the sockets that were closed or failed -/
  gone : List ℕ
  /-- closes and errors that found the counter at zero -/
  unmatched : ℕ
  /-- `accept` calls that failed -/
  refused : ℕ
  /-- warnings that found the counter above zero -/
  warned : ℕ
  /-- the logins that ended, the last one first: the socket and the account -/
  logins : List (ℕ × A)

/-- The state of a base app. -/
structure State (A B : Type) : Type where
  /-- `sock_mgr.clients` -/
  clients : ℕ
  /-- `sock_mgr.authed_fd` -/
  authedFd : ℕ → Bool
  /-- `player_mgr.player_tbl`, by the numbers of the objects -/
  playerTbl : A → Option ℕ
  /-- `player_mgr.fd_2_player` -/
  fd2Player : ℕ → Option ℕ
  /-- the player objects, in the order of their creation -/
  players : List (Player A)
  /-- the sockets whose `open` waits for `accept` -/
  opening : List ℕ
  /-- the logins that wait for the database -/
  logins : List Login
  /-- the room requests that wait for `room_mgr` -/
  calls : List Call
  /-- what was written to sockets -/
  written : List (ℕ × B)
  /-- what has happened at the sockets -/
  seen : Seen A

/-- The service after its start. -/
def State.init {A B : Type} : State A B where
  clients := 0
  authedFd := fun _ => false
  playerTbl := fun _ => none
  fd2Player := fun _ => none
  players := []
  opening := []
  logins := []
  calls := []
  written := []
  seen := ⟨[], [], 0, 0, 0, []⟩

variable {A M B : Type}

/-- `socket.write`. -/
def State.write (s : State A B) (fd : ℕ) (bytes : B) : State A B :=
  { s with written := s.written ++ [(fd, bytes)] }

/-! ## `sock_mgr`: the counter and the sockets -/

/-- `inc_clients`. -/
def State.incClients (s : State A B) : State A B := { s with clients := s.clients + 1 }

/-- `dec_clients`. -/
def State.decClients (s : State A B) : State A B :=
  if s.clients > 0 then { s with clients := s.clients - 1 } else s

/-- `close_conn`. -/
def State.closeConn (s : State A B) (fd : ℕ) : State A B :=
  State.decClients { s with authedFd := Function.update s.authedFd fd false }

/-- `auth_fd`. -/
def State.authFd (s : State A B) (fd : ℕ) : State A B :=
  { s with authedFd := Function.update s.authedFd fd true }

/-! ## `player_mgr` -/

/-- `add`, for an object of `players`; an object without account raises at
`player_tbl[nil]`, which is `none`. -/
def State.add [DecidableEq A] (s : State A B) (obj : ℕ) : Option (State A B) :=
  (s.players[obj]?).bind fun p => p.account.map fun account => { s with
    playerTbl := Function.update s.playerTbl account (some obj)
    fd2Player := Function.update s.fd2Player p.fd (some obj)
    seen := { s.seen with logins := (p.fd, account) :: s.seen.logins } }

/-! ## Logins (`login_mgr`, `player`, `db`) -/

/-- `auth`, up to the load of the player. -/
def State.auth (c : Codec A M B) (s : State A B) (fd protoId : ℕ) (msg : Params A) : State A B :=
  if msg.token ≠ some "token" then
    s.write fd (c.pack protoId (.table (.errmsg "wrong token")))
  else
    let s := s.authFd fd
    { s with
      players := s.players ++ [⟨fd, msg.account⟩]
      logins := s.logins ++ [⟨s.players.length, protoId, .loading⟩] }

/-- The end of a login whose player has the record `obj`: the player is added and
the client gets `{info = obj:pack()}`. -/
def State.loggedIn [DecidableEq A] (c : Codec A M B) (s : State A B) (l : Login) (obj : Record) :
    State A B :=
  match s.add l.obj, s.players[l.obj]? with
  | some s, some p =>
    s.write p.fd (c.pack l.protoId (.table (.info p.account obj.nickName obj.score)))
  | _, _ => s

/-- What the database answers to `load_player`. -/
inductive Loaded : Type where
  /-- a record -/
  | found (obj : Record)
  /-- no record; the time is that of `_create_db` -/
  | absent (time : ℕ)
  /-- an error is raised -/
  | raised

/-- The record `_create_db` makes. -/
def createDb (time : ℕ) : Record := ⟨"Hero" ++ toString time, 0⟩

/-- `load_from_db` goes on with the answer to `load_player`. -/
def State.loaded [DecidableEq A] (c : Codec A M B) (s : State A B) (k : ℕ) (l : Login) :
    Loaded → State A B
  | .found obj => State.loggedIn c { s with logins := s.logins.eraseIdx k } l obj
  | .absent time => { s with logins := s.logins.set k { l with stage := .saving (createDb time) } }
  | .raised => { s with logins := s.logins.eraseIdx k }

/-! ## Room requests (`msg_handler/room`) -/

/-- `create_room` and `join_room`, up to the call of `room_mgr`. Without a player
`player:get_account` raises. -/
def State.roomRequest (s : State A B) (fd protoId : ℕ) (join : Option (Option ℕ)) : State A B :=
  match s.fd2Player fd with
  | none => s
  | some _ => { s with calls := s.calls ++ [⟨fd, protoId, join⟩] }

/-- The answer to a room request, from the id that `create_room` of `room_mgr`
returned. -/
def Call.reply (call : Call) (id : Option ℕ) : Table A M :=
  match call.join with
  | none => .roomId id
  | some roomId => .roomId roomId

/-! ## `sock_mgr`: messages -/

/-- `dispatch`. -/
def State.dispatch (c : Codec A M B) (s : State A B) (fd protoId : ℕ) (params : Params A) :
    State A B :=
  match c.idToName protoId with
  | some "login.login_baseapp" => s.auth c fd protoId params
  | some "room.create_room" => s.roomRequest fd protoId none
  | some "room.join_room" => s.roomRequest fd protoId (some params.roomId)
  | _ => s

/-- `data`; a socket that is not authed is kicked, which the gate reports as a
close. -/
def State.data (c : Codec A M B) (s : State A B) (fd protoId : ℕ) (params : Params A) :
    State A B :=
  if s.authedFd fd || c.idToName protoId == some "login.login_baseapp" then
    s.dispatch c fd protoId params
  else s

/-- `send`. -/
def State.send (c : Codec A M B) (s : State A B) (fd : ℕ) (protoName : String) (_ : Table A M) :
    State A B :=
  let protoId := c.nameToId protoName
  s.write fd (c.pack protoId (.number protoId))

/-- `CMD.sendto_client`. -/
def State.sendtoClient (c : Codec A M B) (s : State A B) (account : Option A) (protoName : String)
    (msg : Table A M) : State A B :=
  match (account.bind s.playerTbl).bind (s.players[·]?) with
  | none => s
  | some p => s.send c p.fd protoName msg

/-- `CMD.room_begin`. -/
def State.roomBegin (c : Codec A M B) (s : State A B) (account : Option A) : State A B :=
  s.sendtoClient c account "room.room_begin" .empty

/-! ## Events -/

/-- What starts or resumes a handler. -/
inductive Event (A M : Type) : Type where
  /-- the gate reports a new connection -/
  | open (fd : ℕ)
  /-- the gate answers the `accept` call number `k` -/
  | accepted (k : ℕ) (ok : Bool)
  /-- the gate reports a close -/
  | close (fd : ℕ)
  /-- the gate reports an error -/
  | error (fd : ℕ)
  /-- the gate reports that much waits to be sent -/
  | warning (fd : ℕ)
  /-- the gate hands over a message -/
  | data (fd protoId : ℕ) (params : Params A)
  /-- the database answers the login number `k` -/
  | loaded (k : ℕ) (answer : Loaded)
  /-- the database has stored the record of the login number `k`, or raises -/
  | saved (k : ℕ) (ok : Bool)
  /-- `room_mgr` answers the room request number `k`, or raises -/
  | returned (k : ℕ) (answer : Option (Option ℕ))
  /-- `CMD.room_begin` -/
  | roomBegin (account : Option A)
  /-- `CMD.sendto_client` -/
  | sendtoClient (account : Option A) (protoName : String) (msg : Table A M)

/-- A close or an error ends the connection. -/
def State.ended (s : State A B) (fd : ℕ) : State A B :=
  State.closeConn { s with seen := { s.seen with
    connected := s.seen.connected.erase fd
    gone := fd :: s.seen.gone
    unmatched := s.seen.unmatched + if s.clients = 0 then 1 else 0 } } fd

/-- A warning is handled like a close, and ends nothing. -/
def State.warning (s : State A B) (fd : ℕ) : State A B :=
  State.closeConn { s with seen := { s.seen with
    warned := s.seen.warned + if s.clients = 0 then 0 else 1 } } fd

/-- One event. The gate opens a socket once, and reports nothing of it before or
after it is connected. -/
def step [DecidableEq A] (c : Codec A M B) (s : State A B) : Event A M → Option (State A B)
  | .open fd =>
    if fd ∈ s.seen.connected ∨ fd ∈ s.seen.gone then none
    else some { s with
      opening := s.opening ++ [fd]
      seen := { s.seen with connected := s.seen.connected ++ [fd] } }
  | .accepted k ok =>
    if k < s.opening.length then
      let s := { s with opening := s.opening.eraseIdx k }
      if ok then some s.incClients
      else some { s with seen := { s.seen with refused := s.seen.refused + 1 } }
    else none
  | .close fd => if fd ∈ s.seen.connected then some (s.ended fd) else none
  | .error fd => if fd ∈ s.seen.connected then some (s.ended fd) else none
  | .warning fd => if fd ∈ s.seen.connected then some (s.warning fd) else none
  | .data fd protoId params =>
    if fd ∈ s.seen.connected then some (s.data c fd protoId params) else none
  | .loaded k answer =>
    match s.logins[k]? with
    | some l => if l.stage = .loading then some (s.loaded c k l answer) else none
    | none => none
  | .saved k ok =>
    match s.logins[k]? with
    | some l =>
      match l.stage with
      | .saving obj =>
        let s := { s with logins := s.logins.eraseIdx k }
        some (if ok then s.loggedIn c l obj else s)
      | .loading => none
    | none => none
  | .returned k answer =>
    match s.calls[k]? with
    | some call =>
      let s := { s with calls := s.calls.eraseIdx k }
      match answer with
      | some id => some (s.write call.fd (c.pack call.protoId (.table (call.reply id))))
      | none => some s
    | none => none
  | .roomBegin account => some (s.roomBegin c account)
  | .sendtoClient account protoName msg => some (s.sendtoClient c account protoName msg)

/-! ## Handlers that go on -/

variable [DecidableEq A] {c : Codec A M B} {s s' : State A B}

/-- The answer to a load is for a login that waits for it. -/
theorem step_loaded {k : ℕ} {answer : Loaded} (h : step c s (.loaded k answer) = some s') :
    ∃ l, s.logins[k]? = some l ∧ s' = s.loaded c k l answer := by
  rw [step] at h
  rcases hl : s.logins[k]? with _ | l
  · simp [hl] at h
  · simp only [hl] at h
    split_ifs at h
    exact ⟨l, rfl, (Option.some.inj h).symm⟩

/-- The answer to an insert is for a login that waits for it. -/
theorem step_saved {k : ℕ} {ok : Bool} (h : step c s (.saved k ok) = some s') :
    ∃ l obj, s.logins[k]? = some l ∧
      s' = if ok then State.loggedIn c { s with logins := s.logins.eraseIdx k } l obj
        else { s with logins := s.logins.eraseIdx k } := by
  rw [step] at h
  rcases hl : s.logins[k]? with _ | l
  · simp [hl] at h
  · rcases hstage : l.stage with _ | obj
    · simp [hl, hstage] at h
    · simp only [hl, hstage] at h
      exact ⟨l, obj, rfl, (Option.some.inj h).symm⟩

/-- The answer to a room request is passed on, or an error has been raised. -/
theorem step_returned {k : ℕ} {answer : Option (Option ℕ)}
    (h : step c s (.returned k answer) = some s') :
    (∃ fd bytes, s' = State.write { s with calls := s.calls.eraseIdx k } fd bytes) ∨
      s' = { s with calls := s.calls.eraseIdx k } := by
  rw [step] at h
  rcases hcall : s.calls[k]? with _ | call
  · simp [hcall] at h
  · simp only [hcall] at h
    cases answer with
    | some id => exact .inl ⟨_, _, (Option.some.inj h).symm⟩
    | none => exact .inr (Option.some.inj h).symm

end SlgServer.App
