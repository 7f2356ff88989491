import SlgServer.Machine
import SlgServer.Netpack
import Mathlib.Data.Int.Notation

/-!
# The gate (`skynet/lualib/snax/gateserver.lua`, `skynet/service/gate.lua`)

A gate listens on a socket. It hands the packages of the sockets it accepts, and what
becomes of these sockets, to the service that opened it, the watchdog; `base_app` and
`login` are watchdogs. It knows which clients are connected, and takes no more than
`maxclient`.

An event is a message of the socket server or a command. The state begins where the command
`open` of `gateserver` has ended; a second `open`, which is possible after the gate has lost the
socket it listens on, is left out, as no watchdog asks for it. Socket numbers are not used
twice, and bytes come from sockets that are neither closed nor failed; this is kept in
`life`, which the program does not have.
-/

namespace SlgServer.Gate

open Netpack
open RobotNet (Bytes wire)

/-- What the gate sends to the watchdog. Texts are left out. -/
inductive Report : Type where
  /-- a client has come -/
  | open (fd : ℕ)
  /-- a package of a client -/
  | data (fd : ℕ) (msg : Bytes)
  /-- a socket is closed -/
  | close (fd : ℕ)
  /-- a socket has failed -/
  | error (fd : ℕ)
  /-- `size` KBytes wait to be sent -/
  | warning (fd size : ℕ)
  deriving DecidableEq

/-- What the gate does. -/
inductive Output : Type where
  /-- `skynet.send(watchdog, "lua", "socket", ...)` -/
  | report (r : Report)
  /-- `skynet.redirect`, of a package to an agent -/
  | redirect (agent : ℕ) (client : Option ℕ) (fd : ℕ) (msg : Bytes)
  /-- a package is dropped -/
  | drop (fd : ℕ) (msg : Bytes)
  /-- `handler.message` raises an error, for a client that `gate.lua` does not know -/
  | raised (fd : ℕ) (msg : Bytes)
  /-- the assertion of a command fails -/
  | unknown (fd : ℕ)
  /-- `socketdriver.start` -/
  | start (fd : ℕ)
  /-- `socketdriver.nodelay` -/
  | nodelay (fd : ℕ)
  /-- `socketdriver.close` -/
  | shut (fd : ℕ)
  deriving DecidableEq

/-- A connection of `gate.lua`. Its address is read nowhere. -/
structure Conn : Type where
  /-- `agent` -/
  agent : Option ℕ
  /-- `client` -/
  client : Option ℕ

/-- What has become of a socket. -/
inductive Life : Type where
  /-- its number has not been given out -/
  | unused
  /-- it may send bytes -/
  | live
  /-- it is closed or has failed -/
  | past
  deriving DecidableEq

/-- The state of a gate. -/
structure State : Type where
  /-- `socket`, the one it listens on -/
  socket : Option ℕ
  /-- `queue` -/
  queue : Option Queue
  /-- `maxclient` -/
  maxclient : ℕ
  /-- `client_number` -/
  clientNumber : ℤ
  /-- `connection` of `gateserver`; `false` is for a client that was kicked -/
  connection : ℕ → Option Bool
  /-- `connection` of `gate.lua` -/
  conns : ℕ → Option Conn
  /-- `nodelay` -/
  nodelay : Bool
  /-- what the gate has done -/
  out : List Output
  /-- what has become of the sockets -/
  life : ℕ → Life

/-- A gate that was opened and listens on the socket `socket`. -/
def State.opened (socket maxclient : ℕ) (nodelay : Bool) : State where
  socket := some socket
  queue := none
  maxclient := maxclient
  clientNumber := 0
  connection := fun _ => none
  conns := fun _ => none
  nodelay := nodelay
  out := []
  life := Function.update (fun _ => .unused) socket .live

/-- One more output. -/
def State.emit (s : State) (o : Output) : State := { s with out := s.out ++ [o] }

/-! ## `gate.lua` -/

/-- `handler.message`. -/
def State.handlerMessage (s : State) (fd : ℕ) (msg : Bytes) : State :=
  match s.conns fd with
  | none => s.emit (.raised fd msg)
  | some c =>
    match c.agent with
    | some agent => s.emit (.redirect agent c.client fd msg)
    | none => s.emit (.report (.data fd msg))

/-- `handler.connect`. -/
def State.handlerConnect (s : State) (fd : ℕ) : State :=
  State.emit { s with conns := Function.update s.conns fd (some ⟨none, none⟩) } (.report (.open fd))

/-- `close_fd` of `gate.lua`. -/
def State.handlerCloseFd (s : State) (fd : ℕ) : State :=
  match s.conns fd with
  | none => s
  | some _ => { s with conns := Function.update s.conns fd none }

/-- `handler.disconnect`. -/
def State.handlerDisconnect (s : State) (fd : ℕ) : State :=
  (s.handlerCloseFd fd).emit (.report (.close fd))

/-- `handler.error`. -/
def State.handlerError (s : State) (fd : ℕ) : State :=
  (s.handlerCloseFd fd).emit (.report (.error fd))

/-- `handler.warning`. -/
def State.handlerWarning (s : State) (fd size : ℕ) : State := s.emit (.report (.warning fd size))

/-! ## `gateserver` -/

/-- `gateserver.openclient`. -/
def State.openclient (s : State) (fd : ℕ) : State :=
  if s.connection fd = some true then s.emit (.start fd) else s

/-- `gateserver.closeclient`. -/
def State.closeclient (s : State) (fd : ℕ) : State :=
  if s.connection fd = some true then
    State.emit { s with connection := Function.update s.connection fd (some false) } (.shut fd)
  else s

/-- `unforward`. -/
def Conn.unforward (c : Conn) : Conn :=
  match c.agent with
  | some _ => ⟨none, none⟩
  | none => c

/-- After `unforward` a connection has no agent. -/
theorem Conn.agent_unforward (c : Conn) : c.unforward.agent = none := by
  rcases c with ⟨_ | agent, client⟩ <;> rfl

/-- `CMD.forward` of `gate.lua`, for `address or source` and `client`. -/
def State.forward (s : State) (fd agent : ℕ) (client : Option ℕ) : State :=
  match s.conns fd with
  | none => s.emit (.unknown fd)
  | some _ =>
    let c : Conn := ⟨some agent, some (client.getD 0)⟩
    State.openclient { s with conns := Function.update s.conns fd (some c) } fd

/-- `CMD.accept` of `gate.lua`. -/
def State.accept (s : State) (fd : ℕ) : State :=
  match s.conns fd with
  | none => s.emit (.unknown fd)
  | some c =>
    State.openclient { s with conns := Function.update s.conns fd (some c.unforward) } fd

/-- `dispatch_msg`. -/
def State.dispatchMsg (s : State) (fd : ℕ) (msg : Bytes) : State :=
  if s.connection fd = some true then s.handlerMessage fd msg else s.emit (.drop fd msg)

/-- What becomes of a package. -/
def State.outcome (s : State) (fd : ℕ) (msg : Bytes) : Output :=
  if s.connection fd = some true then
    match s.conns fd with
    | none => .raised fd msg
    | some c =>
      match c.agent with
      | some agent => .redirect agent c.client fd msg
      | none => .report (.data fd msg)
  else .drop fd msg

/-- `dispatch_msg` does one thing, the `outcome` of the package, and changes no table. -/
theorem State.dispatchMsg_eq (s : State) (fd : ℕ) (msg : Bytes) :
    s.dispatchMsg fd msg = s.emit (s.outcome fd msg) := by
  rw [dispatchMsg, outcome, handlerMessage]
  split_ifs
  · rcases s.conns fd with _ | ⟨_ | agent, client⟩ <;> rfl
  · rfl

/-- `dispatch_queue`. The handlers do not wait; the copy of `dispatch_queue` that is forked
finds the queue empty, and goes on with the loop if a handler has raised an error. -/
def State.dispatchQueue (s : State) : State :=
  match _h : pop s.queue with
  | none => s
  | some ((fd, msg), queue) => dispatchQueue (State.dispatchMsg { s with queue := queue } fd msg)
termination_by (waiting s.queue).length
decreasing_by
  rcases pop_spec s.queue with ⟨-, hnone⟩ | ⟨pack, q', hsome, hwaiting, -⟩
  · rw [hnone] at _h
    cases _h
  · obtain ⟨-, rfl⟩ := Prod.mk.inj (Option.some.inj (_h.symm.trans hsome))
    rw [State.dispatchMsg_eq, hwaiting]
    exact Nat.lt_succ_self _

/-- `CMD.close` of `gateserver`; if the assertion fails, nothing is done. -/
def State.cmdClose (s : State) : State :=
  match s.socket with
  | none => s
  | some fd => s.emit (.shut fd)

/-- `close_fd` of `gateserver`. -/
def State.closeFd (s : State) (fd : ℕ) : State :=
  if s.connection fd ≠ none then
    { s with
      connection := Function.update s.connection fd none
      clientNumber := s.clientNumber - 1 }
  else s

/-- `MSG.open`. -/
def State.msgOpen (s : State) (fd : ℕ) : State :=
  if s.clientNumber ≥ s.maxclient then s.emit (.shut fd)
  else
    let s := if s.nodelay then s.emit (.nodelay fd) else s
    State.handlerConnect { s with
      connection := Function.update s.connection fd (some true)
      clientNumber := s.clientNumber + 1 } fd

/-- `MSG.close`. -/
def State.msgClose (s : State) (fd : ℕ) : State :=
  if some fd ≠ s.socket then (s.handlerDisconnect fd).closeFd fd else { s with socket := none }

/-- `MSG.error`. -/
def State.msgError (s : State) (fd : ℕ) : State :=
  if some fd = s.socket then s.emit (.shut fd) else (s.handlerError fd).closeFd fd

/-- The function `dispatch` of the protocol `socket`. -/
def State.dispatch (s : State) (q : Option Queue) (type : Filtered) : State :=
  let s := { s with queue := q }
  match type with
  | .nothing => s
  | .data fd pack => s.dispatchMsg fd pack
  | .more => s.dispatchQueue
  | .error fd => s.msgError fd
  | .open fd => s.msgOpen fd
  | .close fd => s.msgClose fd
  | .warning fd size => s.handlerWarning fd size

/-- A message of the socket server. -/
def State.receive (s : State) (m : Message) : State :=
  let (q, type) := filter s.queue m
  s.dispatch q type

/-! ## Events -/

/-- A message of the socket server, or a command. -/
inductive Event : Type where
  /-- a message of the socket server -/
  | message (m : Message)
  /-- `forward` -/
  | forward (fd agent : ℕ) (client : Option ℕ)
  /-- `accept` -/
  | accept (fd : ℕ)
  /-- `kick` -/
  | kick (fd : ℕ)
  /-- `close` of `gateserver` -/
  | close

/-- The messages the socket server may send: it gives out a number once, and passes on
bytes, one at least, of sockets that are live. A socket that is over may be reported as
closed once more, if it was to be closed at the same time. -/
def State.Sends (s : State) : Message → Prop
  | .data id buffer => s.life id = .live ∧ buffer ≠ []
  | .connect _ => True
  | .close id | .error id | .warning id _ => s.life id ≠ .unused
  | .accept ud => s.life ud = .unused

instance (s : State) (m : Message) : Decidable (s.Sends m) :=
  match m with
  | .data id buffer => inferInstanceAs (Decidable (s.life id = .live ∧ buffer ≠ []))
  | .connect _ => inferInstanceAs (Decidable True)
  | .close id | .error id | .warning id _ => inferInstanceAs (Decidable (s.life id ≠ .unused))
  | .accept ud => inferInstanceAs (Decidable (s.life ud = .unused))

/-- What a message says of the life of a socket. -/
def State.lives (s : State) : Message → ℕ → Life
  | .data _ _ | .connect _ | .warning _ _ => s.life
  | .close id | .error id => Function.update s.life id .past
  | .accept ud => Function.update s.life ud .live

/-- One event. -/
def step (s : State) : Event → Option State
  | .message m => if s.Sends m then some { s.receive m with life := s.lives m } else none
  | .forward fd agent client => some (s.forward fd agent client)
  | .accept fd => some (s.accept fd)
  | .kick fd => some (s.closeclient fd)
  | .close => some s.cmdClose

/-! ## Packages -/

/-- The loop of `dispatch_queue` empties the queue. -/
theorem State.dispatchQueue_spec (s : State) :
    ∃ q, s.dispatchQueue = { s with
        queue := q, out := s.out ++ (waiting s.queue).map fun p => s.outcome p.1 p.2 } ∧
      waiting q = [] ∧ rest q = rest s.queue ∧ (Distinct s.queue → Distinct q) := by
  induction s using State.dispatchQueue.induct with
  | case1 s hnone =>
    rcases pop_spec s.queue with ⟨hnil, -⟩ | ⟨pack, q', hsome, -⟩
    · refine ⟨s.queue, ?_, hnil, rfl, id⟩
      rw [dispatchQueue, hnil, List.map_nil, List.append_nil]
      split
      · rfl
      · next h => exact absurd (hnone.symm.trans h) (by simp)
    · exact absurd (hnone.symm.trans hsome) (by simp)
  | case2 s fd msg queue hpop ih =>
    rcases pop_spec s.queue with ⟨-, hnone⟩ | ⟨pack, q', hsome, hwaiting, hrest, hdistinct⟩
    · exact absurd (hpop.symm.trans hnone) (by simp)
    · obtain ⟨rfl, rfl⟩ := Prod.mk.inj (Option.some.inj (hpop.symm.trans hsome))
      obtain ⟨q, hq, hnil, hrest', hdistinct'⟩ := ih
      rw [dispatchMsg_eq] at hq hrest' hdistinct'
      refine ⟨q, ?_, hnil, hrest'.trans hrest, fun h => hdistinct' (hdistinct h)⟩
      rw [dispatchQueue]
      split
      · next h => exact absurd (h.symm.trans hpop) (by simp)
      · next fd' msg' queue' h =>
        obtain ⟨hpack, rfl⟩ := Prod.mk.inj (Option.some.inj (h.symm.trans hpop))
        obtain ⟨rfl, rfl⟩ := Prod.mk.inj hpack
        rw [dispatchMsg_eq, hq, hwaiting, List.map_cons]
        simp only [emit, List.append_assoc, List.singleton_append]
        rfl

/-- **Bytes of a socket**: the packages they complete are dealt with, each once and in
order, and the gate keeps the rest. -/
theorem State.receive_data {s : State} (hq : Distinct s.queue) (hnil : waiting s.queue = [])
    (fd : ℕ) {buffer : Bytes} (hbuffer : buffer ≠ []) :
    ∃ q, s.receive (.data fd buffer) = { s with
        queue := q
        out := s.out ++ (wire.drain (rest s.queue fd ++ buffer)).1.map (s.outcome fd) } ∧
      waiting q = [] ∧ Distinct q ∧
      rest q = Function.update (rest s.queue) fd (wire.drain (rest s.queue fd ++ buffer)).2 := by
  have hcompleted := filterData_completed hq fd hbuffer
  rw [receive, filter]
  generalize (wire.drain (rest s.queue fd ++ buffer)).1 = packs at hcompleted ⊢
  generalize (wire.drain (rest s.queue fd ++ buffer)).2 = last at hcompleted ⊢
  generalize filterData s.queue fd buffer = p at hcompleted ⊢
  cases hcompleted with
  | @nothing q last htook =>
    refine ⟨q, ?_, ?_, htook.distinct, htook.rest⟩
    · dsimp only [dispatch]
      rw [List.map_nil, List.append_nil]
    · rw [htook.waiting, hnil, List.map_nil, List.append_nil]
  | @data q pack htook =>
    refine ⟨q, ?_, ?_, htook.distinct, htook.rest⟩
    · dsimp only [dispatch]
      rw [dispatchMsg_eq]
      rfl
    · rw [htook.waiting, hnil, List.map_nil, List.append_nil]
  | @more q packs last htook =>
    obtain ⟨q', heq, hnil', hrest, hdistinct⟩ := State.dispatchQueue_spec { s with queue := q }
    refine ⟨q', ?_, hnil', hdistinct htook.distinct, hrest.trans htook.rest⟩
    dsimp only [dispatch] at heq ⊢
    rw [heq, htook.waiting, hnil, List.nil_append, List.map_map]
    rfl

/-! ## What the gate knows of its clients -/

/-- What is kept of packages, between events: nothing waits, and bytes are kept of live
sockets only. -/
structure Kept (q : Option Queue) (life : ℕ → Life) : Prop where
  distinct : Distinct q
  waiting : waiting q = []
  rest : ∀ fd, life fd ≠ .live → rest q fd = []

/-- What the tables of clients say. -/
structure Clients (s : State) : Prop where
  /-- the two tables have the same clients -/
  conns : ∀ fd, s.connection fd = none ↔ s.conns fd = none
  /-- clients are live -/
  live : ∀ fd, s.connection fd ≠ none → s.life fd = .live
  /-- the socket it listens on is no client, and its number is given out -/
  socket : ∀ fd, s.socket = some fd → s.connection fd = none ∧ s.life fd ≠ .unused
  /-- `client_number` is the number of clients -/
  number : ∃ fds : List ℕ, fds.Nodup ∧ (∀ fd, fd ∈ fds ↔ s.connection fd ≠ none) ∧
    s.clientNumber = fds.length
  le : s.clientNumber ≤ s.maxclient

/-- What keeps the sets of clients and their number, and ends no client, keeps `Clients`. -/
theorem Clients.congr {s s' : State} (hs : Clients s)
    (hsocket : ∀ fd, s'.socket = some fd → s.socket = some fd) (hmax : s'.maxclient = s.maxclient)
    (hnumber : s'.clientNumber = s.clientNumber)
    (hconnection : ∀ fd, s'.connection fd = none ↔ s.connection fd = none)
    (hconns : ∀ fd, s'.conns fd = none ↔ s.conns fd = none)
    (hlife : ∀ fd, (s.connection fd ≠ none → s'.life fd = s.life fd) ∧
      (s.life fd ≠ .unused → s'.life fd ≠ .unused)) : Clients s' := by
  obtain ⟨fds, hnodup, hfds, hlength⟩ := hs.number
  refine ⟨fun fd => ?_, fun fd h => ?_, fun fd h => ?_,
    ⟨fds, hnodup, fun fd => ?_, hnumber.trans hlength⟩, ?_⟩
  · rw [hconnection, hconns]
    exact hs.conns fd
  · have hclient : s.connection fd ≠ none := fun hnone => h ((hconnection fd).mpr hnone)
    rw [(hlife fd).1 hclient]
    exact hs.live fd hclient
  · obtain ⟨hnone, hused⟩ := hs.socket fd (hsocket fd h)
    exact ⟨(hconnection fd).mpr hnone, (hlife fd).2 hused⟩
  · rw [Ne, hconnection]
    exact hfds fd
  · rw [hnumber, hmax]
    exact hs.le

/-- A gate that was opened has no clients. -/
theorem clients_opened (socket maxclient : ℕ) (nodelay : Bool) :
    Clients (State.opened socket maxclient nodelay) := by
  refine ⟨fun fd => iff_of_true rfl rfl, fun fd h => absurd rfl h, fun fd hfd => ⟨rfl, ?_⟩,
    ⟨[], List.nodup_nil, fun fd => ⟨fun h => absurd h List.not_mem_nil, fun h => absurd rfl h⟩,
      rfl⟩, Int.natCast_nonneg maxclient⟩
  obtain rfl : socket = fd := Option.some.inj hfd
  simp [State.opened]

/-- A number that was not given out is no client. -/
theorem Clients.not_client {s : State} (hs : Clients s) {fd : ℕ} (hfd : s.life fd = .unused) :
    s.connection fd = none := by
  by_contra h
  exact Life.noConfusion (hfd.symm.trans (hs.live fd h))

/-- A client comes. -/
theorem Clients.open {s s' : State} (hs : Clients s) {fd : ℕ} (hfd : s.life fd = .unused)
    (hless : s.clientNumber < s.maxclient) (hsocket : s'.socket = s.socket)
    (hmax : s'.maxclient = s.maxclient) (hnumber : s'.clientNumber = s.clientNumber + 1)
    (hconnection : s'.connection = Function.update s.connection fd (some true)) {c : Conn}
    (hconns : s'.conns = Function.update s.conns fd (some c))
    (hlife : s'.life = Function.update s.life fd .live) : Clients s' := by
  obtain ⟨fds, hnodup, hfds, hlength⟩ := hs.number
  have hnone := hs.not_client hfd
  have hnew : fd ∉ fds := fun h => (hfds fd).mp h hnone
  refine ⟨fun fd' => ?_, fun fd' h => ?_, fun fd' h => ?_,
    ⟨fd :: fds, List.nodup_cons.mpr ⟨hnew, hnodup⟩, fun fd' => ?_, ?_⟩, ?_⟩
  · rw [hconnection, hconns]
    rcases eq_or_ne fd' fd with rfl | hne
    · simp
    · rw [Function.update_of_ne hne, Function.update_of_ne hne]
      exact hs.conns fd'
  · rw [hlife]
    rcases eq_or_ne fd' fd with rfl | hne
    · exact Function.update_self ..
    · rw [hconnection, Function.update_of_ne hne] at h
      rw [Function.update_of_ne hne]
      exact hs.live fd' h
  · obtain ⟨hnone', hused⟩ := hs.socket fd' (hsocket ▸ h)
    have hne : fd' ≠ fd := fun heq => hused (heq ▸ hfd)
    rw [hconnection, hlife, Function.update_of_ne hne, Function.update_of_ne hne]
    exact ⟨hnone', hused⟩
  · rw [List.mem_cons, hconnection]
    rcases eq_or_ne fd' fd with rfl | hne
    · simp
    · rw [Function.update_of_ne hne, ← hfds fd']
      exact or_iff_right hne
  · rw [hnumber, hlength, List.length_cons, Int.natCast_succ]
  · rw [hnumber, hmax]
    exact hless

/-- A client goes, if it is one. -/
theorem Clients.close {s s' : State} (hs : Clients s) {fd : ℕ} (hfd : s.socket ≠ some fd)
    (hsocket : s'.socket = s.socket) (hmax : s'.maxclient = s.maxclient)
    (hnumber : s'.clientNumber = s.clientNumber - if s.connection fd = none then 0 else 1)
    (hconnection : s'.connection = Function.update s.connection fd none)
    (hconns : s'.conns = Function.update s.conns fd none)
    (hlife : s'.life = Function.update s.life fd .past) : Clients s' := by
  obtain ⟨fds, hnodup, hfds, hlength⟩ := hs.number
  have herase : s'.clientNumber = (fds.erase fd).length := by
    rw [hnumber, hlength]
    by_cases hnone : s.connection fd = none
    · have hnot : fd ∉ fds := fun h => (hfds fd).mp h hnone
      rw [if_pos hnone, List.erase_of_not_mem hnot, Int.sub_zero]
    · have hmem : fd ∈ fds := (hfds fd).mpr hnone
      have hpos := List.length_pos_of_mem hmem
      rw [if_neg hnone, List.length_erase_of_mem hmem]
      omega
  refine ⟨fun fd' => ?_, fun fd' h => ?_, fun fd' h => ?_,
    ⟨fds.erase fd, hnodup.erase fd, fun fd' => ?_, herase⟩, ?_⟩
  · rw [hconnection, hconns]
    rcases eq_or_ne fd' fd with rfl | hne
    · simp
    · rw [Function.update_of_ne hne, Function.update_of_ne hne]
      exact hs.conns fd'
  · rw [hconnection] at h
    rcases eq_or_ne fd' fd with rfl | hne
    · exact absurd (Function.update_self ..) h
    · rw [Function.update_of_ne hne] at h
      rw [hlife, Function.update_of_ne hne]
      exact hs.live fd' h
  · rw [hsocket] at h
    have hne : fd' ≠ fd := fun heq => hfd (heq ▸ h)
    rw [hconnection, hlife, Function.update_of_ne hne, Function.update_of_ne hne]
    exact hs.socket fd' h
  · rw [hnodup.mem_erase_iff, hconnection, hfds]
    rcases eq_or_ne fd' fd with rfl | hne
    · simp
    · rw [Function.update_of_ne hne]
      exact and_iff_right hne
  · have hle := hs.le
    rw [hnumber, hmax]
    split_ifs <;> omega

/-! ## What an event does -/

/-- `close_fd` in one equation: the table is updated in any case, the counter if there was an
entry. -/
theorem State.closeFd_eq (s : State) (fd : ℕ) :
    s.closeFd fd = { s with
      connection := Function.update s.connection fd none
      clientNumber := s.clientNumber - if s.connection fd = none then 0 else 1 } := by
  rw [closeFd]
  by_cases h : s.connection fd = none
  · rw [if_neg (not_not_intro h), if_pos h, Function.update_eq_self_iff.mpr h.symm, Int.sub_zero]
  · rw [if_pos h, if_neg h]

theorem State.handlerCloseFd_eq (s : State) (fd : ℕ) :
    s.handlerCloseFd fd = { s with conns := Function.update s.conns fd none } := by
  rw [handlerCloseFd]
  rcases h : s.conns fd with _ | c
  · rw [Function.update_eq_self_iff.mpr h.symm]
  · rfl

/-- A socket that is no client any more, with the report of this. -/
def State.gone (s : State) (fd : ℕ) (r : Report) : State :=
  { s with
    queue := closeUncomplete s.queue fd
    connection := Function.update s.connection fd none
    conns := Function.update s.conns fd none
    clientNumber := s.clientNumber - if s.connection fd = none then 0 else 1
    out := s.out ++ [.report r] }

/-- A socket is closed: the one the gate listens on, or another one, which is `gone` then. -/
theorem State.receive_close (s : State) (fd : ℕ) :
    s.receive (.close fd) =
      if s.socket = some fd then { s with queue := closeUncomplete s.queue fd, socket := none }
      else s.gone fd (.close fd) := by
  dsimp only [receive, filter, dispatch, msgClose]
  split_ifs with h h' h'
  · exact absurd h'.symm h
  · rw [closeFd_eq, handlerDisconnect, handlerCloseFd_eq]
    rfl
  · rfl
  · exact absurd (Decidable.of_not_not h).symm h'

/-- A socket fails: the gate closes the one it listens on, and another one is `gone`. -/
theorem State.receive_error (s : State) (fd : ℕ) :
    s.receive (.error fd) =
      if s.socket = some fd then
        { s with queue := closeUncomplete s.queue fd, out := s.out ++ [.shut fd] }
      else s.gone fd (.error fd) := by
  dsimp only [receive, filter, dispatch, msgError]
  split_ifs with h h' h'
  · rfl
  · exact absurd h.symm h'
  · exact absurd h'.symm h
  · rw [closeFd_eq, handlerError, handlerCloseFd_eq]
    rfl

/-- What `MSG.open` puts out for a client that is taken. -/
def State.welcome (s : State) (fd : ℕ) : List Output :=
  (if s.nodelay then [.nodelay fd] else []) ++ [.report (.open fd)]

/-- A socket comes: it is turned away if there are too many clients, and is a client otherwise. -/
theorem State.receive_accept (s : State) (fd : ℕ) :
    s.receive (.accept fd) =
      if s.clientNumber ≥ s.maxclient then { s with out := s.out ++ [.shut fd] }
      else { s with
        connection := Function.update s.connection fd (some true)
        conns := Function.update s.conns fd (some ⟨none, none⟩)
        clientNumber := s.clientNumber + 1
        out := s.out ++ s.welcome fd } := by
  dsimp only [receive, filter, dispatch, msgOpen, welcome]
  split_ifs with h hdelay
  · rfl
  · simp only [handlerConnect, emit, List.append_assoc]
  · rfl

/-- `openclient` starts the sockets of clients that were not kicked, and does nothing else. -/
theorem State.openclient_eq (s : State) (fd : ℕ) :
    s.openclient fd = { s with
      out := s.out ++ if s.connection fd = some true then [.start fd] else [] } := by
  rw [openclient]
  split_ifs
  · rfl
  · rw [List.append_nil]

/-- **What an event does.** -/
inductive Effect (s : State) : Event → State → Prop where
  /-- bytes of a socket: the packages they complete are dealt with -/
  | data {fd : ℕ} {buffer : Bytes} (hlive : s.life fd = .live) {q : Option Queue}
      (hnil : waiting q = []) (hdistinct : Distinct q)
      (hrest : rest q =
        Function.update (rest s.queue) fd (wire.drain (rest s.queue fd ++ buffer)).2) :
      Effect s (.message (.data fd buffer)) { s with
        queue := q
        out := s.out ++ (wire.drain (rest s.queue fd ++ buffer)).1.map (s.outcome fd) }
  /-- nothing: a connection made by the gate, a kick of a socket that is no client, or a `close`
  without a socket to listen on -/
  | nothing {e : Event} (he : (∃ fd, e = .message (.connect fd)) ∨
      (∃ fd, e = .kick fd ∧ s.connection fd ≠ some true) ∨ (e = .close ∧ s.socket = none)) :
      Effect s e s
  /-- the socket the gate listens on will be closed -/
  | closing {fd : ℕ} (hfd : s.socket = some fd) : Effect s .close (s.emit (.shut fd))
  /-- a warning is passed on -/
  | warning {fd size : ℕ} (hused : s.life fd ≠ .unused) :
      Effect s (.message (.warning fd size)) (s.emit (.report (.warning fd size)))
  /-- the socket the gate listens on is closed -/
  | unbound {fd : ℕ} (hfd : s.socket = some fd) : Effect s (.message (.close fd)) { s with
      queue := closeUncomplete s.queue fd
      socket := none
      life := Function.update s.life fd .past }
  /-- the socket the gate listens on fails -/
  | failed {fd : ℕ} (hfd : s.socket = some fd) : Effect s (.message (.error fd)) { s with
      queue := closeUncomplete s.queue fd
      out := s.out ++ [.shut fd]
      life := Function.update s.life fd .past }
  /-- another socket is closed or fails -/
  | gone {fd : ℕ} {e : Event} {r : Report} (he : (e = .message (.close fd) ∧ r = .close fd) ∨
      (e = .message (.error fd) ∧ r = .error fd)) (hfd : s.socket ≠ some fd)
      (hused : s.life fd ≠ .unused) :
      Effect s e { s.gone fd r with life := Function.update s.life fd .past }
  /-- there are too many clients -/
  | refused {fd : ℕ} (hfd : s.life fd = .unused) (hfull : s.clientNumber ≥ s.maxclient) :
      Effect s (.message (.accept fd)) { s with
        out := s.out ++ [.shut fd]
        life := Function.update s.life fd .live }
  /-- a client is taken -/
  | taken {fd : ℕ} (hfd : s.life fd = .unused) (hless : s.clientNumber < s.maxclient) :
      Effect s (.message (.accept fd)) { s with
        connection := Function.update s.connection fd (some true)
        conns := Function.update s.conns fd (some ⟨none, none⟩)
        clientNumber := s.clientNumber + 1
        out := s.out ++ s.welcome fd
        life := Function.update s.life fd .live }
  /-- a command for a socket that is no client -/
  | unknown {fd : ℕ} {e : Event} (he : (∃ agent client, e = .forward fd agent client) ∨
      e = .accept fd) (hfd : s.conns fd = none) : Effect s e (s.emit (.unknown fd))
  /-- a client gets an agent, or has none -/
  | remembered {fd : ℕ} {e : Event} {c : Conn}
      (he : (∃ agent client, e = .forward fd agent client) ∨ (e = .accept fd ∧ c.agent = none))
      (hfd : s.conns fd ≠ none) :
      Effect s e { s with
        conns := Function.update s.conns fd (some c)
        out := s.out ++ if s.connection fd = some true then [.start fd] else [] }
  /-- a client is kicked -/
  | kicked {fd : ℕ} (hfd : s.connection fd = some true) : Effect s (.kick fd) { s with
      connection := Function.update s.connection fd (some false)
      out := s.out ++ [.shut fd] }

/-- **Each event has one of these effects.** -/
theorem step_effect {s s' : State} {e : Event} (hdistinct : Distinct s.queue)
    (hnil : waiting s.queue = []) (h : step s e = some s') : Effect s e s' := by
  cases e with
  | message m =>
    rw [step] at h
    split_ifs at h with hm
    obtain rfl := Option.some.inj h
    cases m with
    | data fd buffer =>
      obtain ⟨q, hdata, hnil', hdistinct', hrest⟩ := State.receive_data hdistinct hnil fd hm.2
      rw [hdata]
      exact .data hm.1 hnil' hdistinct' hrest
    | connect fd => exact .nothing (.inl ⟨fd, rfl⟩)
    | warning fd size => exact .warning hm
    | close fd =>
      rw [State.receive_close]
      split_ifs with hfd
      · exact .unbound hfd
      · exact .gone (.inl ⟨rfl, rfl⟩) hfd hm
    | error fd =>
      rw [State.receive_error]
      split_ifs with hfd
      · exact .failed hfd
      · exact .gone (.inr ⟨rfl, rfl⟩) hfd hm
    | accept fd =>
      rw [State.receive_accept]
      -- the limit is tested before the connection is counted
      split_ifs with hfull
      · exact .refused hm hfull
      · exact .taken hm (lt_of_not_ge hfull)
  | forward fd agent client =>
    obtain rfl := Option.some.inj h
    rw [State.forward]
    rcases hfd : s.conns fd with _ | c
    · exact .unknown (.inl ⟨agent, client, rfl⟩) hfd
    · dsimp only
      rw [State.openclient_eq]
      exact .remembered (.inl ⟨agent, client, rfl⟩) (hfd ▸ Option.some_ne_none c)
  | accept fd =>
    obtain rfl := Option.some.inj h
    rw [State.accept]
    rcases hfd : s.conns fd with _ | c
    · exact .unknown (.inr rfl) hfd
    · dsimp only
      rw [State.openclient_eq]
      exact .remembered (.inr ⟨rfl, c.agent_unforward⟩) (hfd ▸ Option.some_ne_none c)
  -- a second kick finds the connection marked, and does nothing
  | kick fd =>
    obtain rfl := Option.some.inj h
    rw [State.closeclient]
    split_ifs with hfd
    · exact .kicked hfd
    · exact .nothing (.inr (.inl ⟨fd, rfl, hfd⟩))
  -- `CMD.close` asks for the end of the listener, which comes with its `close`
  | close =>
    obtain rfl := Option.some.inj h
    rw [State.cmdClose]
    rcases hfd : s.socket with _ | fd
    · exact .nothing (.inr (.inr ⟨rfl, hfd⟩))
    · exact .closing hfd

/-! ## Invariants -/

/-- The bytes kept of a socket are thrown away at its end. -/
theorem Kept.close {q : Option Queue} {life : ℕ → Life} (hq : Kept q life) (fd : ℕ) :
    Kept (closeUncomplete q fd) (Function.update life fd .past) := by
  have htook := closeUncomplete_spec hq.distinct fd
  refine ⟨htook.distinct, ?_, fun fd' h => ?_⟩
  · rw [htook.waiting, hq.waiting, List.map_nil, List.append_nil]
  · rw [htook.rest]
    rcases eq_or_ne fd' fd with rfl | hne
    · exact Function.update_self ..
    · rw [Function.update_of_ne hne] at h
      rw [Function.update_of_ne hne]
      exact hq.rest fd' h

/-- Of a socket that begins nothing is kept. -/
theorem Kept.accept {q : Option Queue} {life : ℕ → Life} (hq : Kept q life) (fd : ℕ) :
    Kept q (Function.update life fd .live) := by
  refine ⟨hq.distinct, hq.waiting, fun fd' h => ?_⟩
  rcases eq_or_ne fd' fd with rfl | hne
  · exact absurd (Function.update_self ..) h
  · rw [Function.update_of_ne hne] at h
    exact hq.rest fd' h

/-- What holds of a gate between events. -/
structure Inv (s : State) : Prop where
  kept : Kept s.queue s.life
  clients : Clients s

/-- A state that differs in what the gate has done, and in what it remembers of clients that
there are. -/
theorem Inv.congr {s s' : State} (hI : Inv s) (hqueue : s'.queue = s.queue)
    (hsocket : s'.socket = s.socket) (hmax : s'.maxclient = s.maxclient)
    (hnumber : s'.clientNumber = s.clientNumber)
    (hconnection : ∀ fd, s'.connection fd = none ↔ s.connection fd = none)
    (hconns : ∀ fd, s'.conns fd = none ↔ s.conns fd = none) (hlife : s'.life = s.life) :
    Inv s' := by
  refine ⟨?_, hI.clients.congr (fun fd h => hsocket ▸ h) hmax hnumber hconnection hconns
    fun fd => ⟨fun _ => congrFun hlife fd, fun h => hlife ▸ h⟩⟩
  rw [hqueue, hlife]
  exact hI.kept

theorem update_eq_none_iff {β : Type} (f : ℕ → Option β) {fd : ℕ} (hfd : f fd ≠ none) (b : β)
    (fd' : ℕ) : Function.update f fd (some b) fd' = none ↔ f fd' = none := by
  rcases eq_or_ne fd' fd with rfl | hne
  · rw [Function.update_self]
    exact iff_of_false (Option.some_ne_none b) hfd
  · rw [Function.update_of_ne hne]

/-- The life of a socket that is no client goes on. -/
theorem update_life {s : State} {fd : ℕ} (hfd : s.connection fd = none) {l : Life}
    (hl : l ≠ .unused) (fd' : ℕ) :
    (s.connection fd' ≠ none → Function.update s.life fd l fd' = s.life fd') ∧
      (s.life fd' ≠ .unused → Function.update s.life fd l fd' ≠ .unused) := by
  rcases eq_or_ne fd' fd with rfl | hne
  · rw [Function.update_self]
    exact ⟨fun h => absurd hfd h, fun _ => hl⟩
  · rw [Function.update_of_ne hne]
    exact ⟨fun _ => rfl, fun h => h⟩

/-- **Every event keeps the invariant.** -/
theorem Inv.step {s s' : State} {e : Event} (hI : Inv s) (h : step s e = some s') : Inv s' := by
  cases step_effect hI.kept.distinct hI.kept.waiting h with
  | @data fd buffer hlive q hnil hdistinct hrest =>
    refine ⟨⟨hdistinct, hnil, fun fd' hfd' => ?_⟩, hI.clients.congr (fun _ h => h) rfl rfl
      (fun _ => Iff.rfl) (fun _ => Iff.rfl) fun _ => ⟨fun _ => rfl, fun h => h⟩⟩
    have hne : fd' ≠ fd := fun h => hfd' (h ▸ hlive)
    rw [hrest, Function.update_of_ne hne]
    exact hI.kept.rest fd' hfd'
  | nothing => exact hI
  | warning | closing =>
    exact hI.congr rfl rfl rfl rfl (fun _ => Iff.rfl) (fun _ => Iff.rfl) rfl
  | @unbound fd hfd =>
    exact ⟨hI.kept.close fd, hI.clients.congr (fun _ h => absurd h (Option.some_ne_none _).symm)
      rfl rfl (fun _ => Iff.rfl) (fun _ => Iff.rfl)
      (update_life (hI.clients.socket fd hfd).1 fun h => Life.noConfusion h)⟩
  | @failed fd hfd =>
    exact ⟨hI.kept.close fd, hI.clients.congr (fun _ h => h) rfl rfl (fun _ => Iff.rfl)
      (fun _ => Iff.rfl) (update_life (hI.clients.socket fd hfd).1 fun h => Life.noConfusion h)⟩
  | @gone fd e r he hfd hused =>
    exact ⟨hI.kept.close fd, hI.clients.close hfd rfl rfl rfl rfl rfl rfl⟩
  | @refused fd hfd hfull =>
    exact ⟨hI.kept.accept fd, hI.clients.congr (fun _ h => h) rfl rfl (fun _ => Iff.rfl)
      (fun _ => Iff.rfl) (update_life (hI.clients.not_client hfd) fun h => Life.noConfusion h)⟩
  | @taken fd hfd hless =>
    exact ⟨hI.kept.accept fd, hI.clients.open hfd hless rfl rfl rfl rfl rfl rfl⟩
  | unknown => exact hI.congr rfl rfl rfl rfl (fun _ => Iff.rfl) (fun _ => Iff.rfl) rfl
  | @remembered fd e c he hfd =>
    exact hI.congr rfl rfl rfl rfl (fun _ => Iff.rfl) (update_eq_none_iff s.conns hfd c) rfl
  | @kicked fd hfd =>
    have hclient : s.connection fd ≠ none := hfd ▸ Option.some_ne_none true
    exact hI.congr rfl rfl rfl rfl (update_eq_none_iff s.connection hclient false)
      (fun _ => Iff.rfl) rfl

/-- The invariant holds of a gate that was opened. -/
theorem inv_opened (socket maxclient : ℕ) (nodelay : Bool) :
    Inv (State.opened socket maxclient nodelay) :=
  ⟨⟨distinct_none, waiting_none, fun fd _ => rest_none fd⟩,
    clients_opened socket maxclient nodelay⟩

end SlgServer.Gate
