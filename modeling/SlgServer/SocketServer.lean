import SlgServer.Machine
import SlgServer.Pool
import Mathlib.Data.Int.Notation

/-!
# Sending through a socket (`skynet-src/socket_server.c`)

What a service sends through a connected TCP socket takes one of two ways. Either the thread
of the service writes it to the socket itself (`socket_server_send`), or it goes through a
pipe to the socket thread, which puts it in one of two lists, by priority, and writes from
these lists when the socket is writable. A direct write is tried only if nothing else seems
to wait, and this is looked at field by field, without a lock first and again with it, while
the socket thread goes on. What a direct write leaves over goes before the lists.

The model is one socket from the moment it is connected. A step of a thread reads or changes
one thing that others see, so a list of events is an interleaving of the threads. A failing
assertion sets `fault`; those on `tail` in `append_sendbuffer_` are left out, for a list has no
`tail` of its own here. How many bytes `write` takes is part of the event. The socket may be
found writable at any time here; the calls of `sp_write` come in `SocketPoll`. Buffers of user
objects are left out, for which no part of the program registers an interface. For `EINTR` a
write is made again at once, which is no event.
-/

namespace SlgServer.SocketServer

/-- `PRIORITY_HIGH` and `PRIORITY_LOW`. -/
inductive Priority : Type where
  | high
  | low
  deriving DecidableEq

/-- Something that a service sends. The program has the bytes only. -/
structure Message : Type where
  sender : ℕ
  priority : Priority
  data : List UInt8
  deriving DecidableEq

/-- `struct write_buffer`. -/
structure WriteBuffer : Type where
  /-- `buffer` -/
  buffer : Message
  /-- from `buffer` to `ptr` -/
  offset : ℕ
  deriving DecidableEq

/-- `sz`: what is still to be written. -/
def WriteBuffer.sz (b : WriteBuffer) : ℕ := b.buffer.data.length - b.offset

/-- What is written already. -/
def WriteBuffer.written (b : WriteBuffer) : List UInt8 := b.buffer.data.take b.offset

/-- The types that the socket goes through. -/
inductive SocketType : Type where
  /-- `SOCKET_TYPE_CONNECTED` -/
  | connected
  /-- `SOCKET_TYPE_HALFCLOSE` -/
  | halfclose
  /-- `SOCKET_TYPE_INVALID` -/
  | invalid
  deriving DecidableEq

/-- What the socket thread is told through the pipe: `D` or `P`, and `K`. -/
inductive Command : Type where
  | send (m : Message)
  | close (shutdown : Bool)
  deriving DecidableEq

/-- The first look at the fields is without the lock, the second with it. -/
inductive Look : Type where
  | first
  | second
  deriving DecidableEq

/-- Where a service stands in `socket_server_send`. -/
inductive Sender : Type where
  /-- not in it -/
  | idle
  /-- in `can_direct_write`, after `k` fields -/
  | looking (m : Message) (look : Look) (k : ℕ)
  /-- before `socket_trylock` -/
  | locking (m : Message)
  /-- the second look found something: before `socket_unlock` -/
  | leaving (m : Message)
  /-- before `write` -/
  | writing (m : Message)
  /-- `write` took `n` bytes: before `dw_buffer` is set -/
  | storing (m : Message) (n : ℕ)
  /-- the direct write is made: before `socket_unlock` -/
  | unlocking
  /-- before `inc_sending_ref` -/
  | increasing (m : Message)
  /-- before the command is written to the pipe -/
  | piping (m : Message)
  deriving DecidableEq

/-- Who called `send_buffer`: the loop over the events, or `close_socket`. -/
inductive Caller : Type where
  | event
  | close (shutdown : Bool)
  deriving DecidableEq

/-- Where the socket thread stands. -/
inductive Thread : Type where
  /-- in `socket_server_poll`, between two events -/
  | polling
  /-- before `dec_sending_ref` -/
  | decreasing
  /-- in `send_buffer_`, at one of the lists -/
  | flushing (list : Priority) (caller : Caller)
  /-- at the end of `send_buffer` -/
  | unlocking (caller : Caller)
  /-- in `close_socket`, at one of its two looks, after `k` fields -/
  | checking (look : Look) (k : ℕ) (shutdown : Bool)
  /-- in `close_socket`, before `send_buffer` -/
  | trying (shutdown : Bool)
  /-- in `force_close`, before it frees a list, with or without the lock -/
  | freeing (list : Priority) (held : Bool)
  /-- in `force_close`, before it takes the lock -/
  | ending (held : Bool)
  deriving DecidableEq

/-- What `socket_server_poll` returns about the sending: `SOCKET_WARNING`, or that the socket
is closed. -/
inductive Report : Type where
  | warning (ud : ℤ)
  | closed
  deriving DecidableEq

/-- `struct socket`, as far as it is about sending, with the pipe and the threads. -/
structure State : Type where
  type : SocketType
  high : List WriteBuffer
  low : List WriteBuffer
  /-- `wb_size` -/
  wbSize : ℤ
  /-- `warn_size` -/
  warnSize : ℤ
  /-- `sending`, the lower 16 bits -/
  sending : ℕ
  /-- `dw_buffer` and `dw_offset` -/
  dw : Option WriteBuffer
  /-- `dw_lock` -/
  locked : Bool
  pipe : List Command
  senders : List Sender
  thread : Thread
  reports : List Report
  /-- an assertion failed -/
  fault : Bool
  /-- the bytes that went out -/
  wire : List UInt8
  /-- the messages that went out whole -/
  done : List Message
  /-- the messages that `send_socket` did not take -/
  dropped : List Message
  /-- the messages of all calls -/
  called : List Message

/-- A connected socket and `n` services. -/
def State.init (n : ℕ) : State where
  type := .connected
  high := []
  low := []
  wbSize := 0
  warnSize := 0
  sending := 0
  dw := none
  locked := false
  pipe := []
  senders := List.replicate n .idle
  thread := .polling
  reports := []
  fault := false
  wire := []
  done := []
  dropped := []
  called := []

/-- `assert`. -/
def State.assert (s : State) (b : Prop) [Decidable b] : State :=
  if b then s else { s with fault := true }

/-- One of the fields that `can_direct_write` looks at, in its order; `nomore_sending_data`
looks at the first four. The `id` does not change, and `udpconnecting` is 0. -/
def State.reads (s : State) (k : ℕ) : Bool :=
  match k with
  | 0 => s.high.isEmpty
  | 1 => s.low.isEmpty
  | 2 => s.dw.isNone
  | 3 => s.sending = 0
  | _ => s.type = .connected

/-! ## The services -/

/-- A service calls `socket_server_send` or `socket_server_send_lowpriority`. If the socket is
closed already, they return -1. -/
def State.send (s : State) (i : ℕ) (m : Message) : State :=
  if s.type = .invalid then s
  else
    { s with
      called := s.called ++ [m]
      senders := s.senders.set i (match m.priority with
        | .high => .looking m .first 0
        | .low => .increasing m) }

/-- After a look at which nothing seems to wait. -/
def Look.clear (m : Message) : Look → Sender
  | .first => .locking m
  | .second => .writing m

/-- After a look at which something waits. -/
def Look.blocked (m : Message) : Look → Sender
  | .first => .increasing m
  | .second => .leaving m

/-- One step of a service, other than `write`. -/
def State.senderStep (s : State) (i : ℕ) : Sender → Option State
  | .idle => none
  | .looking m look k => some { s with
      senders := s.senders.set i (
        if s.reads k then
          if k < 4 then .looking m look (k + 1) else look.clear m
        else look.blocked m) }
  | .locking m => some (
      if s.locked then { s with senders := s.senders.set i (.increasing m) }
      else { s with locked := true, senders := s.senders.set i (.looking m .second 0) })
  | .leaving m => some { s with locked := false, senders := s.senders.set i (.increasing m) }
  | .writing _ => none
  | .storing m n => some { s with dw := some ⟨m, n⟩, senders := s.senders.set i .unlocking }
  | .unlocking => some { s with locked := false, senders := s.senders.set i .idle }
  | .increasing m =>
      if s.sending = 0xffff then none
      else some { s with sending := s.sending + 1, senders := s.senders.set i (.piping m) }
  | .piping m => some { s with pipe := s.pipe ++ [.send m], senders := s.senders.set i .idle }

/-- The direct write, of which `write` takes `n` bytes; an error counts as no bytes. -/
def State.directWrite (s : State) (i n : ℕ) : Sender → Option State
  | .writing m =>
      if n < m.data.length then
        some { s with
          wire := s.wire ++ m.data.take n
          senders := s.senders.set i (.storing m n) }
      else if n = m.data.length then
        some { s with
          wire := s.wire ++ m.data
          done := s.done ++ [m]
          senders := s.senders.set i .unlocking }
      else none
  | _ => none

/-! ## The socket thread -/

/-- `WARNING_SIZE`. -/
def warningSize : ℤ := 1024 * 1024

/-- `append_sendbuffer` and `append_sendbuffer_low`. -/
def State.append (s : State) (list : Priority) (m : Message) : State :=
  let s := { s with wbSize := s.wbSize + m.data.length }
  match list with
  | .high => { s with high := s.high ++ [⟨m, 0⟩] }
  | .low => { s with low := s.low ++ [⟨m, 0⟩] }

/-- The end of `send_socket`: too much waits. -/
def State.warn (s : State) : State :=
  if warningSize ≤ s.wbSize ∧ s.warnSize ≤ s.wbSize then
    { s with
      warnSize := if s.warnSize = 0 then warningSize * 2 else s.warnSize * 2
      reports := s.reports ++ [.warning
        (if s.wbSize % 1024 = 0 then s.wbSize / 1024 else s.wbSize / 1024 + 1)] }
  else s

/-- `send_socket`. -/
def State.sendSocket (s : State) (m : Message) : State :=
  if s.type = .connected then
    if s.high.isEmpty ∧ s.low.isEmpty then (s.append .high m).warn
    else (s.append m.priority m).warn
  else { s with dropped := s.dropped ++ [m] }

/-- `ctrl_cmd`. -/
def State.ctrlCmd (s : State) : Command → State
  | .send m => { s.sendSocket m with thread := .decreasing }
  | .close shutdown =>
      if s.type = .invalid then { s with reports := s.reports ++ [.closed] }
      else { s with thread := .checking .first 0 shutdown }

/-- `list_uncomplete`. -/
def listUncomplete : List WriteBuffer → Bool
  | [] => false
  | b :: _ => b.offset ≠ 0

/-- The beginning of `send_buffer`, with the lock. -/
def State.sendBuffer (s : State) (caller : Caller) : State :=
  let s := match s.dw with
    | some b => { s with wbSize := s.wbSize + b.sz, high := b :: s.high, dw := none }
    | none => s
  { s.assert (listUncomplete s.low = false) with
    locked := true, thread := .flushing .high caller }

/-- `raise_uncomplete`. -/
def State.raiseUncomplete (s : State) : State :=
  match s.low with
  | [] => s
  | b :: low => { s.assert s.high.isEmpty with low := low, high := [b] }

/-- Step 4 of `send_buffer_`: all is written. -/
def State.allWritten (s : State) (caller : Caller) : State :=
  let s := s.assert (s.high.isEmpty ∧ s.low.isEmpty ∧ s.wbSize = 0)
  if s.type = .halfclose then { s with thread := .freeing .high true }
  else if 0 < s.warnSize then
    { s with
      warnSize := 0
      reports := s.reports ++ (match caller with
        | .event => [.warning 0]
        | .close _ => [])
      thread := .unlocking caller }
  else { s with thread := .unlocking caller }

/-- What `write` does with the buffer at the head of a list: it takes bytes, or would block,
or fails. -/
inductive Write : Type where
  | took (n : ℕ)
  | again
  | failed
  deriving DecidableEq

/-- The list at which `send_buffer_` stands. -/
def State.list (s : State) : Priority → List WriteBuffer
  | .high => s.high
  | .low => s.low

def State.setList (s : State) (list : Priority) (bs : List WriteBuffer) : State :=
  match list with
  | .high => { s with high := bs }
  | .low => { s with low := bs }

/-- `send_list_tcp` is over before its list is empty. -/
def State.stopped (s : State) (list : Priority) (caller : Caller) : State :=
  match list with
  | .high => { s with thread := .unlocking caller }
  | .low =>
      if listUncomplete s.low then { s.raiseUncomplete with thread := .unlocking caller }
      else { s with thread := .unlocking caller }

/-- `write` in `send_list_tcp`. -/
def State.writeList (s : State) (list : Priority) (caller : Caller) (w : Write) : Option State :=
  match s.list list, w with
  | [], _ => none
  | _ :: _, .again => some (s.stopped list caller)
  | _ :: _, .failed => some { s with thread := .freeing .high true }
  | b :: bs, .took n =>
      if n < b.sz then
        let s := { s with
          wire := s.wire ++ (b.buffer.data.drop b.offset).take n
          wbSize := s.wbSize - n }
        some ((s.setList list (⟨b.buffer, b.offset + n⟩ :: bs)).stopped list caller)
      else if n = b.sz then
        let s := { s with
          wire := s.wire ++ b.buffer.data.drop b.offset
          wbSize := s.wbSize - n
          done := s.done ++ [b.buffer] }
        some (s.setList list bs)
      else none

/-- One step of the socket thread inside of what it does with one event, other than
`write`. -/
def State.threadStep (s : State) : Option State :=
  match s.thread with
  | .polling => none
  | .decreasing =>
      some { s.assert (s.sending ≠ 0) with sending := s.sending - 1, thread := .polling }
  | .flushing .high caller =>
      if s.high.isEmpty then
        some (if s.low.isEmpty then s.allWritten caller
          else { s with thread := .flushing .low caller })
      else none
  | .flushing .low caller => if s.low.isEmpty then some (s.allWritten caller) else none
  | .unlocking caller => some { s with
      locked := false
      thread := match caller with
        | .event => .polling
        | .close shutdown => .checking .second 0 shutdown }
  | .checking look k shutdown =>
      some (
        if look = .second ∧ shutdown then { s with thread := .freeing .high false }
        else if s.reads k then
          if k < 3 then { s with thread := .checking look (k + 1) shutdown }
          else match look with
            | .first => { s with thread := .checking .second 0 shutdown }
            | .second => { s with thread := .freeing .high false }
        else match look with
          | .first => { s with thread := .trying shutdown }
          | .second => { s with type := .halfclose, thread := .polling })
  | .trying shutdown => some (
      if s.locked then { s with thread := .checking .second 0 shutdown }
      else s.sendBuffer (.close shutdown))
  | .freeing .high held => some { s with high := [], thread := .freeing .low held }
  | .freeing .low held => some { s with low := [], thread := .ending held }
  | .ending held =>
      if held ∨ ¬ s.locked then
        some { s with
          type := .invalid
          dw := none
          reports := s.reports ++ [.closed]
          thread := if held then .unlocking .event else .polling }
      else none

/-! ## Events -/

/-- What may happen. -/
inductive Event : Type where
  /-- the service `i` sends -/
  | send (i : ℕ) (priority : Priority) (data : List UInt8)
  /-- the service `i` goes on -/
  | goOn (i : ℕ)
  /-- the direct write of the service `i` -/
  | directWrite (i n : ℕ)
  /-- `socket_server_close` or `socket_server_shutdown` -/
  | close (shutdown : Bool)
  /-- the socket thread reads a command -/
  | command
  /-- the socket thread finds the socket writable -/
  | writable
  /-- the socket thread finds, when it reads, that the connection is at its end -/
  | broken
  /-- the socket thread goes on -/
  | thread
  /-- `write` in `send_list_tcp` -/
  | write (w : Write)
  deriving DecidableEq

/-- One step. -/
def step (s : State) : Event → Option State
  | .send i priority data =>
      if s.senders[i]? = some .idle then some (s.send i ⟨i, priority, data⟩) else none
  | .goOn i => s.senders[i]?.bind (s.senderStep i)
  | .directWrite i n => s.senders[i]?.bind (s.directWrite i n)
  | .close shutdown => some { s with pipe := s.pipe ++ [.close shutdown] }
  | .command =>
      match s.thread, s.pipe with
      | .polling, c :: pipe => some ({ s with pipe := pipe }.ctrlCmd c)
      | _, _ => none
  | .writable =>
      if s.thread = .polling ∧ s.type ≠ .invalid then
        some (if s.locked then s else s.sendBuffer .event)
      else none
  | .broken =>
      if s.thread = .polling ∧ s.type ≠ .invalid then some { s with thread := .freeing .high false }
      else none
  | .thread => s.threadStep
  | .write w =>
      match s.thread with
      | .flushing list caller => s.writeList list caller w
      | _ => none

end SlgServer.SocketServer
