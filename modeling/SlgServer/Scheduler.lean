import SlgServer.Machine
import SlgServer.Pool
import SlgServer.RingBuffer
import Mathlib.Data.Int.Notation

/-!
# The scheduler of services (`skynet-src/skynet_mq.c`, `skynet_server.c`, `skynet_start.c`)

Each service has a queue of messages. Queues with messages wait in the global queue; a worker
takes one out, handles some of its messages, and puts it back. Other threads, and the
handlers themselves, push messages meanwhile, start services and retire them.

A task is a thread at some point of its code; a step of a task is what it does under one lock,
or one atomic operation, so a list of events is an interleaving of threads. What the program
would not survive (a failing assertion, a queue or a context that is used after it was freed)
sets `fault`.

`skynet_context_new` puts the context into the table of handles first, and makes its queue
then. In between the context can be found, but not its queue. `Event.Knows` is what the program
expects of those who send: they do not know a handle before its queue was made.

Services have numbers that are not used again; they stand for their handles. Messages to
other nodes and the reports about overload and endless loops are left out. So is what
`skynet_context_new` does with a context after it has given up its own reference to it (it
sets the flag `init`, and writes a line to the log): nothing keeps the context there for it.
-/

namespace SlgServer.Scheduler

/-- `skynet_message`; the type is in the high byte of `sz`. -/
structure Message (D : Type) : Type where
  /-- `source`, if it is not 0 -/
  source : Option ℕ
  /-- `session` -/
  session : ℤ
  /-- the type -/
  type : ℕ
  /-- `data` -/
  data : Option D
  deriving DecidableEq

/-- `PTYPE_ERROR`. -/
def ptypeError : ℕ := 7

/-- What `drop_message` sends to the source of a message that the service `handle` will not
handle. -/
def errorFrom (D : Type) (handle : ℕ) : Message D := ⟨some handle, 0, ptypeError, none⟩

/-- `struct message_queue`. -/
structure MessageQueue (D : Type) : Type where
  /-- `cap`, `head`, `tail` and `queue` -/
  queue : RingBuffer (Message D)
  /-- `release` -/
  release : Bool
  /-- `in_global` -/
  inGlobal : Bool
  /-- the memory was freed -/
  freed : Bool
  /-- it has not been made yet -/
  making : Bool

instance (D : Type) : Inhabited (Message D) := ⟨⟨none, 0, 0, none⟩⟩

/-- `DEFAULT_QUEUE_SIZE`. -/
def defaultQueueSize : ℕ := 64

/-- `skynet_mq_create`. -/
def MessageQueue.create (D : Type) : MessageQueue D where
  queue := RingBuffer.empty defaultQueueSize (Nat.zero_lt_succ _)
  release := false
  inGlobal := true
  freed := false
  making := false

/-- `ctx->queue`, as long as `skynet_context_new` has not set it. Nothing is there, so that the
other fields mean nothing. -/
def MessageQueue.unmade (D : Type) : MessageQueue D := { MessageQueue.create D with making := true }

/-- A service: its context, its queue, and its place in the table of handles. What has become
of its messages is kept too; the program has no such record. -/
structure Service (D : Type) : Type where
  /-- its queue -/
  mq : MessageQueue D
  /-- `ref` -/
  ref : ℤ
  /-- it is in the table of handles -/
  listed : Bool
  /-- the messages that were pushed -/
  sent : List (Message D)
  /-- the messages that were handled -/
  ran : List (Message D)
  /-- the messages that were dropped -/
  dropped : List (Message D)

/-- A service that has not been created. -/
def Service.unborn (D : Type) : Service D where
  mq := { MessageQueue.create D with release := true, inGlobal := false, freed := true }
  ref := 0
  listed := false
  sent := []
  ran := []
  dropped := []

/-- A service that `skynet_context_new` has put into the table of handles: one reference is for
the table, one for the creator. -/
def Service.register (D : Type) : Service D where
  mq := MessageQueue.unmade D
  ref := 2
  listed := true
  sent := []
  ran := []
  dropped := []

/-- What a task does next. The weight of a worker is `none` for -1. -/
inductive Next : Type where
  /-- a worker without a queue: `skynet_globalmq_pop` -/
  | pop (weight : Option ℕ)
  /-- a worker with the queue of `k`: `skynet_context_message_dispatch` -/
  | dispatch (weight : Option ℕ) (k : ℕ)
  /-- `skynet_context_new`, after `init`: `skynet_globalmq_push` -/
  | publish (k : ℕ)
  /-- `skynet_context_new`, after a failing `init`: `skynet_handle_retire` -/
  | retire (k : ℕ)
  /-- `skynet_mq_release` -/
  | mqRelease (k : ℕ) (next : Next)
  /-- `_drop_queue` -/
  | dropQueue (k : ℕ) (next : Next)
  /-- nothing -/
  | done
  deriving DecidableEq

/-- A thread at some point of its code. -/
inductive Task (D : Type) : Type where
  /-- at the beginning of what comes next -/
  | next (next : Next)
  /-- a worker in the loop of `skynet_context_message_dispatch`, at its head -/
  | loop (weight : Option ℕ) (k i n : ℕ)
  /-- it has popped a message -/
  | popped (weight : Option ℕ) (k i n : ℕ) (m : Message D)
  /-- it calls the callback with the message, or frees it if there is no callback -/
  | running (weight : Option ℕ) (k i n : ℕ) (m : Message D)
  /-- the loop is over: `skynet_globalmq_pop` -/
  | finish (weight : Option ℕ) (k : ℕ)
  /-- it has got the queue of `j`: `skynet_globalmq_push` of its own -/
  | pushBack (weight : Option ℕ) (k j : ℕ)
  /-- `drop_message`, of a message of the service `k` -/
  | report (k : ℕ) (m : Message D) (next : Next)
  /-- `skynet_context_push`, with the context grabbed: `skynet_mq_push` -/
  | push (k : ℕ) (m : Message D) (next : Next)
  /-- `skynet_context_release` -/
  | release (k : ℕ) (next : Next)
  /-- no reference is left: `skynet_mq_mark_release` -/
  | delete (k : ℕ) (next : Next)
  /-- `skynet_context_new`, with the context in the table of handles: `skynet_mq_create` -/
  | mqCreate (k : ℕ)
  /-- `skynet_context_new`, in `init` -/
  | init (k : ℕ)
  /-- `skynet_handle_retire` -/
  | retire (k : ℕ) (next : Next)

/-- The state of the node. -/
structure State (D : Type) : Type where
  /-- the number of services created -/
  count : ℕ
  /-- the services -/
  service : ℕ → Service D
  /-- the global queue -/
  global : List ℕ
  /-- the tasks -/
  tasks : List (Task D)
  /-- an assertion has failed, or memory was used that was freed or is not there yet -/
  fault : Bool

/-- A node with workers of some weights. -/
def State.start (D : Type) (weights : List (Option ℕ)) : State D where
  count := 0
  service := fun _ => Service.unborn D
  global := []
  tasks := weights.map fun weight => .next (.pop weight)
  fault := false

variable {D : Type}

/-! ## What is done under one lock -/

/-- A service changes. -/
def State.modify (s : State D) (k : ℕ) (f : Service D → Service D) : State D :=
  { s with service := Function.update s.service k (f (s.service k)) }

/-- An assertion. -/
def State.assert (s : State D) (b : Bool) : State D := { s with fault := s.fault || !b }

/-- The queue of a service is used. -/
def State.useQueue (s : State D) (k : ℕ) : State D :=
  s.assert !((s.service k).mq.freed || (s.service k).mq.making)

/-- The context of a service is used. -/
def State.useContext (s : State D) (k : ℕ) : State D := s.assert (0 < (s.service k).ref)

/-- `skynet_globalmq_push`; a queue that is in the global queue has no other place there. -/
def State.globalmqPush (s : State D) (k : ℕ) : State D :=
  let s := (s.useQueue k).assert (k ∉ s.global)
  { s with global := s.global ++ [k] }

theorem lt_double (n : ℕ) (h : 0 < n) : n < n * 2 := by omega

/-- `skynet_mq_push`. -/
def State.mqPush (s : State D) (k : ℕ) (m : Message D) : State D :=
  let s := (s.useQueue k).modify k fun sv => { sv with
    mq := { sv.mq with
      queue := sv.mq.queue.push (· * 2) lt_double m }
    sent := sv.sent ++ [m] }
  if (s.service k).mq.inGlobal = false then
    (s.modify k fun sv => { sv with mq := { sv.mq with inGlobal := true } }).globalmqPush k
  else s

/-- `skynet_mq_pop`. -/
def State.mqPop (s : State D) (k : ℕ) : Option (Message D) × State D :=
  let s := s.useQueue k
  match (s.service k).mq.queue.pop with
  | some (m, queue) =>
    (some m, s.modify k fun sv => { sv with mq := { sv.mq with queue := queue } })
  | none => (none, s.modify k fun sv => { sv with mq := { sv.mq with inGlobal := false } })

/-- `skynet_mq_length`. -/
def State.mqLength (s : State D) (k : ℕ) : ℕ × State D :=
  ((s.service k).mq.queue.length, s.useQueue k)

/-- `skynet_mq_mark_release`. -/
def State.mqMarkRelease (s : State D) (k : ℕ) : State D :=
  let s := (s.useQueue k).assert ((s.service k).mq.release = false)
  let s := s.modify k fun sv => { sv with mq := { sv.mq with release := true } }
  if (s.service k).mq.inGlobal = false then s.globalmqPush k else s

/-- `_release`. -/
def State.mqFree (s : State D) (k : ℕ) : State D :=
  ((s.useQueue k).assert (k ∉ s.global)).modify k fun sv =>
    { sv with mq := { sv.mq with freed := true } }

/-- `skynet_handle_grab`. -/
def State.grab (s : State D) (k : ℕ) : Option (State D) :=
  if (s.service k).listed then
    some ((s.useContext k).modify k fun sv => { sv with ref := sv.ref + 1 })
  else none

/-! ## Steps -/

/-- What a task does first, and where it is then. `ok` is for the result of `init`. -/
def State.advance (s : State D) (ok : Bool) : Task D → State D × Task D
  | .next (.pop weight) =>
    match s.global with
    | [] => (s, .next (.pop weight))
    | k :: global => ({ s with global := global }, .next (.dispatch weight k))
  | .next (.dispatch weight k) =>
    match (s.useQueue k).grab k with
    | none => (s.useQueue k, .next (.mqRelease k (.pop weight)))
    | some s => (s, .loop weight k 0 1)
  | .next (.publish k) => (s.globalmqPush k, .next .done)
  | .next (.retire k) => (s, .retire k (.mqRelease k .done))
  | .next (.mqRelease k next) =>
    let s := s.useQueue k
    if (s.service k).mq.release then (s, .next (.dropQueue k next))
    else (s.globalmqPush k, .next next)
  | .next (.dropQueue k next) =>
    match s.mqPop k with
    | (some m, s) =>
      (s.modify k fun sv => { sv with dropped := sv.dropped ++ [m] }, .report k m next)
    | (none, s) => (s.mqFree k, .next next)
  | .next .done => (s, .next .done)
  | .loop weight k i n =>
    if i < n then
      match s.mqPop k with
      | (none, s) => (s, .release k (.pop weight))
      | (some m, s) => (s, .popped weight k i n m)
    else (s, .finish weight k)
  | .popped weight k i n m =>
    match i, weight with
    | 0, some shift =>
      let (length, s) := s.mqLength k
      (s, .running weight k i (length >>> shift) m)
    | _, _ => (s, .running weight k i n m)
  | .running weight k i n m =>
    ((s.useContext k).modify k fun sv => { sv with ran := sv.ran ++ [m] }, .loop weight k (i + 1) n)
  | .finish weight k =>
    match s.global with
    | [] => (s, .release k (.dispatch weight k))
    | j :: global => ({ s with global := global }, .pushBack weight k j)
  | .pushBack weight k j => (s.globalmqPush k, .release k (.dispatch weight j))
  | .report k m next =>
    match m.source with
    | none => (s, .next (.dropQueue k next))
    | some j =>
      match s.grab j with
      | none => (s, .next (.dropQueue k next))
      | some s => (s, .push j (errorFrom D k) (.dropQueue k next))
  | .push k m next => (s.mqPush k m, .release k next)
  | .release k next =>
    let s := (s.useContext k).modify k fun sv => { sv with ref := sv.ref - 1 }
    if (s.service k).ref = 0 then (s, .delete k next) else (s, .next next)
  | .delete k next => (s.mqMarkRelease k, .next next)
  | .mqCreate k =>
    ((s.useContext k).modify k fun sv => { sv with mq := MessageQueue.create D }, .init k)
  | .init k => (s, .release k (if ok then .publish k else .retire k))
  | .retire k next =>
    if (s.service k).listed then
      (s.modify k fun sv => { sv with listed := false }, .release k next)
    else (s, .next next)

/-- What may happen. -/
inductive Event (D : Type) : Type where
  /-- the task number `i` takes a step -/
  | act (i : ℕ) (ok : Bool)
  /-- a thread calls `skynet_context_push` -/
  | send (k : ℕ) (m : Message D)
  /-- a thread calls `skynet_handle_retire` -/
  | retire (k : ℕ)
  /-- a thread calls `skynet_context_new`, and has the context in the table of handles; before
  `ctx->handle` is set nobody finds it there -/
  | create

/-- One event. -/
def step (s : State D) : Event D → Option (State D)
  | .act i ok =>
    (s.tasks[i]?).map fun t =>
      let (s', t') := s.advance ok t
      { s' with tasks := s.tasks.set i t' }
  | .send k m =>
    match s.grab k with
    | some s => some { s with tasks := s.tasks ++ [.push k m .done] }
    | none => some s
  | .retire k => some { s with tasks := s.tasks ++ [.retire k .done] }
  | .create =>
    some { s with
      count := s.count + 1
      service := Function.update s.service s.count (Service.register D)
      tasks := s.tasks ++ [.mqCreate s.count] }

/-! ## Those who send -/

/-- The queue of a service was made. -/
def State.Made (s : State D) (k : ℕ) : Prop := k < s.count ∧ (s.service k).mq.making = false

instance (s : State D) (k : ℕ) : Decidable (s.Made k) :=
  inferInstanceAs (Decidable (_ ∧ _))

/-- The source of a message, if it has one, can be sent an error. -/
def State.Answerable (s : State D) (m : Message D) : Prop := ∀ j ∈ m.source, s.Made j

instance (s : State D) (m : Message D) : Decidable (s.Answerable m) :=
  inferInstanceAs (Decidable (∀ j ∈ m.source, s.Made j))

/-- Nobody sends to a service, or in its name, before its queue was made. A handle is given away
by `init`, or by the creator after `skynet_context_new` has returned it; but handles are numbers,
and the table answers to one that was guessed. -/
def Event.Knows (s : State D) : Event D → Prop
  | .send k m => ((s.service k).listed = true → s.Made k) ∧ s.Answerable m
  | _ => True

instance (s : State D) (e : Event D) : Decidable (e.Knows s) :=
  match e with
  | .send k m =>
    inferInstanceAs (Decidable (((s.service k).listed = true → s.Made k) ∧ s.Answerable m))
  | .act _ _ | .retire _ | .create => isTrue trivial

/-- In every step of a run those who send know the service. -/
def Knowing (s : State D) (es : List (Event D)) : Prop :=
  Machine.Guarded step (fun s e => e.Knows s) s es

instance (s : State D) (es : List (Event D)) : Decidable (Knowing s es) :=
  inferInstanceAs (Decidable (Machine.Guarded step (fun s e => e.Knows s) s es))

end SlgServer.Scheduler
