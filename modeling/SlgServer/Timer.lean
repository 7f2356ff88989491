import SlgServer.Buckets
import Mathlib.Data.UInt
import Mathlib.Data.Nat.Notation

/-!
# The timer wheel

`skynet_timer.c`. A service asks with `skynet_timeout` to be told after some hundredths of a
second. A `struct timer` keeps what was asked for in lists: `near` has one for each of the
next ticks up to a multiple of 256, and `t` has four levels of 64 lists each, for what is
farther away. Every tick the timer thread takes the list of that tick and sends what is in it
(`timer_execute`), and when the lower bits of the time run over it moves one list of a level
down (`timer_shift`).

Any thread may call `skynet_timeout` at any time; only the timer thread calls
`skynet_updatetime`. The lists are touched under a lock, and `timer_execute` gives the lock
up while it sends, so a step of the timer thread is what it does with the lock in one go, or
one message sent without it.
-/

namespace SlgServer.Timer

def timeNearShift : UInt32 := 8
def timeNear : UInt32 := 1 <<< timeNearShift
def timeLevelShift : UInt32 := 6
def timeLevel : UInt32 := 1 <<< timeLevelShift
def timeNearMask : UInt32 := timeNear - 1
def timeLevelMask : UInt32 := timeLevel - 1

/-- `struct timer_node`, and the `struct timer_event` that lies behind it. -/
structure Node where
  handle : UInt32
  session : Int32
  expire : UInt32
  deriving DecidableEq

/-- The lists of a `struct timer`: `near[i]` and `t[i][j]`. -/
inductive Slot
  | near (i : ℕ)
  | level (i j : ℕ)
  deriving DecidableEq

/-- `struct timer`, without the lock, and without `starttime`, which is only ever read. -/
structure Wheel where
  list : Slot → List Node
  time : UInt32
  current : UInt64
  currentPoint : UInt64

/-- `link_clear`, which also returns what the list held. -/
def Wheel.linkClear (T : Wheel) (slot : Slot) : List Node × Wheel :=
  (T.list slot, { T with list := Function.update T.list slot [] })

/-- `link`. -/
def Wheel.link (T : Wheel) (slot : Slot) (node : Node) : Wheel :=
  { T with list := Buckets.put T.list slot node }

/-- The loop of `add_node`: `n` levels are left to look at, of which `i` is the first. The
last level is not looked at. -/
def findLevel (time currentTime : UInt32) : ℕ → UInt32 → ℕ → ℕ
  | 0, _, i => i
  | n + 1, mask, i =>
    if time ||| (mask - 1) = currentTime ||| (mask - 1) then i
    else findLevel time currentTime n (mask <<< timeLevelShift) (i + 1)

/-- The list in which `add_node` puts a node. -/
def slotOf (time currentTime : UInt32) : Slot :=
  if time ||| timeNearMask = currentTime ||| timeNearMask then
    .near (time &&& timeNearMask).toNat
  else
    let i := findLevel time currentTime 3 (timeNear <<< timeLevelShift) 0
    .level i ((time >>> (timeNearShift + UInt32.ofNat i * timeLevelShift)) &&& timeLevelMask).toNat

/-- `add_node`. -/
def Wheel.addNode (T : Wheel) (node : Node) : Wheel := T.link (slotOf node.expire T.time) node

/-- `timer_add`. -/
def Wheel.timerAdd (T : Wheel) (handle : UInt32) (session time : Int32) : Wheel :=
  T.addNode ⟨handle, session, time.toUInt32 + T.time⟩

/-- `move_list`. -/
def Wheel.moveList (T : Wheel) (level idx : ℕ) : Wheel :=
  let (current, T) := T.linkClear (.level level idx)
  current.foldl Wheel.addNode T

/-- The loop of `timer_shift`. It ends at level 3 at the latest, since some bit of `ct` is
set. -/
def Wheel.shiftLoop (T : Wheel) (ct : UInt32) : ℕ → UInt32 → UInt32 → ℕ → Wheel
  | 0, _, _, _ => T
  | n + 1, mask, time, i =>
    if ct &&& (mask - 1) = 0 then
      let idx := time &&& timeLevelMask
      if idx ≠ 0 then T.moveList i idx.toNat
      else T.shiftLoop ct n (mask <<< timeLevelShift) (time >>> timeLevelShift) (i + 1)
    else T

/-- `timer_shift`. -/
def Wheel.timerShift (T : Wheel) : Wheel :=
  let ct := T.time + 1
  let T := { T with time := ct }
  if ct = 0 then T.moveList 3 0 else T.shiftLoop ct 4 timeNear (ct >>> timeNearShift) 0

/-- The list that `timer_execute` looks at. -/
def Wheel.due (T : Wheel) : Slot := .near (T.time &&& timeNearMask).toNat

/-- `timer_create_timer` and `skynet_timer_init`, with what the clocks say. -/
def Wheel.init (current currentPoint : UInt64) : Wheel := ⟨fun _ => [], 0, current, currentPoint⟩

/-- Where the timer thread stands when it does not hold the lock: outside `timer_update`, or in
`dispatch_list` with the nodes that it has not sent yet, called by the `timer_execute` before
the time is shifted or by the one after. -/
inductive Thread
  | idle
  | early (current : List Node)
  | late (current : List Node)
  deriving DecidableEq

/-- The nodes that are taken out of the wheel but not sent yet. -/
def Thread.current : Thread → List Node
  | .idle => []
  | .early current => current
  | .late current => current

/-- A message that `handle` is to get, or got, at the tick `due`. It has the session that the
service asked with, no data and no source, and its type is `PTYPE_RESPONSE`. -/
structure Timeout where
  due : ℕ
  handle : UInt32
  session : Int32
  deriving DecidableEq

/-- The timer with all that goes on around it. -/
structure State where
  T : Wheel
  thread : Thread
  /-- how many times `skynet_updatetime` is still to call `timer_update`; the call whose shift
  is made is not counted any more -/
  left : ℕ
  /-- the messages that `dispatch_list` sent, each with the tick at which it did -/
  sent : List Timeout
  /-- the messages that `skynet_timeout` sent by itself -/
  answered : List Timeout
  /-- how many ticks there were, which `time` counts only up to `2 ^ 32` -/
  ticks : ℕ
  /-- all that was added to the wheel, each with the tick at which it is due -/
  added : List Timeout

/-- `skynet_timer_init`. -/
def State.init (current currentPoint : UInt64) : State :=
  ⟨.init current currentPoint, .idle, 0, [], [], 0, []⟩

/-- `skynet_timeout`. Whether `skynet_context_push` finds the service shows only in the
result. -/
def State.skynetTimeout (s : State) (handle : UInt32) (time session : Int32) (found : Bool) :
    State × Int32 :=
  if time ≤ 0 then
    ({ s with answered := s.answered ++ [⟨s.ticks, handle, session⟩] },
      if found then session else -1)
  else
    ({ s with
        T := s.T.timerAdd handle session time
        added := s.added ++ [⟨s.ticks + time.toNatClampNeg, handle, session⟩] }, session)

/-- `skynet_updatetime`, up to its loop, with what the clock says. -/
def State.skynetUpdatetime (s : State) (cp : UInt64) : State :=
  if cp < s.T.currentPoint then { s with T := { s.T with currentPoint := cp } }
  else if cp ≠ s.T.currentPoint then
    let diff := (cp - s.T.currentPoint).toUInt32
    { s with
      T := { s.T with currentPoint := cp, current := s.T.current + diff.toUInt64 }
      left := diff.toNat }
  else s

/-- The call of `timer_shift` in `timer_update`. -/
def State.shift (s : State) : State :=
  { s with T := s.T.timerShift, ticks := s.ticks + 1, left := s.left - 1 }

/-- The second `timer_execute` of `timer_update` has the lock. -/
def State.executeLate (s : State) : State :=
  match s.T.linkClear s.T.due with
  | ([], _) => { s with thread := .idle }
  | (current, T) => { s with T := T, thread := .late current }

/-- The first `timer_execute` of `timer_update` has the lock. -/
def State.executeEarly (s : State) : State :=
  match s.T.linkClear s.T.due with
  | ([], _) => s.shift.executeLate
  | (current, T) => { s with T := T, thread := .early current }

/-- The message of a node, sent now. -/
def State.message (s : State) (node : Node) : Timeout := ⟨s.ticks, node.handle, node.session⟩

/-- `dispatch_list` sends the message of one node. -/
def State.dispatch (s : State) (node : Node) : State :=
  { s with sent := s.sent ++ [s.message node] }

/-- What may happen. -/
inductive Event
  /-- some thread calls `skynet_timeout` -/
  | timeout (handle : UInt32) (time session : Int32) (found : Bool)
  /-- the timer thread calls `skynet_updatetime` -/
  | updatetime (cp : UInt64)
  /-- the timer thread goes on in `skynet_updatetime` -/
  | goOn

/-- One step. -/
def step (s : State) : Event → Option State
  | .timeout handle time session found => some (s.skynetTimeout handle time session found).1
  | .updatetime cp => if s.thread = .idle ∧ s.left = 0 then some (s.skynetUpdatetime cp) else none
  | .goOn =>
    match s.thread with
    | .idle => if s.left = 0 then none else some s.executeEarly
    | .early [] => some s.executeEarly
    | .early (node :: current) => some { s.dispatch node with thread := .early current }
    | .late [] => some s.executeLate
    | .late (node :: current) => some { s.dispatch node with thread := .late current }

end SlgServer.Timer
