import SlgServer.SocketServer

/-!
# Nothing torn, nothing lost

What waits to go out through a socket is one queue, `pending`, though it lies in four places:
a direct write that has just been cut short, what it stored in `dw_buffer`, and the two
lists. Only the first in the queue may be written in part, and whoever holds the lock
writes at this place (`Core.front`, `Core.wire`).

A service whose message is not in the queue or the pipe any more may write directly. The look
without the lock ensures that nothing of the service is in the pipe, and the look with it
that nothing is in the list for high priority; one look would not do, since a message may go
from the pipe to the list between the reading of one field and of another (`SenderOk`).

* `stream_whole`: whatever the threads do in whatever order, as long as nobody has begun to
  close the socket the bytes that went out are whole messages and a part of the next, and the
  messages of a service with one priority go out in the order in which they were sent, none
  lost and none twice.
* `no_assertion_fails`: no assertion fails, in no run.
-/

namespace SlgServer.SocketServer

open Machine Pool

/-! ## What a state is about -/

/-- The message that a service has not handed over yet. -/
def Sender.message : Sender → List Message
  | .looking m _ _ => [m]
  | .locking m => [m]
  | .leaving m => [m]
  | .writing m => [m]
  | .increasing m => [m]
  | .piping m => [m]
  | .idle => []
  | .storing _ _ => []
  | .unlocking => []

/-- What a direct write has left over and not stored yet. -/
def Sender.stored : Sender → List WriteBuffer
  | .storing m n => [⟨m, n⟩]
  | _ => []

/-- Whether a service holds the lock. -/
def Sender.holds : Sender → ℕ
  | .looking _ .second _ => 1
  | .leaving _ => 1
  | .writing _ => 1
  | .storing _ _ => 1
  | .unlocking => 1
  | _ => 0

/-- Whether a service has counted a message that is not in the pipe yet. -/
def Sender.pipes : Sender → ℕ
  | .piping _ => 1
  | _ => 0

/-- Whether the socket thread holds the lock. -/
def Thread.holds : Thread → ℕ
  | .flushing _ _ => 1
  | .unlocking _ => 1
  | .freeing _ held => held.toNat
  | .ending held => held.toNat
  | _ => 0

/-- Whether the socket thread is to take a message off the count. -/
def Thread.decs : Thread → ℕ
  | .decreasing => 1
  | _ => 0

/-- Whether the socket thread is in `force_close`. -/
def Thread.closing : Thread → Bool
  | .freeing _ _ => true
  | .ending _ => true
  | _ => false

/-- Where the socket thread may stand when the socket is closed. -/
def Thread.mayBeClosed (th : Thread) : Prop :=
  th = .polling ∨ th = .decreasing ∨ th = .unlocking .event

/-- A message on its way through the pipe. -/
def Command.message : Command → Option Message
  | .send m => some m
  | .close _ => none

/-- The messages in the pipe. -/
def State.piped (s : State) : List Message := s.pipe.filterMap Command.message

/-- What waits to be written, in the order in which it will be. -/
def State.pending (s : State) : List WriteBuffer :=
  s.senders.flatMap Sender.stored ++ s.dw.toList ++ s.high ++ s.low

/-- The message that the service `i` has not handed over yet. -/
def State.own (s : State) (i : ℕ) : List Message := (s.senders[i]?.map Sender.message).getD []

/-- All messages that were handed over: those written, those that wait to be, those that
`send_socket` did not take, and those in the pipe. -/
def State.taken (s : State) : List Message :=
  s.done ++ s.pending.map WriteBuffer.buffer ++ s.dropped ++ s.piped

/-- Nobody has begun to close the socket by force. -/
def State.isOpen (s : State) : Prop := s.type ≠ .invalid ∧ s.thread.closing = false

/-- The messages of the service `i` with priority `p`. -/
def mine (i : ℕ) (p : Priority) (m : Message) : Bool := m.sender = i ∧ m.priority = p

/-! ## The invariant -/

/-- No message of the service `i` with high priority is in the pipe. -/
def NoPipe (s : State) (i : ℕ) : Prop := ∀ m ∈ s.piped, mine i .high m = false

/-- In the list for high priority nothing is written in part, and nothing is from the
service `i`, unless its priority was low. -/
def HighOk (s : State) (i : ℕ) : Prop :=
  ∀ b ∈ s.high, b.offset = 0 ∧ mine i .high b.buffer = false

/-- No message of the service `i` with high priority was dropped. -/
def NoDropped (s : State) (i : ℕ) : Prop := ∀ m ∈ s.dropped, mine i .high m = false

/-- What a service knows from the fields that it has looked at. -/
def SenderOk (s : State) (i : ℕ) : Sender → Prop
  | .looking m .first k => m.priority = .high ∧ (3 < k → NoPipe s i)
  | .locking m => m.priority = .high ∧ NoPipe s i
  | .looking m .second k =>
      m.priority = .high ∧ NoPipe s i ∧ (0 < k → HighOk s i) ∧ (2 < k → s.dw = none)
  | .writing m =>
      m.priority = .high ∧ NoPipe s i ∧ HighOk s i ∧ s.dw = none ∧ NoDropped s i
  | .storing m n => m.sender = i ∧ n < m.data.length ∧ s.dw = none
  | _ => True

/-- The queue, while the socket is open. -/
structure Core (s : State) : Prop where
  front : ∀ b ∈ s.pending.tail, b.offset = 0
  fits : ∀ b ∈ s.pending, b.offset ≤ b.buffer.data.length
  wire : s.wire = s.done.flatMap Message.data ++ s.pending.flatMap WriteBuffer.written
  size : s.wbSize = (((s.high ++ s.low).map WriteBuffer.sz).sum : ℕ)
  lowPriority : ∀ b ∈ s.low, b.buffer.priority = .low
  dropped : s.type = .connected → s.dropped = []
  order : ∀ i p, (s.taken ++ s.own i).filter (mine i p) = s.called.filter (mine i p)
  sender : ∀ i t, s.senders[i]? = some t → SenderOk s i t

/-- What the socket thread relies on. -/
def Turn (s : State) : Prop :=
  match s.thread with
  | .flushing .high _ => s.dw = none ∧ ∀ b ∈ s.low, b.offset = 0
  | .flushing .low _ => s.dw = none ∧ s.high = []
  | _ => ∀ b ∈ s.low, b.offset = 0

/-- The invariant of all runs. -/
structure Inv (s : State) : Prop where
  lock : total Sender.holds s.senders + s.thread.holds = if s.locked then 1 else 0
  sending : s.sending = s.piped.length + s.thread.decs + total Sender.pipes s.senders
  owner : ∀ i (t : Sender), s.senders[i]? = some t → ∀ m ∈ t.message, m.sender = i
  fault : s.fault = false
  /-- the socket thread is at work only on a socket that is not closed -/
  type : s.type = .invalid → s.thread.closing = false → s.thread.mayBeClosed
  core : s.isOpen → Core s ∧ Turn s

variable {s s' : State} {i j : ℕ} {t t' : Sender}

/-! ## The lock -/

theorem Sender.stored_of_holds {t : Sender} (h : t.holds = 0) : t.stored = [] := by
  cases t with
  | storing m n => exact absurd h Nat.one_ne_zero
  | _ => rfl

theorem Sender.tail_stored (t : Sender) : t.stored.tail = [] := by
  cases t <;> rfl

/-- The lock of a service that has it is its own. -/
theorem Inv.holder (h : Inv s) (ht : s.senders[i]? = some t) (hholds : t.holds = 1) :
    s.locked = true ∧ s.thread.holds = 0 ∧ total Sender.holds s.senders = 1 := by
  have hle := le_total Sender.holds ht
  have hlock := h.lock
  cases hl : s.locked with
  | false =>
    rw [hl] at hlock
    simp only [Bool.false_eq_true, if_false] at hlock
    omega
  | true =>
    rw [hl] at hlock
    simp only [if_true] at hlock
    exact ⟨rfl, by omega, by omega⟩

/-- Nobody else has it. -/
theorem Inv.not_holds (h : Inv s) (ht : s.senders[i]? = some t) (hholds : t.holds = 1)
    {u : Sender} (hu : s.senders[j]? = some u) (hij : i ≠ j) : u.holds = 0 := by
  have hle := add_le_total Sender.holds hij ht hu
  have htotal := (h.holder ht hholds).2.2
  omega

/-- If the lock is not with a service, no service has anything left over. -/
theorem Inv.stored_eq_nil (h : Inv s) (hfree : s.locked = false ∨ s.thread.holds = 1) :
    s.senders.flatMap Sender.stored = [] := by
  refine flatMap_eq_nil (f := Sender.holds) (fun _ => Sender.stored_of_holds) ?_
  have hlock := h.lock
  rcases hfree with hl | hth
  · rw [hl] at hlock
    simp only [Bool.false_eq_true, if_false] at hlock
    omega
  · cases hl : s.locked with
    | false =>
      rw [hl] at hlock
      simp only [Bool.false_eq_true, if_false] at hlock
      omega
    | true =>
      rw [hl] at hlock
      simp only [if_true] at hlock
      omega

theorem Inv.free_of (h : Inv s) (hfree : s.locked = false ∨ s.thread.holds = 1)
    (ht : s.senders[i]? = some t) : t.holds = 0 := by
  have hle := le_total Sender.holds ht
  have hlock := h.lock
  rcases hfree with hl | hth
  · rw [hl] at hlock
    simp only [Bool.false_eq_true, if_false] at hlock
    omega
  · split_ifs at hlock
    · omega
    · omega

/-! ## What the services know -/

theorem SenderOk.imp (h : SenderOk s i t) (hpipe : NoPipe s i → NoPipe s' i)
    (hheld : t.holds = 1 → (NoPipe s i → HighOk s i → HighOk s' i) ∧ (s.dw = none → s'.dw = none) ∧
      (NoPipe s i → NoDropped s i → NoDropped s' i)) : SenderOk s' i t := by
  cases t with
  | looking m look k =>
    cases look with
    | first => exact ⟨h.1, fun hk => hpipe (h.2 hk)⟩
    | second =>
      obtain ⟨hp, hn, hh, hd⟩ := h
      obtain ⟨hhigh, hdw, -⟩ := hheld rfl
      exact ⟨hp, hpipe hn, fun hk => hhigh hn (hh hk), fun hk => hdw (hd hk)⟩
  | locking m => exact ⟨h.1, hpipe h.2⟩
  | writing m =>
    obtain ⟨hp, hn, hh, hd, hdr⟩ := h
    obtain ⟨hhigh, hdw, hdropped⟩ := hheld rfl
    exact ⟨hp, hpipe hn, hhigh hn hh, hdw hd, hdropped hn hdr⟩
  | storing m n => exact ⟨h.1, h.2.1, (hheld rfl).2.1 h.2.2⟩
  | _ => trivial

/-- The field at which the service stands says what it seems to. -/
theorem SenderOk.read (h : Inv s) (hcore : Core s) {m : Message} {look : Look} {k : ℕ}
    (hok : SenderOk s i (.looking m look k)) (hread : s.reads k = true) :
    SenderOk s i (if k < 4 then .looking m look (k + 1) else look.clear m) := by
  have hpipe (hk : k = 3) : NoPipe s i := by
    subst hk
    have hzero : s.sending = 0 := of_decide_eq_true hread
    have hnil : s.piped = [] := by
      have hsending := h.sending
      exact List.eq_nil_of_length_eq_zero (by omega)
    intro m hm
    rw [hnil] at hm
    exact absurd hm List.not_mem_nil
  cases look with
  | first =>
    obtain ⟨hp, hn⟩ := hok
    split_ifs with hk
    · refine ⟨hp, fun hk' => ?_⟩
      rcases Nat.lt_or_ge 3 k with hlt | hle
      · exact hn hlt
      · exact hpipe (by omega)
    · exact ⟨hp, hn (by omega)⟩
  | second =>
    obtain ⟨hp, hn, hh, hd⟩ := hok
    have hhigh : HighOk s i := by
      rcases Nat.eq_zero_or_pos k with rfl | hpos
      · have hnil : s.high = [] := List.isEmpty_iff.mp hread
        intro b hb
        rw [hnil] at hb
        exact absurd hb List.not_mem_nil
      · exact hh hpos
    split_ifs with hk
    · refine ⟨hp, hn, fun _ => hhigh, fun hk' => ?_⟩
      rcases Nat.lt_or_ge 2 k with hlt | hle
      · exact hd hlt
      · obtain rfl : k = 2 := by omega
        exact Option.isNone_iff_eq_none.mp hread
    · refine ⟨hp, hn, hhigh, hd (by omega), fun m hm => ?_⟩
      obtain ⟨j, rfl⟩ : ∃ j, k = j + 4 := ⟨k - 4, by omega⟩
      have hconnected : s.type = .connected := of_decide_eq_true hread
      rw [hcore.dropped hconnected] at hm
      exact absurd hm List.not_mem_nil

/-! ## Steps of the services -/

theorem own_set (ht : s.senders[i]? = some t) (hset : s'.senders = s.senders.set i t') (j : ℕ) :
    s'.own j = if j = i then t'.message else s.own j := by
  rw [State.own, hset]
  split_ifs with hj
  · subst hj
    obtain ⟨hlt, -⟩ := List.getElem?_eq_some_iff.mp ht
    rw [List.getElem?_set_self hlt]
    rfl
  · rw [List.getElem?_set_ne (Ne.symm hj), State.own]

theorem own_eq (ht : s.senders[i]? = some t) : s.own i = t.message := by
  rw [State.own, ht]
  rfl

/-- Who is where after a step of the service `i`. -/
theorem of_set {P : ℕ → Sender → Prop} (ht : s.senders[i]? = some t) (hi : P i t')
    (hother : ∀ j u, j ≠ i → s.senders[j]? = some u → P j u) (j : ℕ) (u : Sender)
    (hu : (s.senders.set i t')[j]? = some u) : P j u := by
  rcases eq_or_ne j i with rfl | hj
  · obtain ⟨hlt, -⟩ := List.getElem?_eq_some_iff.mp ht
    rw [List.getElem?_set_self hlt] at hu
    exact Option.some.inj hu ▸ hi
  · rw [List.getElem?_set_ne hj.symm] at hu
    exact hother j u hj hu

/-- Nothing has changed for others in what the service `i` has not handed over. -/
theorem own_set_of_eq (ht : s.senders[i]? = some t) (hset : s'.senders = s.senders.set i t')
    (hmessage : t'.message = t.message) (j : ℕ) : s'.own j = s.own j := by
  rw [own_set ht hset]
  split_ifs with hj
  · rw [hj, own_eq ht, hmessage]
  · rfl

/-- The queue is as it was, wherever it lies. -/
theorem Core.queue (h : Core s) (hpending : s'.pending = s.pending) (hdone : s'.done = s.done)
    (hwire : s'.wire = s.wire) :
    (∀ b ∈ s'.pending.tail, b.offset = 0) ∧
      (∀ b ∈ s'.pending, b.offset ≤ b.buffer.data.length) ∧
      s'.wire = s'.done.flatMap Message.data ++ s'.pending.flatMap WriteBuffer.written := by
  rw [hpending, hdone, hwire]
  exact ⟨h.front, h.fits, h.wire⟩

theorem Inv.lock_set (h : Inv s) (ht : s.senders[i]? = some t) {l : Bool}
    (hlock : (if s.locked then 1 else 0) + t'.holds = (if l then 1 else 0) + t.holds) :
    total Sender.holds (s.senders.set i t') + s.thread.holds = if l then 1 else 0 := by
  have hset := total_set Sender.holds ht t'
  have hbefore := h.lock
  omega

theorem Inv.sending_set (h : Inv s) (ht : s.senders[i]? = some t) {n k : ℕ}
    (hn : n + s.piped.length + t.pipes = s.sending + k + t'.pipes) :
    n = k + s.thread.decs + total Sender.pipes (s.senders.set i t') := by
  have hset := total_set Sender.pipes ht t'
  have hbefore := h.sending
  omega

/-- A service goes on, and all it may change for others is the lock and the count. -/
theorem Inv.moved (h : Inv s) (ht : s.senders[i]? = some t) {l : Bool} {n : ℕ}
    (hmessage : t'.message = t.message) (hstored : t'.stored = t.stored)
    (hlock : (if s.locked then 1 else 0) + t'.holds = (if l then 1 else 0) + t.holds)
    (hn : n + t.pipes = s.sending + t'.pipes)
    (hok : Core s → SenderOk s i t → SenderOk s i t') :
    Inv { s with senders := s.senders.set i t', locked := l, sending := n } where
  lock := h.lock_set ht hlock
  sending := h.sending_set (n := n) (k := s.piped.length) ht (by omega)
  owner := of_set ht (hmessage ▸ h.owner i t ht) fun j u _ hu => h.owner j u hu
  fault := h.fault
  type := h.type
  core hopen := by
    obtain ⟨hcore, hturn⟩ := h.core hopen
    have hown (j : ℕ) : ({ s with
        senders := s.senders.set i t', locked := l, sending := n } : State).own j = s.own j :=
      own_set_of_eq ht rfl hmessage j
    have hpending : ({ s with
        senders := s.senders.set i t', locked := l, sending := n } : State).pending =
          s.pending := by
      rw [State.pending, State.pending, flatMap_set ht hstored]
    obtain ⟨hfront, hfits, hwire⟩ := hcore.queue hpending rfl rfl
    refine ⟨⟨hfront, hfits, hwire, hcore.size, hcore.lowPriority, hcore.dropped,
      fun j p => ?_, ?_⟩, hturn⟩
    · rw [hown, State.taken, hpending]
      exact hcore.order j p
    · exact of_set ht (hok hcore (hcore.sender i t ht)) fun j u _ hu => hcore.sender j u hu

/-- A message of a service of which nothing else waits goes out of turn, and those of every
service and priority still go out in their order. -/
theorem filter_jump {done rest own own' : List Message} {m : Message} {j : ℕ} {p : Priority}
    (hrest : ∀ x ∈ rest, mine m.sender m.priority x = false)
    (hown : own = if j = m.sender then [m] else own') (hown' : j = m.sender → own' = []) :
    (done ++ m :: rest ++ own').filter (mine j p) = (done ++ rest ++ own).filter (mine j p) := by
  rw [← List.singleton_append (x := m) (l := rest)]
  simp only [List.filter_append]
  by_cases hm : mine j p m = true
  · obtain ⟨rfl, rfl⟩ := of_decide_eq_true hm
    have hnone : rest.filter (mine m.sender m.priority) = [] :=
      List.filter_eq_nil_iff.mpr fun x hx => by simp [hrest x hx]
    rw [hnone, hown, if_pos rfl, hown' rfl]
    simp
  · have hnot : [m].filter (mine j p) = [] := by simp [hm]
    rw [hnot, hown]
    split_ifs with hj
    · rw [hnot, hown' hj]
      simp
    · simp

/-- The lock is with a service, and so the socket thread is not at the lists. -/
theorem Turn.low (hturn : Turn s) (hfree : s.thread.holds = 0) : ∀ b ∈ s.low, b.offset = 0 := by
  rw [Turn] at hturn
  cases hthread : s.thread with
  | flushing list caller =>
    rw [hthread] at hfree
    exact absurd hfree Nat.one_ne_zero
  | _ =>
    rw [hthread] at hturn
    exact hturn

/-- What is left over and not stored is that of the service with the lock. -/
theorem Inv.stored_set (h : Inv s) (ht : s.senders[i]? = some t) (hholds : t.holds = 1) :
    s.senders.flatMap Sender.stored = t.stored ∧
      ∀ t', (s.senders.set i t').flatMap Sender.stored = t'.stored := by
  refine flatMap_set_alone (f := Sender.holds) (fun _ => Sender.stored_of_holds) ht ?_
  rw [(h.holder ht hholds).2.2, hholds]

/-- Nothing of a service that is about to write directly waits anywhere, and nothing is written
in part. -/
theorem Core.alone (h : Core s) (hi : Inv s) (hturn : Turn s) {m : Message}
    (ht : s.senders[i]? = some (.writing m)) :
    s.pending = s.high ++ s.low ∧ (∀ b ∈ s.pending, b.offset = 0) ∧
      ∀ x ∈ s.pending.map WriteBuffer.buffer ++ s.dropped ++ s.piped, mine i .high x = false := by
  obtain ⟨-, hpipe, hhigh, hdw, hdropped⟩ := h.sender i _ ht
  have hlow := hturn.low (hi.holder ht rfl).2.1
  have hpending : s.pending = s.high ++ s.low := by
    rw [State.pending, (hi.stored_set ht rfl).1, hdw]
    rfl
  refine ⟨hpending, fun b hb => ?_, fun x hx => ?_⟩
  · rw [hpending] at hb
    rcases List.mem_append.mp hb with hb | hb
    · exact (hhigh b hb).1
    · exact hlow b hb
  · rcases List.mem_append.mp hx with hx | hx
    · rcases List.mem_append.mp hx with hx | hx
      · rw [hpending] at hx
        obtain ⟨b, hb, rfl⟩ := List.mem_map.mp hx
        rcases List.mem_append.mp hb with hb | hb
        · exact (hhigh b hb).2
        · rw [mine, h.lowPriority b hb]
          simp
      · exact hdropped x hx
    · exact hpipe x hx

theorem taken_eq (s : State) :
    s.taken = s.done ++ (s.pending.map WriteBuffer.buffer ++ s.dropped ++ s.piped) := by
  simp [State.taken]

theorem written_of_offset {b : WriteBuffer} (h : b.offset = 0) : b.written = [] := by
  rw [WriteBuffer.written, h, List.take_zero]

theorem flatMap_written {bs : List WriteBuffer} (h : ∀ b ∈ bs, b.offset = 0) :
    bs.flatMap WriteBuffer.written = [] :=
  List.flatMap_eq_nil_iff.mpr fun b hb => written_of_offset (h b hb)

/-- A message goes out directly, whole or in part. -/
theorem inv_wrote (h : Inv s) {m : Message} (ht : s.senders[i]? = some (.writing m))
    {w : List UInt8} {d : List Message} (hholds : t'.holds = 1) (hpipes : t'.pipes = 0)
    (hmessage : t'.message = [])
    (hwire : s.wire = s.done.flatMap Message.data →
      w = d.flatMap Message.data ++ t'.stored.flatMap WriteBuffer.written)
    (hdone : d ++ t'.stored.map WriteBuffer.buffer = s.done ++ [m])
    (hfits : ∀ b ∈ t'.stored, b.offset ≤ b.buffer.data.length)
    (hok : s.dw = none → SenderOk s i t') :
    Inv { s with wire := w, done := d, senders := s.senders.set i t' } := by
  have hsender : m.sender = i := h.owner i _ ht m (List.mem_singleton_self m)
  refine ⟨h.lock_set ht (by rw [hholds]; rfl), h.sending_set ht (by rw [hpipes]; rfl), ?_,
    h.fault, h.type, fun hopen => ?_⟩
  · refine of_set ht (fun x hx => ?_) fun j u _ hu => h.owner j u hu
    rw [hmessage] at hx
    exact absurd hx List.not_mem_nil
  obtain ⟨hcore, hturn⟩ := h.core hopen
  obtain ⟨hpending, hzero, hnone⟩ := hcore.alone h hturn ht
  obtain ⟨hhigh, -, -, hdw, -⟩ := hcore.sender i _ ht
  have hpending' : ({ s with
      wire := w, done := d, senders := s.senders.set i t' } : State).pending =
        t'.stored ++ s.pending := by
    rw [State.pending, (h.stored_set ht rfl).2, hpending, hdw]
    simp
  refine ⟨⟨?_, ?_, ?_, hcore.size, hcore.lowPriority, hcore.dropped, fun j p => ?_, ?_⟩, hturn⟩
  · rw [hpending', List.tail_append, t'.tail_stored, List.nil_append]
    split_ifs
    · exact hcore.front
    · exact hzero
  · rw [hpending']
    exact fun b hb => (List.mem_append.mp hb).elim (hfits b) (hcore.fits b)
  · have hbefore := hcore.wire
    rw [flatMap_written hzero, List.append_nil] at hbefore
    rw [hpending', List.flatMap_append, flatMap_written hzero, List.append_nil]
    exact hwire hbefore
  · have htaken : ({ s with
        wire := w, done := d, senders := s.senders.set i t' } : State).taken =
          s.done ++ m :: (s.pending.map WriteBuffer.buffer ++ s.dropped ++ s.piped) := by
      rw [taken_eq, hpending', List.map_append, List.append_assoc, List.append_assoc,
        ← List.append_assoc d, hdone]
      simp [State.piped]
    have hset : ({ s with
        wire := w, done := d, senders := s.senders.set i t' } : State).senders =
          s.senders.set i t' := rfl
    have hown := own_set ht hset j
    rw [htaken, ← hcore.order j p, taken_eq s]
    -- nothing of the service waits, and so the message may go first
    refine filter_jump (hsender ▸ hhigh ▸ hnone) ?_ fun hj => ?_
    · rw [hown, hsender]
      split_ifs with hj
      · rw [hj, own_eq ht]
        rfl
      · rfl
    · rw [hown, if_pos (hj.trans hsender), hmessage]
  · refine of_set ht (hok hdw) fun j u hj hu => (hcore.sender j u hu).imp id fun hu1 => ?_
    exact absurd hu1 (by rw [h.not_holds ht rfl hu hj.symm]; decide)

/-- The direct write. -/
theorem inv_directWrite (h : Inv s) {n : ℕ} (ht : s.senders[i]? = some t)
    (hstep : s.directWrite i n t = some s') : Inv s' := by
  cases t with
  | writing m =>
    rw [State.directWrite] at hstep
    split_ifs at hstep with hlt heq
    · -- a part is written
      obtain rfl := Option.some.inj hstep
      refine inv_wrote h ht rfl rfl rfl (fun hwire => ?_) rfl (fun b hb => ?_)
        fun hdw => ⟨h.owner i _ ht m (List.mem_singleton_self m), hlt, hdw⟩
      · rw [hwire]
        exact congrArg _ (List.append_nil _).symm
      · rw [List.mem_singleton.mp hb]
        exact Nat.le_of_lt hlt
    · -- all is written
      obtain rfl := Option.some.inj hstep
      refine inv_wrote h ht rfl rfl rfl (fun hwire => ?_) (List.append_nil _)
        (fun _ hb => absurd hb List.not_mem_nil) fun _ => trivial
      rw [hwire, List.flatMap_append, List.flatMap_singleton]
      exact (List.append_nil _).symm
  | _ => cases hstep

/-- What the direct write has left over is stored. -/
theorem inv_store (h : Inv s) {m : Message} {n : ℕ} (ht : s.senders[i]? = some (.storing m n)) :
    Inv { s with dw := some ⟨m, n⟩, senders := s.senders.set i .unlocking } := by
  refine ⟨h.lock_set ht rfl, h.sending_set ht rfl, ?_, h.fault, h.type, fun hopen => ?_⟩
  · exact of_set ht (fun _ hm => absurd hm List.not_mem_nil) fun j u _ hu => h.owner j u hu
  obtain ⟨hcore, hturn⟩ := h.core hopen
  obtain ⟨-, hlt, hdw⟩ := hcore.sender i _ ht
  have hpending : ({ s with
      dw := some ⟨m, n⟩, senders := s.senders.set i .unlocking } : State).pending = s.pending := by
    rw [State.pending, State.pending, (h.stored_set ht rfl).1, (h.stored_set ht rfl).2, hdw]
    rfl
  have hown (j : ℕ) : ({ s with
      dw := some ⟨m, n⟩, senders := s.senders.set i .unlocking } : State).own j = s.own j :=
    own_set_of_eq ht rfl (rfl : Sender.message .unlocking = Sender.message (.storing m n)) j
  have hlow := hturn.low (h.holder ht rfl).2.1
  obtain ⟨hfront, hfits, hwire⟩ := hcore.queue hpending rfl rfl
  refine ⟨⟨hfront, hfits, hwire, hcore.size, hcore.lowPriority, hcore.dropped,
    fun j p => ?_, ?_⟩, ?_⟩
  · rw [hown, State.taken, hpending]
    exact hcore.order j p
  · refine of_set ht trivial fun j u hj hu => (hcore.sender j u hu).imp id fun hu1 => ?_
    exact absurd hu1 (by rw [h.not_holds ht rfl hu hj.symm]; decide)
  · have hfree := (h.holder ht rfl).2.1
    rw [Turn]
    cases hthread : s.thread with
    | flushing list caller =>
      rw [hthread] at hfree
      exact absurd hfree Nat.one_ne_zero
    | _ => exact hlow

/-- A message goes into the pipe. -/
theorem inv_pipe (h : Inv s) {m : Message} (ht : s.senders[i]? = some (.piping m)) :
    Inv { s with pipe := s.pipe ++ [.send m], senders := s.senders.set i .idle } := by
  have hsender : m.sender = i := h.owner i _ ht m (List.mem_singleton_self m)
  have hpiped : ({ s with
      pipe := s.pipe ++ [.send m], senders := s.senders.set i .idle } : State).piped =
        s.piped ++ [m] := by
    rw [State.piped, List.filterMap_append]
    rfl
  refine ⟨h.lock_set ht rfl, ?_, ?_, h.fault, h.type, fun hopen => ?_⟩
  · rw [hpiped, List.length_append]
    exact h.sending_set ht rfl
  · exact of_set ht (fun _ hm => absurd hm List.not_mem_nil) fun j u _ hu => h.owner j u hu
  obtain ⟨hcore, hturn⟩ := h.core hopen
  have hpending : ({ s with
      pipe := s.pipe ++ [.send m], senders := s.senders.set i .idle } : State).pending =
        s.pending := by
    rw [State.pending, State.pending,
      flatMap_set ht (rfl : Sender.stored .idle = Sender.stored (.piping m))]
  obtain ⟨hfront, hfits, hwire⟩ := hcore.queue hpending rfl rfl
  refine ⟨⟨hfront, hfits, hwire, hcore.size, hcore.lowPriority, hcore.dropped,
    fun j p => ?_, ?_⟩, hturn⟩
  · rw [← hcore.order j p, own_set ht rfl, State.taken, State.taken, hpending, hpiped,
      ← List.append_assoc]
    split_ifs with hj
    · rw [hj, own_eq ht]
      simp [Sender.message]
    · have hnot : mine j p m = false := by
        rw [mine, hsender]
        simp [Ne.symm hj]
      simp [List.filter_append, hnot]
  · refine of_set ht trivial fun j u hj hu => (hcore.sender j u hu).imp (fun hpipe x hx => ?_)
      fun _ => ⟨fun _ => id, id, fun _ => id⟩
    rw [hpiped] at hx
    rcases List.mem_append.mp hx with hx | hx
    · exact hpipe x hx
    · rw [List.mem_singleton.mp hx, mine, hsender]
      simp [Ne.symm hj]

/-- A service calls. -/
theorem inv_send (h : Inv s) (ht : s.senders[i]? = some .idle) (p : Priority)
    (data : List UInt8) : Inv (s.send i ⟨i, p, data⟩) := by
  rw [State.send]
  split_ifs with htype
  · exact h
  have hmessage : ∀ t' : Sender, t'.message = [⟨i, p, data⟩] → t'.holds = 0 → t'.pipes = 0 →
      t'.stored = [] → SenderOk s i t' →
      Inv { s with called := s.called ++ [⟨i, p, data⟩], senders := s.senders.set i t' } := by
    intro t' hmessage hholds hpipes hstored hok
    refine ⟨h.lock_set ht (by rw [hholds]; rfl), h.sending_set ht (by rw [hpipes]; rfl), ?_,
      h.fault, h.type, fun hopen => ?_⟩
    · refine of_set ht (fun m hm => ?_) fun j u _ hu => h.owner j u hu
      rw [hmessage] at hm
      rw [List.mem_singleton.mp hm]
    obtain ⟨hcore, hturn⟩ := h.core hopen
    have hpending : ({ s with
        called := s.called ++ [⟨i, p, data⟩], senders := s.senders.set i t' } : State).pending =
          s.pending := by
      rw [State.pending, State.pending, flatMap_set ht hstored]
    obtain ⟨hfront, hfits, hwire⟩ := hcore.queue hpending rfl rfl
    refine ⟨⟨hfront, hfits, hwire, hcore.size, hcore.lowPriority, hcore.dropped,
      fun j q => ?_, ?_⟩, hturn⟩
    · have horder := hcore.order j q
      rw [own_set ht rfl, State.taken, hpending]
      dsimp only
      rw [List.filter_append (s.called), ← horder]
      split_ifs with hj
      · rw [hj, own_eq ht, hmessage]
        simp [Sender.message, State.taken, State.piped]
      · have hnot : mine j q ⟨i, p, data⟩ = false := by simp [mine, Ne.symm hj]
        simp [State.taken, State.piped, hnot]
    · exact of_set ht hok fun j u _ hu => hcore.sender j u hu
  cases p with
  | high => exact hmessage _ rfl rfl rfl rfl ⟨rfl, fun hk => absurd hk (by decide)⟩
  | low => exact hmessage _ rfl rfl rfl rfl trivial

/-- A service goes on. -/
theorem inv_senderStep (h : Inv s) (ht : s.senders[i]? = some t)
    (hstep : s.senderStep i t = some s') : Inv s' := by
  cases t with
  | idle => cases hstep
  | looking m look k =>
    obtain rfl := Option.some.inj hstep
    by_cases hread : s.reads k = true
    · rw [if_pos hread]
      refine h.moved (l := s.locked) (n := s.sending) ht ?_ ?_ ?_ ?_ fun hcore hok =>
        hok.read h hcore hread
      all_goals cases look <;> split_ifs <;> rfl
    · rw [if_neg hread]
      refine h.moved (l := s.locked) (n := s.sending) ht ?_ ?_ ?_ ?_ fun _ _ => ?_
      all_goals cases look <;> first | rfl | trivial
  | locking m =>
    obtain rfl := Option.some.inj hstep
    split_ifs with hl
    · exact h.moved (l := s.locked) (n := s.sending) ht rfl rfl rfl rfl fun _ _ => trivial
    · refine h.moved (l := true) (n := s.sending) ht rfl rfl ?_ rfl fun _ hok => ?_
      · rw [if_neg hl]
        rfl
      · exact ⟨hok.1, hok.2, fun hk => absurd hk (lt_irrefl 0), fun hk => absurd hk (by decide)⟩
  | leaving m =>
    obtain rfl := Option.some.inj hstep
    refine h.moved (l := false) (n := s.sending) ht rfl rfl ?_ rfl fun _ _ => trivial
    rw [(h.holder ht rfl).1]
    rfl
  | writing m => cases hstep
  | storing m n =>
    obtain rfl := Option.some.inj hstep
    exact inv_store h ht
  | unlocking =>
    obtain rfl := Option.some.inj hstep
    refine h.moved (l := false) (n := s.sending) ht rfl rfl ?_ rfl fun _ _ => trivial
    rw [(h.holder ht rfl).1]
    rfl
  | increasing m =>
    obtain ⟨-, heq⟩ := Option.ite_none_left_eq_some.mp hstep
    obtain rfl := Option.some.inj heq
    exact h.moved (l := s.locked) ht rfl rfl rfl rfl fun _ _ => trivial
  | piping m =>
    obtain rfl := Option.some.inj hstep
    exact inv_pipe h ht

/-! ## Steps of the socket thread -/

theorem assert_eq {b : Prop} [Decidable b] (h : b) : s.assert b = s := if_pos h

/-- The socket thread goes on, and all it may change for others is the lock. -/
theorem Inv.turned (h : Inv s) {th : Thread} {l : Bool} {w : ℤ} {r : List Report}
    (hlock : (if s.locked then 1 else 0) + th.holds = (if l then 1 else 0) + s.thread.holds)
    (hdecs : th.decs = s.thread.decs)
    (htype : s.type = .invalid → th.closing = false → th.mayBeClosed)
    (hturn : s.type ≠ .invalid → th.closing = false → s.thread.closing = false ∧
      (Core s → Turn s → Turn { s with thread := th })) :
    Inv { s with thread := th, locked := l, warnSize := w, reports := r } where
  lock := by
    have hbefore := h.lock
    dsimp only
    omega
  sending := by
    have hbefore := h.sending
    rw [← hdecs] at hbefore
    exact hbefore
  owner := h.owner
  fault := h.fault
  type := htype
  core hopen := by
    obtain ⟨hclosing, hturn⟩ := hturn hopen.1 hopen.2
    obtain ⟨hcore, hturn'⟩ := h.core ⟨hopen.1, hclosing⟩
    exact ⟨⟨hcore.front, hcore.fits, hcore.wire, hcore.size, hcore.lowPriority, hcore.dropped,
      hcore.order, hcore.sender⟩, hturn hcore hturn'⟩

/-- `force_close` begins. -/
theorem inv_forceClose (h : Inv s) {held : Bool} (hholds : s.thread.holds = held.toNat)
    (hdecs : s.thread.decs = 0) : Inv { s with thread := .freeing .high held } := by
  refine h.turned (l := s.locked) (w := s.warnSize) (r := s.reports) ?_ hdecs.symm
    (fun _ hc => ?_) fun _ hc => ?_
  · rw [hholds]
    rfl
  · cases hc
  · cases hc

/-- Somebody wants to close the socket. -/
theorem inv_close (h : Inv s) (shutdown : Bool) :
    Inv { s with pipe := s.pipe ++ [.close shutdown] } := by
  have hpiped : ({ s with pipe := s.pipe ++ [.close shutdown] } : State).piped = s.piped := by
    rw [State.piped, List.filterMap_append]
    exact List.append_nil _
  refine ⟨h.lock, ?_, h.owner, h.fault, h.type, fun hopen => ?_⟩
  · rw [hpiped]
    exact h.sending
  obtain ⟨hcore, hturn⟩ := h.core hopen
  refine ⟨⟨hcore.front, hcore.fits, hcore.wire, hcore.size, hcore.lowPriority, hcore.dropped,
    fun j p => ?_, fun j u hu => (hcore.sender j u hu).imp (fun hpipe x hx => ?_)
      fun _ => ⟨fun _ => id, id, fun _ => id⟩⟩, hturn⟩
  · rw [State.taken, hpiped]
    exact hcore.order j p
  · rw [hpiped] at hx
    exact hpipe x hx

theorem Turn.low_of_polling (hturn : Turn s) (hthread : s.thread = .polling) :
    ∀ b ∈ s.low, b.offset = 0 :=
  hturn.low (by rw [hthread]; rfl)

/-- One more buffer, somewhere behind the first. -/
theorem forall_tail_insert {P : WriteBuffer → Prop} {as bs : List WriteBuffer} {b : WriteBuffer}
    (h : ∀ b ∈ (as ++ bs).tail, P b) (hb : P b) (hbs : as = [] → ∀ b ∈ bs, P b) :
    ∀ c ∈ (as ++ b :: bs).tail, P c := by
  cases as with
  | nil => exact hbs rfl
  | cons a as =>
    intro c hc
    rcases List.mem_append.mp hc with hc | hc
    · exact h c (List.mem_append_left _ hc)
    · rcases List.mem_cons.mp hc with rfl | hc
      · exact hb
      · exact h c (List.mem_append_right _ hc)

/-- A message overtakes others of another service or priority. -/
theorem filter_overtake (as bs cs : List Message) {m : Message} {p : Priority}
    (hbs : mine j p m = true → ∀ x ∈ bs, mine j p x = false) :
    (as ++ m :: bs ++ cs).filter (mine j p) = (as ++ bs ++ m :: cs).filter (mine j p) := by
  by_cases hm : mine j p m = true
  · have hnone : bs.filter (mine j p) = [] :=
      List.filter_eq_nil_iff.mpr fun x hx => by simp [hbs hm x hx]
    simp [List.filter_append, hm, hnone]
  · simp [List.filter_append, hm]

theorem Core.piped_cons {m : Message} {pipe : List Command} (hpipe : s.pipe = .send m :: pipe) :
    s.piped = m :: pipe.filterMap Command.message := by
  rw [State.piped, hpipe]
  rfl

/-- `send_socket` puts a message into a list: behind `as` and before `bs`. -/
theorem inv_append (h : Inv s) (hthread : s.thread = .polling) {m : Message}
    {pipe : List Command} (hpipe : s.pipe = .send m :: pipe) (hconnected : s.type = .connected)
    {high low as bs : List WriteBuffer} (hbefore : s.pending = as ++ bs)
    (hafter : s.senders.flatMap Sender.stored ++ s.dw.toList ++ high ++ low = as ++ ⟨m, 0⟩ :: bs)
    (hhigh : ∀ b ∈ high, b = ⟨m, 0⟩ ∨ b ∈ s.high)
    (hlow : ∀ b ∈ low, b = ⟨m, 0⟩ ∧ m.priority = .low ∨ b ∈ s.low)
    (hsum : ((high ++ low).map WriteBuffer.sz).sum =
      ((s.high ++ s.low).map WriteBuffer.sz).sum + m.data.length)
    (hbs : ∀ b ∈ bs, b ∈ s.low) (hpriority : m.priority = .high ∨ bs = []) (w : ℤ)
    (r : List Report) :
    Inv { s with
      pipe := pipe, wbSize := s.wbSize + m.data.length, high := high, low := low
      warnSize := w, reports := r, thread := .decreasing } := by
  have hpiped := Core.piped_cons hpipe
  have hlock := h.lock
  have hsending := h.sending
  rw [hthread] at hlock hsending
  rw [hpiped, List.length_cons] at hsending
  refine ⟨hlock, ?_, h.owner, h.fault, fun _ _ => .inr (.inl rfl), fun _ => ?_⟩
  · rw [hsending]
    rfl
  have hopen : s.isOpen := ⟨by rw [hconnected]; exact SocketType.noConfusion, by rw [hthread]; rfl⟩
  obtain ⟨hcore, hturn⟩ := h.core hopen
  have hwhole := hturn.low_of_polling hthread
  have hpending : ({ s with
      pipe := pipe, wbSize := s.wbSize + m.data.length, high := high, low := low
      warnSize := w, reports := r, thread := .decreasing } : State).pending =
        as ++ ⟨m, 0⟩ :: bs := hafter
  -- front, fits, wire, size, priority of the low list, the orders, the senders, and the turn
  refine ⟨⟨?_, ?_, ?_, ?_, ?_, hcore.dropped, fun j p => ?_, fun j u hu => ?_⟩, ?_⟩
  · rw [hpending]
    exact forall_tail_insert (hbefore ▸ hcore.front) rfl fun _ b hb => hwhole b (hbs b hb)
  · rw [hpending]
    intro b hb
    have hfits := hcore.fits
    rw [hbefore] at hfits
    rcases List.mem_append.mp hb with hb | hb
    · exact hfits b (List.mem_append_left _ hb)
    · rcases List.mem_cons.mp hb with rfl | hb
      · exact Nat.zero_le _
      · exact hfits b (List.mem_append_right _ hb)
  · have hwire := hcore.wire
    rw [hbefore] at hwire
    rw [hpending]
    dsimp only
    rw [hwire, List.flatMap_append, List.flatMap_append, List.flatMap_cons,
      written_of_offset (b := ⟨m, 0⟩) rfl, List.nil_append]
  · dsimp only
    rw [hsum, hcore.size]
    exact (Int.natCast_add ..).symm
  · intro b hb
    rcases hlow b hb with ⟨rfl, hp⟩ | hb
    · exact hp
    · exact hcore.lowPriority b hb
  -- the message may go before low ones only, which are of another priority: of one sender and one
  -- priority the order stays
  · have hovertake := filter_overtake (j := j) (p := p) (m := m)
      (s.done ++ as.map WriteBuffer.buffer) (bs.map WriteBuffer.buffer)
      (pipe.filterMap Command.message ++ s.own j) fun hm x hx => by
        obtain ⟨b, hb, rfl⟩ := List.mem_map.mp hx
        obtain ⟨rfl, rfl⟩ := of_decide_eq_true hm
        rcases hpriority with hp | hp
        · rw [hp, mine, hcore.lowPriority b (hbs b hb)]
          simp
        · rw [hp] at hb
          exact absurd hb List.not_mem_nil
    have hdropped := hcore.dropped hconnected
    have horder := hcore.order j p
    rw [State.taken, hbefore, hpiped, hdropped] at horder
    rw [State.taken, hpending]
    dsimp only
    rw [hdropped, ← horder]
    simpa [State.piped, State.own] using hovertake
  · refine (hcore.sender j u hu).imp (fun hno x hx => ?_) fun _ => ⟨fun hno hok b hb => ?_, id,
      fun _ => id⟩
    · rw [NoPipe, hpiped] at hno
      exact hno x (List.mem_cons_of_mem m hx)
    · rcases hhigh b hb with rfl | hb
      · rw [NoPipe, hpiped] at hno
        exact ⟨rfl, hno m (List.mem_cons_self ..)⟩
      · exact hok b hb
  · intro b hb
    rcases hlow b hb with ⟨rfl, -⟩ | hb
    · rfl
    · exact hwhole b hb

theorem warn_eq (s : State) : ∃ w r, s.warn = { s with warnSize := w, reports := r } := by
  by_cases hwarn : warningSize ≤ s.wbSize ∧ s.warnSize ≤ s.wbSize
  · exact ⟨_, _, if_pos hwarn⟩
  · exact ⟨s.warnSize, s.reports, if_neg hwarn⟩

/-- `send_socket`. -/
theorem inv_sendSocket (h : Inv s) (hthread : s.thread = .polling) {m : Message}
    {pipe : List Command} (hpipe : s.pipe = .send m :: pipe) :
    Inv { ({ s with pipe := pipe } : State).sendSocket m with thread := .decreasing } := by
  rw [State.sendSocket]
  dsimp only
  have hhigh : s.senders.flatMap Sender.stored ++ s.dw.toList ++ (s.high ++ [⟨m, 0⟩]) ++ s.low =
      s.senders.flatMap Sender.stored ++ s.dw.toList ++ s.high ++ ⟨m, 0⟩ :: s.low := by simp
  have hmem (bs : List WriteBuffer) : ∀ b ∈ bs ++ [⟨m, 0⟩], b = ⟨m, 0⟩ ∨ b ∈ bs := fun b hb =>
    (List.mem_append.mp hb).symm.imp List.mem_singleton.mp id
  have hsum : ((s.high ++ [(⟨m, 0⟩ : WriteBuffer)] ++ s.low).map WriteBuffer.sz).sum =
      ((s.high ++ s.low).map WriteBuffer.sz).sum + m.data.length := by
    simp only [List.map_append, List.sum_append, List.map_singleton, List.sum_singleton]
    exact Nat.add_right_comm ..
  split_ifs with hconnected hempty
  · -- nothing waits
    have hlow : s.low = [] := List.isEmpty_iff.mp hempty.2
    obtain ⟨w, r, hwarn⟩ := warn_eq (({ s with pipe := pipe } : State).append .high m)
    rw [hwarn]
    exact inv_append h hthread hpipe hconnected rfl hhigh (hmem s.high) (fun b hb => .inr hb) hsum
      (fun b hb => hb) (.inr hlow) w r
  · obtain ⟨w, r, hwarn⟩ := warn_eq (({ s with pipe := pipe } : State).append m.priority m)
    rw [hwarn]
    cases hp : m.priority with
    | high =>
      exact inv_append h hthread hpipe hconnected rfl hhigh (hmem s.high) (fun b hb => .inr hb)
        hsum (fun b hb => hb) (.inl hp) w r
    | low =>
      have hlow : s.senders.flatMap Sender.stored ++ s.dw.toList ++ s.high ++
          (s.low ++ [⟨m, 0⟩]) = s.pending ++ ⟨m, 0⟩ :: [] :=
        (List.append_assoc ..).symm
      have hsum : ((s.high ++ (s.low ++ [(⟨m, 0⟩ : WriteBuffer)])).map WriteBuffer.sz).sum =
          ((s.high ++ s.low).map WriteBuffer.sz).sum + m.data.length := by
        rw [← List.append_assoc, List.map_append, List.sum_append]
        rfl
      exact inv_append h hthread hpipe hconnected (List.append_nil _).symm hlow
        (fun b hb => .inr hb) (fun b hb => (hmem s.low b hb).imp (fun he => ⟨he, hp⟩) id) hsum
        (fun b hb => absurd hb List.not_mem_nil) (.inr rfl) w r
  · -- the socket is about to be closed
    have hpiped := Core.piped_cons hpipe
    have hlock := h.lock
    have hsending := h.sending
    rw [hthread] at hlock hsending
    rw [hpiped, List.length_cons] at hsending
    refine ⟨hlock, ?_, h.owner, h.fault, fun _ _ => .inr (.inl rfl), fun hopen => ?_⟩
    · exact hsending
    obtain ⟨hcore, hturn⟩ := h.core ⟨hopen.1, by rw [hthread]; rfl⟩
    refine ⟨⟨hcore.front, hcore.fits, hcore.wire, hcore.size, hcore.lowPriority,
      fun hc => absurd hc hconnected, fun j p => ?_, fun j u hu => ?_⟩,
      hturn.low_of_polling hthread⟩
    · rw [← hcore.order j p, State.taken, State.taken, hpiped]
      simp [State.piped, State.pending, State.own]
    · refine (hcore.sender j u hu).imp (fun hno x hx => ?_) fun _ => ⟨fun _ => id, id,
        fun hno hdropped x hx => ?_⟩
      · rw [NoPipe, hpiped] at hno
        exact hno x (List.mem_cons_of_mem m hx)
      · rcases List.mem_append.mp hx with hx | hx
        · exact hdropped x hx
        · rw [NoPipe, hpiped] at hno
          rw [List.mem_singleton.mp hx]
          exact hno m (List.mem_cons_self ..)

/-- A command is read from the pipe. -/
theorem inv_command (h : Inv s) (hthread : s.thread = .polling) {c : Command}
    {pipe : List Command} (hpipe : s.pipe = c :: pipe) :
    Inv (({ s with pipe := pipe } : State).ctrlCmd c) := by
  cases c with
  | send m => exact inv_sendSocket h hthread hpipe
  | close shutdown =>
    have hpiped : s.piped = ({ s with pipe := pipe } : State).piped := by
      rw [State.piped, hpipe]
      rfl
    have hpop : Inv { s with pipe := pipe } := by
      refine ⟨h.lock, hpiped ▸ h.sending, h.owner, h.fault, h.type, fun hopen => ?_⟩
      obtain ⟨hcore, hturn⟩ := h.core hopen
      refine ⟨⟨hcore.front, hcore.fits, hcore.wire, hcore.size, hcore.lowPriority,
        hcore.dropped, fun j p => ?_, fun j u hu => (hcore.sender j u hu).imp (fun hno => ?_)
          fun _ => ⟨fun _ => id, id, fun _ => id⟩⟩, hturn⟩
      · rw [State.taken, ← hpiped]
        exact hcore.order j p
      · rw [NoPipe, ← hpiped]
        exact hno
    rw [State.ctrlCmd]
    split_ifs with htype
    · exact hpop.turned (l := s.locked) (w := s.warnSize) rfl rfl h.type
        fun _ hclosing => ⟨hclosing, fun _ => id⟩
    · refine hpop.turned (l := s.locked) (w := s.warnSize)
        (r := s.reports) ?_ ?_ (fun ht => absurd ht htype) fun _ _ => ⟨?_, fun _ hturn => ?_⟩
      · rw [hthread]
        rfl
      · rw [hthread]
        rfl
      · rw [hthread]
        rfl
      · exact hturn.low_of_polling hthread

/-- `send_buffer` takes the lock. -/
theorem inv_sendBuffer (h : Inv s) (hlocked : s.locked = false) (hopen : s.isOpen)
    (hholds : s.thread.holds = 0) (hdecs : s.thread.decs = 0) (caller : Caller) :
    Inv (s.sendBuffer caller) := by
  obtain ⟨hcore, hturn⟩ := h.core hopen
  have hlow := hturn.low hholds
  have hlock := h.lock
  have hsending := h.sending
  rw [hlocked, hholds] at hlock
  rw [hdecs] at hsending
  have hfree (j : ℕ) (u : Sender) (hu : s.senders[j]? = some u) : u.holds = 0 :=
    h.free_of (.inl hlocked) hu
  have hassert : listUncomplete s.low = false := by
    cases hl : s.low with
    | nil => rfl
    | cons b bs => exact decide_eq_false (not_not.mpr (hlow b (hl ▸ List.mem_cons_self ..)))
  rw [State.sendBuffer]
  cases hdw : s.dw with
  | none =>
    dsimp only
    rw [assert_eq hassert]
    refine ⟨by rw [Nat.add_zero] at hlock; dsimp only; rw [hlock]; rfl, hsending, h.owner, h.fault,
      fun ht => absurd ht hopen.1, fun _ => ⟨⟨hcore.front, hcore.fits, hcore.wire, hcore.size,
        hcore.lowPriority, hcore.dropped, hcore.order, hcore.sender⟩, hdw, hlow⟩⟩
  | some b =>
    dsimp only
    rw [assert_eq hassert]
    have hpending : ({ s with
        wbSize := s.wbSize + b.sz, high := b :: s.high, dw := none, locked := true
        thread := .flushing .high caller } : State).pending = s.pending := by
      simp [State.pending, hdw]
    obtain ⟨hfront, hfits, hwire⟩ := hcore.queue hpending rfl rfl
    refine ⟨by rw [Nat.add_zero] at hlock; dsimp only; rw [hlock]; rfl, hsending, h.owner, h.fault,
      fun ht => absurd ht hopen.1, fun _ => ⟨⟨hfront, hfits, hwire, ?_, hcore.lowPriority,
        hcore.dropped, fun j p => ?_, fun j u hu => (hcore.sender j u hu).imp id fun hu1 => ?_⟩,
        rfl, hlow⟩⟩
    · dsimp only
      rw [hcore.size, List.cons_append, List.map_cons, List.sum_cons, Int.add_comm]
      exact (Int.natCast_add ..).symm
    · rw [State.taken, hpending]
      exact hcore.order j p
    · exact absurd hu1 (by rw [hfree j u hu]; decide)

/-- While the socket thread is at the lists, the socket is open. -/
theorem Inv.flushing (h : Inv s) {list : Priority} {caller : Caller}
    (hthread : s.thread = .flushing list caller) :
    s.isOpen ∧ s.pending = s.high ++ s.low ∧
      ∀ (j : ℕ) (u : Sender), s.senders[j]? = some u → u.holds = 0 := by
  have hholds : s.thread.holds = 1 := by rw [hthread]; rfl
  have hopen : s.isOpen := by
    refine ⟨fun ht => ?_, by rw [hthread]; rfl⟩
    have hclosed := h.type ht (by rw [hthread]; rfl)
    rw [hthread] at hclosed
    rcases hclosed with h | h | h <;> cases h
  refine ⟨hopen, ?_, fun j u hu => h.free_of (.inr hholds) hu⟩
  have hdw : s.dw = none := by
    have hturn := (h.core hopen).2
    rw [Turn, hthread] at hturn
    cases list <;> exact hturn.1
  rw [State.pending, h.stored_eq_nil (.inr hholds), hdw]
  rfl

/-- What the services know, they still do when nobody of them has the lock. -/
theorem Core.sender_of_free (h : Core s)
    (hfree : ∀ (j : ℕ) (u : Sender), s.senders[j]? = some u → u.holds = 0)
    (hsenders : s'.senders = s.senders) (hpiped : s'.piped = s.piped) (j : ℕ) (u : Sender)
    (hu : s'.senders[j]? = some u) : SenderOk s' j u := by
  rw [hsenders] at hu
  refine (h.sender j u hu).imp (fun hno => ?_) fun hu1 => ?_
  · rw [NoPipe, hpiped]
    exact hno
  · exact absurd hu1 (by rw [hfree j u hu]; decide)

/-- `send_list_tcp` is over before its list is empty. -/
theorem inv_stopped (h : Inv s) {list : Priority} {caller : Caller}
    (hthread : s.thread = .flushing list caller) : Inv (s.stopped list caller) := by
  obtain ⟨hopen, hpending, hfree⟩ := h.flushing hthread
  obtain ⟨hcore, hturn⟩ := h.core hopen
  rw [Turn, hthread] at hturn
  have hunlock (hlow : ∀ b ∈ s.low, b.offset = 0) : Inv { s with thread := .unlocking caller } :=
    h.turned (l := s.locked) (w := s.warnSize) (r := s.reports) (by rw [hthread]; rfl)
      (by rw [hthread]; rfl) (fun ht => absurd ht hopen.1)
      fun _ _ => ⟨by rw [hthread]; rfl, fun _ _ => hlow⟩
  cases list with
  | high => exact hunlock hturn.2
  | low =>
    have hfront := hcore.front
    rw [hpending, hturn.2, List.nil_append] at hfront
    rw [State.stopped]
    split_ifs with hcut
    · -- the list for high priority is empty, and the buffer goes there
      cases hl : s.low with
      | nil => simp [hl, listUncomplete] at hcut
      | cons b bs =>
        rw [hl] at hfront
        rw [State.raiseUncomplete, hl, hturn.2]
        dsimp only
        rw [assert_eq List.isEmpty_nil]
        have hpending' : ({ s with
            low := bs, high := [b], thread := .unlocking caller } : State).pending =
              s.pending := by
          rw [hpending, State.pending, h.stored_eq_nil (.inr (by rw [hthread]; rfl)), hturn.1,
            hturn.2, hl]
          rfl
        have hlock := h.lock
        have hsending := h.sending
        rw [hthread] at hlock hsending
        obtain ⟨hfront', hfits, hwire⟩ := hcore.queue hpending' rfl rfl
        refine ⟨hlock, hsending, h.owner, h.fault, fun ht => absurd ht hopen.1, fun _ =>
          ⟨⟨hfront', hfits, hwire, ?_, ?_, hcore.dropped, fun j p => ?_,
            hcore.sender_of_free hfree rfl rfl⟩, hfront⟩⟩
        · have hsize := hcore.size
          rw [hturn.2, hl] at hsize
          exact hsize
        · exact fun c hc => hcore.lowPriority c (hl ▸ List.mem_cons_of_mem b hc)
        · rw [State.taken, hpending']
          exact hcore.order j p
    · refine hunlock fun b hb => ?_
      cases hl : s.low with
      | nil => exact absurd (hl ▸ hb) List.not_mem_nil
      | cons c cs =>
        rw [hl] at hb hcut hfront
        rcases List.mem_cons.mp hb with rfl | hb
        · simpa [listUncomplete] using hcut
        · exact hfront b hb

/-- The lists change, and the queue goes on. -/
theorem inv_lists (h : Inv s) {list : Priority} {caller : Caller}
    (hthread : s.thread = .flushing list caller) {high low : List WriteBuffer}
    {w : List UInt8} {z : ℤ} {d : List Message}
    (hfront : ∀ b ∈ (high ++ low).tail, b.offset = 0)
    (hfits : ∀ b ∈ high ++ low, b.offset ≤ b.buffer.data.length)
    (hwire : w = d.flatMap Message.data ++ (high ++ low).flatMap WriteBuffer.written)
    (hsize : z = (((high ++ low).map WriteBuffer.sz).sum : ℕ))
    (hlow : ∀ b ∈ low, b ∈ s.low ∨ b.buffer.priority = .low)
    (hturn : (list = .high → ∀ b ∈ low, b.offset = 0) ∧ (list = .low → high = []))
    (horder : d ++ (high ++ low).map WriteBuffer.buffer =
      s.done ++ (s.high ++ s.low).map WriteBuffer.buffer) :
    Inv { s with high := high, low := low, wire := w, wbSize := z, done := d } := by
  obtain ⟨hopen, hpending, hfree⟩ := h.flushing hthread
  obtain ⟨hcore, hturn'⟩ := h.core hopen
  rw [Turn, hthread] at hturn'
  have hdw : s.dw = none := by cases list <;> exact hturn'.1
  have hpending' : ({ s with
      high := high, low := low, wire := w, wbSize := z, done := d } : State).pending =
        high ++ low := by
    rw [State.pending, h.stored_eq_nil (.inr (by rw [hthread]; rfl)), hdw]
    rfl
  refine ⟨h.lock, h.sending, h.owner, h.fault, h.type, fun _ => ⟨⟨?_, ?_, ?_, hsize, ?_,
    hcore.dropped, fun j p => ?_, hcore.sender_of_free hfree rfl rfl⟩, ?_⟩⟩
  · rw [hpending']
    exact hfront
  · rw [hpending']
    exact hfits
  · rw [hpending']
    exact hwire
  · exact fun b hb => (hlow b hb).elim (hcore.lowPriority b) id
  · have htaken : ({ s with
        high := high, low := low, wire := w, wbSize := z, done := d } : State).taken = s.taken := by
      rw [State.taken, State.taken, hpending', hpending]
      dsimp only
      rw [horder]
      rfl
    rw [htaken]
    exact hcore.order j p
  · rw [Turn]
    dsimp only
    rw [hthread]
    cases list with
    | high => exact ⟨hdw, hturn.1 rfl⟩
    | low => exact ⟨hdw, hturn.2 rfl⟩

theorem written_append {b : WriteBuffer} (n : ℕ) :
    b.written ++ (b.buffer.data.drop b.offset).take n =
      (⟨b.buffer, b.offset + n⟩ : WriteBuffer).written :=
  List.take_add.symm

/-- The list at which the socket thread stands is the beginning of the queue, and what it puts
there goes on from what it found. -/
theorem inv_setList (h : Inv s) {list : Priority} {caller : Caller}
    (hthread : s.thread = .flushing list caller) {b : WriteBuffer} {bs : List WriteBuffer}
    (hlist : s.list list = b :: bs) :
    ∃ rest, s.pending = b :: (bs ++ rest) ∧ ∀ {cs : List WriteBuffer} {w : List UInt8} {z : ℤ}
      {d : List Message}, (∀ c ∈ cs, c ∈ bs ∨ c.buffer = b.buffer) →
      (∀ c ∈ (cs ++ rest).tail, c.offset = 0) →
      (∀ c ∈ cs ++ rest, c.offset ≤ c.buffer.data.length) →
      w = d.flatMap Message.data ++ (cs ++ rest).flatMap WriteBuffer.written →
      z = (((cs ++ rest).map WriteBuffer.sz).sum : ℕ) →
      d ++ (cs ++ rest).map WriteBuffer.buffer = s.done ++ s.pending.map WriteBuffer.buffer →
      Inv (({ s with wire := w, wbSize := z, done := d } : State).setList list cs) := by
  obtain ⟨hopen, hpending, -⟩ := h.flushing hthread
  obtain ⟨hcore, hturn⟩ := h.core hopen
  rw [Turn, hthread] at hturn
  cases list with
  | high =>
    have hhigh : s.high = b :: bs := hlist
    rw [hhigh] at hpending
    refine ⟨s.low, hpending, fun _ hfront hfits hwire hsize horder => ?_⟩
    rw [hpending] at horder
    exact inv_lists h hthread hfront hfits hwire hsize (fun c hc => .inl hc)
      ⟨fun _ => hturn.2, Priority.noConfusion⟩ (hhigh ▸ horder)
  | low =>
    have hlow : s.low = b :: bs := hlist
    rw [hturn.2, hlow] at hpending
    refine ⟨[], hpending.trans (List.append_nil _).symm,
      fun hcs hfront hfits hwire hsize horder => ?_⟩
    rw [List.append_nil] at hfront hfits hwire hsize horder
    rw [hpending] at horder
    refine inv_lists h hthread ?_ ?_ ?_ ?_ (fun c hc => ?_)
      ⟨Priority.noConfusion, fun _ => hturn.2⟩ ?_
    · rwa [hturn.2]
    · rwa [hturn.2]
    · rwa [hturn.2]
    · rwa [hturn.2]
    · rcases hcs c hc with hc | hc
      · exact .inl (hlow ▸ List.mem_cons_of_mem b hc)
      · rw [hc]
        exact .inr (hcore.lowPriority b (hlow ▸ List.mem_cons_self ..))
    · rw [hturn.2, hlow]
      exact horder

/-- `write` in `send_list_tcp`. -/
theorem inv_writeList (h : Inv s) {list : Priority} {caller : Caller}
    (hthread : s.thread = .flushing list caller) {x : Write}
    (hstep : s.writeList list caller x = some s') : Inv s' := by
  have hcore := (h.core (h.flushing hthread).1).1
  rw [State.writeList.eq_def] at hstep
  cases hl : s.list list with
  | nil =>
    rw [hl] at hstep
    cases hstep
  | cons b bs =>
    rw [hl] at hstep
    obtain ⟨rest, hpending, hinv⟩ := inv_setList h hthread hl
    -- only the buffer at the front may be written in part
    have hrest : ∀ c ∈ bs ++ rest, c.offset = 0 := by
      have hfront := hcore.front
      rwa [hpending] at hfront
    have hfits := hcore.fits
    rw [hpending, List.forall_mem_cons] at hfits
    have hwire := hcore.wire
    rw [hpending, List.flatMap_cons, flatMap_written hrest, List.append_nil] at hwire
    have hsize : s.wbSize = b.sz + (((bs ++ rest).map WriteBuffer.sz).sum : ℕ) := by
      rw [hcore.size, ← (h.flushing hthread).2.1, hpending]
      exact Int.natCast_add ..
    cases x with
    | again =>
      obtain rfl := Option.some.inj hstep
      exact inv_stopped h hthread
    | failed =>
      obtain rfl := Option.some.inj hstep
      exact inv_forceClose h (by rw [hthread]; rfl) (by rw [hthread]; rfl)
    | took n =>
      dsimp only at hstep
      split_ifs at hstep with hlt heq
      · -- a part is written
        obtain rfl := Option.some.inj hstep
        refine inv_stopped (@hinv (⟨b.buffer, b.offset + n⟩ :: bs) _ _ _ (fun c hc => ?_) hrest
          ?_ ?_ ?_ ?_) ?_
        · exact (List.mem_cons.mp hc).symm.imp id fun he => by rw [he]
        · refine List.forall_mem_cons.mpr ⟨?_, hfits.2⟩
          rw [WriteBuffer.sz] at hlt
          dsimp only
          omega
        · rw [List.cons_append, List.flatMap_cons, flatMap_written hrest, List.append_nil,
            ← written_append, hwire, List.append_assoc]
        · have hsz : b.sz = n + (⟨b.buffer, b.offset + n⟩ : WriteBuffer).sz := by
            rw [WriteBuffer.sz, WriteBuffer.sz]
            rw [WriteBuffer.sz] at hlt
            dsimp only
            omega
          rw [hsize, hsz, List.cons_append, List.map_cons, List.sum_cons]
          push_cast
          omega
        · rw [hpending]
          rfl
        · cases list <;> exact hthread
      · -- all is written
        obtain rfl := Option.some.inj hstep
        refine hinv (fun c hc => .inl hc) (fun c hc => hrest c (List.mem_of_mem_tail hc)) hfits.2
          ?_ ?_ ?_
        · rw [flatMap_written hrest, List.append_nil, List.flatMap_append, List.flatMap_singleton,
            hwire, List.append_assoc, WriteBuffer.written, List.take_append_drop]
        · rw [hsize, heq]
          omega
        · rw [hpending, List.append_assoc]
          rfl

/-- Both lists are empty. -/
theorem inv_allWritten (h : Inv s) {list : Priority} {caller : Caller}
    (hthread : s.thread = .flushing list caller) (hhigh : s.high.isEmpty = true)
    (hlow : s.low.isEmpty = true) : Inv (s.allWritten caller) := by
  have hopen := (h.flushing hthread).1
  have hcore := (h.core hopen).1
  have hsize : s.wbSize = 0 := by
    rw [hcore.size, List.isEmpty_iff.mp hhigh, List.isEmpty_iff.mp hlow]
    rfl
  have hunlock (w : ℤ) (r : List Report) :
      Inv { s with thread := .unlocking caller, warnSize := w, reports := r } := by
    refine h.turned (l := s.locked) ?_ ?_ (fun ht => absurd ht hopen.1) fun _ _ => ⟨?_, ?_⟩
    · rw [hthread]
      rfl
    · rw [hthread]
      rfl
    · rw [hthread]
      rfl
    · intro _ _ b hb
      rw [List.isEmpty_iff.mp hlow] at hb
      exact absurd hb List.not_mem_nil
  rw [State.allWritten.eq_def, assert_eq ⟨hhigh, hlow, hsize⟩]
  dsimp only
  split_ifs
  · exact inv_forceClose h (by rw [hthread]; rfl) (by rw [hthread]; rfl)
  · exact hunlock _ _
  · exact hunlock s.warnSize s.reports

/-- A message is taken off the count. -/
theorem inv_decreasing (h : Inv s) (hthread : s.thread = .decreasing) :
    Inv { s.assert (s.sending ≠ 0) with sending := s.sending - 1, thread := .polling } := by
  have hlock := h.lock
  have hsending := h.sending
  rw [hthread] at hlock hsending
  have hpos : s.sending ≠ 0 := by
    rw [hsending]
    exact Nat.ne_of_gt (Nat.add_pos_left (Nat.succ_pos _) _)
  rw [assert_eq hpos]
  refine ⟨hlock, ?_, h.owner, h.fault, fun _ _ => .inl rfl, fun hopen => ?_⟩
  · change s.sending - 1 = s.piped.length + 0 + total Sender.pipes s.senders
    rw [hsending, Thread.decs]
    omega
  · obtain ⟨hcore, hturn⟩ := h.core ⟨hopen.1, by rw [hthread]; rfl⟩
    exact ⟨⟨hcore.front, hcore.fits, hcore.wire, hcore.size, hcore.lowPriority, hcore.dropped,
      hcore.order, hcore.sender⟩, hturn.low (by rw [hthread]; rfl)⟩

/-- `socket_unlock` at the end of `send_buffer`. -/
theorem inv_unlocking (h : Inv s) {caller : Caller} (hthread : s.thread = .unlocking caller)
    {th : Thread} (hholds : th.holds = 0) (hdecs : th.decs = 0)
    (hclosed : caller = .event → th = .polling)
    (hturn : (∀ b ∈ s.low, b.offset = 0) → Turn { s with thread := th }) :
    Inv { s with locked := false, thread := th } := by
  have hlocked : s.locked = true := by
    have hlock := h.lock
    rw [hthread] at hlock
    by_contra hl
    rw [if_neg hl] at hlock
    exact absurd (Nat.eq_zero_of_add_eq_zero hlock).2 Nat.one_ne_zero
  refine h.turned (l := false) (w := s.warnSize) (r := s.reports) ?_ ?_ (fun ht _ => ?_)
    fun _ _ => ⟨by rw [hthread]; rfl, fun _ hbefore => hturn ?_⟩
  · rw [hlocked, hthread, hholds]
    rfl
  · rw [hdecs, hthread]
    rfl
  · have hmay := h.type ht (by rw [hthread]; rfl)
    rw [hthread] at hmay
    rcases hmay with he | he | he
    · cases he
    · cases he
    · exact .inl (hclosed (Thread.unlocking.inj he))
  · rw [Turn, hthread] at hbefore
    exact hbefore

/-- The socket thread goes on. -/
theorem inv_threadStep (h : Inv s) (hstep : s.threadStep = some s') : Inv s' := by
  rw [State.threadStep.eq_def] at hstep
  -- what the socket thread does next without the lock
  have hquiet {th : Thread} (hholds : s.thread.holds = 0) (hdecs : s.thread.decs = 0)
      (hclosing : s.thread.closing = false) (htype : s.type ≠ .invalid) (hth : th.holds = 0)
      (hthd : th.decs = 0) (hturn : (∀ b ∈ s.low, b.offset = 0) → Turn { s with thread := th }) :
      Inv { s with thread := th } :=
    h.turned (l := s.locked) (w := s.warnSize) (r := s.reports) (by rw [hth, hholds])
      (by rw [hthd, hdecs]) (fun ht => absurd ht htype)
      fun _ _ => ⟨hclosing, fun _ hbefore => hturn (hbefore.low hholds)⟩
  have hopened (hclosing : s.thread.closing = false) (hmay : ¬ s.thread.mayBeClosed) :
      s.type ≠ .invalid := fun ht => hmay (h.type ht hclosing)
  cases hthread : s.thread with
  | polling =>
    rw [hthread] at hstep
    cases hstep
  | decreasing =>
    rw [hthread] at hstep
    obtain rfl := Option.some.inj hstep
    exact inv_decreasing h hthread
  | flushing list caller =>
    rw [hthread] at hstep
    obtain ⟨hopen, -, -⟩ := h.flushing hthread
    have hturn := (h.core hopen).2
    rw [Turn, hthread] at hturn
    cases list with
    | high =>
      obtain ⟨hhigh, heq⟩ := Option.ite_none_right_eq_some.mp hstep
      obtain rfl := Option.some.inj heq
      split_ifs with hlow
      · exact inv_allWritten h hthread hhigh hlow
      · exact h.turned (l := s.locked) (w := s.warnSize) (r := s.reports) (by rw [hthread]; rfl)
          (by rw [hthread]; rfl) (fun ht => absurd ht hopen.1)
          fun _ _ => ⟨by rw [hthread]; rfl, fun _ _ => ⟨hturn.1, List.isEmpty_iff.mp hhigh⟩⟩
    | low =>
      obtain ⟨hlow, heq⟩ := Option.ite_none_right_eq_some.mp hstep
      obtain rfl := Option.some.inj heq
      exact inv_allWritten h hthread (by rw [hturn.2]; rfl) hlow
  | unlocking caller =>
    rw [hthread] at hstep
    obtain rfl := Option.some.inj hstep
    cases caller with
    | event => exact inv_unlocking h hthread rfl rfl (fun _ => rfl) id
    | close shutdown => exact inv_unlocking h hthread rfl rfl Caller.noConfusion id
  | checking look k shutdown =>
    rw [hthread] at hstep hquiet hopened
    have htype := hopened rfl (by rintro (he | he | he) <;> cases he)
    obtain rfl := Option.some.inj hstep
    split_ifs
    · exact hquiet rfl rfl rfl htype rfl rfl id
    · exact hquiet rfl rfl rfl htype rfl rfl id
    · cases look with
      | first => exact hquiet rfl rfl rfl htype rfl rfl id
      | second => exact hquiet rfl rfl rfl htype rfl rfl id
    · cases look with
      | first => exact hquiet rfl rfl rfl htype rfl rfl id
      | second =>
        have hlock := h.lock
        have hsending := h.sending
        rw [hthread] at hlock hsending
        refine ⟨hlock, hsending, h.owner, h.fault, fun ht => SocketType.noConfusion ht, fun _ => ?_⟩
        obtain ⟨hcore, hturn⟩ := h.core ⟨htype, by rw [hthread]; rfl⟩
        exact ⟨⟨hcore.front, hcore.fits, hcore.wire, hcore.size, hcore.lowPriority,
          fun ht => SocketType.noConfusion ht, hcore.order, hcore.sender⟩,
          hturn.low (by rw [hthread]; rfl)⟩
  | trying shutdown =>
    rw [hthread] at hstep hquiet hopened
    have htype := hopened rfl (by rintro (he | he | he) <;> cases he)
    obtain rfl := Option.some.inj hstep
    split_ifs with hlocked
    · exact hquiet rfl rfl rfl htype rfl rfl id
    · refine inv_sendBuffer h (eq_false_of_ne_true hlocked) ⟨htype, ?_⟩ ?_ ?_ _
      all_goals
        rw [hthread]
        rfl
  | freeing list held =>
    have hlock := h.lock
    have hsending := h.sending
    rw [hthread] at hstep hlock hsending
    cases list
    all_goals
      obtain rfl := Option.some.inj hstep
      refine ⟨hlock, hsending, h.owner, h.fault, fun _ hc => ?_, fun hopen => ?_⟩
      · cases hc
      · cases hopen.2
  | ending held =>
    have hlock := h.lock
    have hsending := h.sending
    rw [hthread] at hstep hlock hsending
    obtain ⟨-, heq⟩ := Option.ite_none_right_eq_some.mp hstep
    obtain rfl := Option.some.inj heq
    cases held with
    | false =>
      exact ⟨hlock, hsending, h.owner, h.fault, fun _ _ => .inl rfl,
        fun hopen => absurd rfl hopen.1⟩
    | true =>
      exact ⟨hlock, hsending, h.owner, h.fault, fun _ _ => .inr (.inr rfl),
        fun hopen => absurd rfl hopen.1⟩

/-! ## Runs -/

theorem inv_init (n : ℕ) : Inv (State.init n) := by
  have hidle {i : ℕ} {t : Sender} (ht : (State.init n).senders[i]? = some t) : t = .idle :=
    List.eq_of_mem_replicate (List.mem_of_getElem? ht)
  have htotal (f : Sender → ℕ) (hf : f .idle = 0) : total f (State.init n).senders = 0 := by
    rw [total, State.init, List.map_replicate, hf, List.sum_replicate_nat]
    exact Nat.mul_zero n
  have hstored : (State.init n).pending = [] := by
    have hnil : (State.init n).senders.flatMap Sender.stored = [] :=
      List.flatMap_eq_nil_iff.mpr fun t ht => by rw [List.eq_of_mem_replicate ht]; rfl
    rw [State.pending, hnil]
    rfl
  refine ⟨htotal _ rfl, by rw [htotal _ rfl]; rfl, fun i t ht m hm => ?_, rfl, fun _ _ => .inl rfl,
    fun _ => ⟨⟨?_, ?_, ?_, rfl, ?_, fun _ => rfl, fun i p => ?_, fun i t ht => ?_⟩, ?_⟩⟩
  · rw [hidle ht] at hm
    exact absurd hm List.not_mem_nil
  · rw [hstored]
    exact fun _ hb => absurd hb List.not_mem_nil
  · rw [hstored]
    exact fun _ hb => absurd hb List.not_mem_nil
  · rw [hstored]
    rfl
  · exact fun _ hb => absurd hb List.not_mem_nil
  · have hown : (State.init n).own i = [] := by
      rw [State.own]
      cases ht : (State.init n).senders[i]? with
      | none => rfl
      | some t =>
        rw [hidle ht]
        rfl
    rw [State.taken, hstored, hown]
    rfl
  · rw [hidle ht]
    trivial
  · exact fun _ hb => absurd hb List.not_mem_nil

/-- Every step keeps the invariant. -/
theorem inv_step {e : Event} (h : Inv s) (hstep : step s e = some s') : Inv s' := by
  cases e with
  | send i p data =>
    obtain ⟨ht, heq⟩ := Option.ite_none_right_eq_some.mp hstep
    obtain rfl := Option.some.inj heq
    exact inv_send h ht p data
  | goOn i =>
    obtain ⟨t, ht, hgo⟩ := Option.bind_eq_some_iff.mp hstep
    exact inv_senderStep h ht hgo
  | directWrite i n =>
    obtain ⟨t, ht, hgo⟩ := Option.bind_eq_some_iff.mp hstep
    exact inv_directWrite h ht hgo
  | close shutdown =>
    obtain rfl := Option.some.inj hstep
    exact inv_close h shutdown
  | command =>
    rw [step] at hstep
    split at hstep
    · next hthread hpipe =>
      obtain rfl := Option.some.inj hstep
      exact inv_command h hthread hpipe
    · cases hstep
  | writable =>
    obtain ⟨⟨hthread, htype⟩, heq⟩ := Option.ite_none_right_eq_some.mp hstep
    obtain rfl := Option.some.inj heq
    split_ifs with hlocked
    · exact h
    · refine inv_sendBuffer h (eq_false_of_ne_true hlocked) ⟨htype, ?_⟩ ?_ ?_ _
      all_goals
        rw [hthread]
        rfl
  | broken =>
    obtain ⟨⟨hthread, htype⟩, heq⟩ := Option.ite_none_right_eq_some.mp hstep
    obtain rfl := Option.some.inj heq
    exact inv_forceClose h (by rw [hthread]; rfl) (by rw [hthread]; rfl)
  | thread => exact inv_threadStep h hstep
  | write w =>
    rw [step] at hstep
    split at hstep
    · next hthread => exact inv_writeList h hthread hstep
    · cases hstep

theorem inv_run {n : ℕ} {es : List Event} (hrun : run step (.init n) es = some s) : Inv s :=
  run_induction (fun _ _ _ h hstep => inv_step h hstep) (inv_init n) hrun

/-- The service 1 sends while the direct write of the service 0 is under way: it finds the lock
taken, and the socket thread writes what both have left. -/
def twoSenders : List Event :=
  [Event.send 0 .high [1, 2, 3]] ++ List.replicate 11 (Event.goOn 0) ++
    [Event.send 1 .high [4, 5]] ++ List.replicate 8 (Event.goOn 1) ++
    [Event.directWrite 0 2, .goOn 0, .goOn 0, .command, .thread, .writable, .write (.took 1),
      .write (.took 1)]

end SlgServer.SocketServer
