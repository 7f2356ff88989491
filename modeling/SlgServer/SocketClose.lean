import SlgServer.SocketWrites

/-!
# Closed when all is out

`socket_server_close` goes through the pipe behind what was sent before it. When the socket
thread reads the command, it closes the socket at once only if it finds nothing that waits, and
it looks field by field, without a lock, while services may still write directly. Otherwise it
goes on until the lists are empty, and closes the socket then.

What a service sent before is `c` here. As long as some of it is in the pipe, the socket thread
cannot be about a command to close (`Closing.covers`); after this it is in `dw_buffer` or the
lists, which only the socket thread empties, so what it has found empty stays so (`Looks`).

* `sent_before_close`: if nobody shuts the socket down and the connection does not break, then
  when the socket is closed, all that a service sent before it was told to close went out whole.
-/

namespace SlgServer.SocketServer

open Machine

/-- An event that ends the connection whatever still waits. -/
def Event.breaks : Event → Bool
  | .close shutdown => shutdown
  | .broken => true
  | .write .failed => true
  | _ => false

/-- Whether an event is a command to close. -/
def Event.closes : Event → Bool
  | .close _ => true
  | _ => false

/-- Whether the socket thread is to close the socket whatever still waits. -/
def Thread.shutdown : Thread → Bool
  | .flushing _ (.close shutdown) => shutdown
  | .unlocking (.close shutdown) => shutdown
  | .checking _ _ shutdown => shutdown
  | .trying shutdown => shutdown
  | _ => false

/-- Whether the socket thread is not about a command to close. -/
def Thread.calm : Thread → Bool
  | .polling => true
  | .decreasing => true
  | .flushing _ .event => true
  | .unlocking .event => true
  | _ => false

/-- Whether the socket thread is at one of the two looks of `close_socket`. -/
def Thread.looks : Thread → Bool
  | .checking _ _ _ => true
  | _ => false

/-- What went out, and what the socket thread has still to write. -/
def State.listed (s : State) : List Message :=
  s.done ++ (s.dw.toList ++ s.high ++ s.low).map WriteBuffer.buffer

/-- Of each priority, there are as many messages of the service `i` in `ms` as in `c`. -/
def Covers (c : List Message) (i : ℕ) (ms : List Message) : Prop :=
  ∀ p, c.countP (mine i p) ≤ ms.countP (mine i p)

/-- What the socket thread knows in `close_socket` from the fields that it has looked at. -/
def Looks (c : List Message) (i : ℕ) (s : State) : Prop :=
  ∀ look k shutdown, s.thread = .checking look k shutdown →
    (0 < k → s.high = []) ∧ (1 < k → s.low = []) ∧ (2 < k → Covers c i s.done)

/-- The messages `c` of the service `i` went out, whole and in order. -/
def Gone (c : List Message) (i : ℕ) (s : State) : Prop :=
  ∃ d, d <+: s.done ∧ d.flatMap Message.data <+: s.wire ∧
    ∀ p, c.filter (mine i p) <+: d.filter (mine i p)

/-- The socket is not closed yet, and `c` is in the lists or in the pipe. -/
structure Closing (c : List Message) (i : ℕ) (s : State) : Prop where
  isOpen : s.isOpen
  called : c <+: s.called
  noShutdown : s.thread.shutdown = false ∧ ∀ b, .close b ∈ s.pipe → b = false
  covers : ∃ as rest, s.pipe = as.map .send ++ rest ∧ Covers c i (s.listed ++ as) ∧
    (as ≠ [] → s.type = .connected ∧ s.thread.calm = true)
  looks : Looks c i s

variable {s s' : State} {c : List Message} {i : ℕ}

/-! ## What a step leaves as it was -/

/-- What a service does: it stores what a direct write has left over, it writes to the pipe, or
it goes on by itself. -/
theorem senderStep_cases {t : Sender} (hstep : s.senderStep i t = some s') :
    (∃ t' l n, s' = { s with senders := s.senders.set i t', locked := l, sending := n }) ∨
      (∃ m n, t = .storing m n ∧
        s' = { s with dw := some ⟨m, n⟩, senders := s.senders.set i .unlocking }) ∨
      ∃ m, t = .piping m ∧
        s' = { s with pipe := s.pipe ++ [.send m], senders := s.senders.set i .idle } := by
  cases t with
  | idle => cases hstep
  | writing m => cases hstep
  | storing m n => exact .inr (.inl ⟨m, n, rfl, (Option.some.inj hstep).symm⟩)
  | piping m => exact .inr (.inr ⟨m, rfl, (Option.some.inj hstep).symm⟩)
  | increasing m =>
    obtain ⟨-, heq⟩ := Option.ite_none_left_eq_some.mp hstep
    exact .inl ⟨_, s.locked, _, (Option.some.inj heq).symm⟩
  | locking m =>
    obtain rfl := Option.some.inj hstep
    split_ifs
    · exact .inl ⟨_, s.locked, s.sending, rfl⟩
    · exact .inl ⟨_, true, s.sending, rfl⟩
  | looking m look k => exact .inl ⟨_, s.locked, s.sending, (Option.some.inj hstep).symm⟩
  | leaving m => exact .inl ⟨_, false, s.sending, (Option.some.inj hstep).symm⟩
  | unlocking => exact .inl ⟨_, false, s.sending, (Option.some.inj hstep).symm⟩

/-- What a direct write does. -/
theorem directWrite_cases {n : ℕ} {t : Sender} (hstep : s.directWrite i n t = some s') :
    ∃ t' w d, s' = { s with wire := s.wire ++ w, done := d, senders := s.senders.set i t' } ∧
      s.done <+: d := by
  cases t with
  | writing m =>
    rw [State.directWrite] at hstep
    split_ifs at hstep
    · exact ⟨_, _, _, (Option.some.inj hstep).symm, List.prefix_rfl⟩
    · exact ⟨_, _, _, (Option.some.inj hstep).symm, List.prefix_append ..⟩
  | _ => cases hstep

/-- What the socket thread does with the lists. -/
structure Frame (s s' : State) : Prop where
  senders : s'.senders = s.senders
  pipe : s'.pipe = s.pipe
  called : s'.called = s.called
  dropped : s'.dropped = s.dropped
  done : s.done <+: s'.done
  wire : s.wire <+: s'.wire

theorem assert_cases (s : State) (b : Prop) [Decidable b] :
    ∃ f, s.assert b = { s with fault := f } := by
  by_cases h : b
  · exact ⟨s.fault, if_pos h⟩
  · exact ⟨true, if_neg h⟩

theorem frame_sendBuffer (s : State) (caller : Caller) :
    Frame s (s.sendBuffer caller) ∧ (s.sendBuffer caller).type = s.type ∧
      (s.sendBuffer caller).thread = .flushing .high caller := by
  rw [State.sendBuffer]
  cases s.dw with
  | none =>
    dsimp only
    obtain ⟨f, hf⟩ := assert_cases s (listUncomplete s.low = false)
    rw [hf]
    exact ⟨⟨rfl, rfl, rfl, rfl, List.prefix_rfl, List.prefix_rfl⟩, rfl, rfl⟩
  | some b =>
    dsimp only
    obtain ⟨f, hf⟩ := assert_cases
      { s with wbSize := s.wbSize + b.sz, high := b :: s.high, dw := none }
      (listUncomplete s.low = false)
    rw [hf]
    exact ⟨⟨rfl, rfl, rfl, rfl, List.prefix_rfl, List.prefix_rfl⟩, rfl, rfl⟩

theorem frame_allWritten (s : State) (caller : Caller) :
    Frame s (s.allWritten caller) ∧ (s.allWritten caller).type = s.type ∧
      (s.type ≠ .halfclose → (s.allWritten caller).thread = .unlocking caller) := by
  rw [State.allWritten.eq_def]
  obtain ⟨f, hf⟩ := assert_cases s (s.high.isEmpty ∧ s.low.isEmpty ∧ s.wbSize = 0)
  rw [hf]
  dsimp only
  split_ifs with htype
  · exact ⟨⟨rfl, rfl, rfl, rfl, List.prefix_rfl, List.prefix_rfl⟩, rfl, fun h => absurd htype h⟩
  · exact ⟨⟨rfl, rfl, rfl, rfl, List.prefix_rfl, List.prefix_rfl⟩, rfl, fun _ => rfl⟩
  · exact ⟨⟨rfl, rfl, rfl, rfl, List.prefix_rfl, List.prefix_rfl⟩, rfl, fun _ => rfl⟩

theorem frame_stopped (s : State) (list : Priority) (caller : Caller) :
    Frame s (s.stopped list caller) ∧ (s.stopped list caller).type = s.type ∧
      (s.stopped list caller).thread = .unlocking caller := by
  cases list with
  | high => exact ⟨⟨rfl, rfl, rfl, rfl, List.prefix_rfl, List.prefix_rfl⟩, rfl, rfl⟩
  | low =>
    rw [State.stopped]
    split_ifs
    · rw [State.raiseUncomplete]
      cases s.low with
      | nil => exact ⟨⟨rfl, rfl, rfl, rfl, List.prefix_rfl, List.prefix_rfl⟩, rfl, rfl⟩
      | cons b bs =>
        obtain ⟨f, hf⟩ := assert_cases s (s.high.isEmpty : Prop)
        dsimp only
        rw [hf]
        exact ⟨⟨rfl, rfl, rfl, rfl, List.prefix_rfl, List.prefix_rfl⟩, rfl, rfl⟩
    · exact ⟨⟨rfl, rfl, rfl, rfl, List.prefix_rfl, List.prefix_rfl⟩, rfl, rfl⟩

theorem frame_writeList {list : Priority} {caller : Caller} {w : Write}
    (hstep : s.writeList list caller w = some s') (hw : w ≠ .failed) :
    Frame s s' ∧ s'.type = s.type ∧
      (s'.thread = s.thread ∨ s'.thread = .unlocking caller) := by
  rw [State.writeList.eq_def] at hstep
  cases hl : s.list list with
  | nil =>
    rw [hl] at hstep
    cases hstep
  | cons b bs =>
    rw [hl] at hstep
    cases w with
    | again =>
      obtain rfl := Option.some.inj hstep
      obtain ⟨hframe, htype, hthread⟩ := frame_stopped s list caller
      exact ⟨hframe, htype, .inr hthread⟩
    | failed => exact absurd rfl hw
    | took n =>
      dsimp only at hstep
      split_ifs at hstep
      · obtain rfl := Option.some.inj hstep
        obtain ⟨hframe, htype, hthread⟩ := frame_stopped (({ s with
          wire := s.wire ++ (b.buffer.data.drop b.offset).take n
          wbSize := s.wbSize - n } : State).setList list (⟨b.buffer, b.offset + n⟩ :: bs))
          list caller
        refine ⟨⟨hframe.senders.trans ?_, hframe.pipe.trans ?_, hframe.called.trans ?_,
          hframe.dropped.trans ?_, .trans ?_ hframe.done, .trans ?_ hframe.wire⟩,
          htype.trans ?_, .inr hthread⟩
        all_goals cases list <;> first | rfl | exact List.prefix_rfl | exact List.prefix_append ..
      · obtain rfl := Option.some.inj hstep
        cases list with
        | high =>
          exact ⟨⟨rfl, rfl, rfl, rfl, List.prefix_append .., List.prefix_append ..⟩, rfl, .inl rfl⟩
        | low =>
          exact ⟨⟨rfl, rfl, rfl, rfl, List.prefix_append .., List.prefix_append ..⟩, rfl, .inl rfl⟩

theorem frame_threadStep (hstep : s.threadStep = some s') : Frame s s' := by
  have hsame (s' : State) (hsenders : s'.senders = s.senders) (hpipe : s'.pipe = s.pipe)
      (hcalled : s'.called = s.called) (hdropped : s'.dropped = s.dropped)
      (hdone : s'.done = s.done) (hwire : s'.wire = s.wire) : Frame s s' :=
    ⟨hsenders, hpipe, hcalled, hdropped, hdone ▸ List.prefix_rfl, hwire ▸ List.prefix_rfl⟩
  rw [State.threadStep.eq_def] at hstep
  cases hthread : s.thread with
  | polling =>
    rw [hthread] at hstep
    cases hstep
  | decreasing =>
    rw [hthread] at hstep
    obtain rfl := Option.some.inj hstep
    obtain ⟨f, hf⟩ := assert_cases s (s.sending ≠ 0)
    rw [hf]
    exact hsame _ rfl rfl rfl rfl rfl rfl
  | flushing list caller =>
    rw [hthread] at hstep
    cases list with
    | high =>
      obtain ⟨-, heq⟩ := Option.ite_none_right_eq_some.mp hstep
      obtain rfl := Option.some.inj heq
      split_ifs
      · exact (frame_allWritten s caller).1
      · exact hsame _ rfl rfl rfl rfl rfl rfl
    | low =>
      obtain ⟨-, heq⟩ := Option.ite_none_right_eq_some.mp hstep
      obtain rfl := Option.some.inj heq
      exact (frame_allWritten s caller).1
  | unlocking caller =>
    rw [hthread] at hstep
    obtain rfl := Option.some.inj hstep
    exact hsame _ rfl rfl rfl rfl rfl rfl
  | checking look k shutdown =>
    rw [hthread] at hstep
    obtain rfl := Option.some.inj hstep
    cases look <;> split_ifs <;> exact hsame _ rfl rfl rfl rfl rfl rfl
  | trying shutdown =>
    rw [hthread] at hstep
    obtain rfl := Option.some.inj hstep
    split_ifs
    · exact hsame _ rfl rfl rfl rfl rfl rfl
    · exact (frame_sendBuffer s (.close shutdown)).1
  | freeing list held =>
    rw [hthread] at hstep
    cases list with
    | high =>
      obtain rfl := Option.some.inj hstep
      exact hsame _ rfl rfl rfl rfl rfl rfl
    | low =>
      obtain rfl := Option.some.inj hstep
      exact hsame _ rfl rfl rfl rfl rfl rfl
  | ending held =>
    rw [hthread] at hstep
    obtain ⟨-, heq⟩ := Option.ite_none_right_eq_some.mp hstep
    obtain rfl := Option.some.inj heq
    exact hsame _ rfl rfl rfl rfl rfl rfl

theorem frame_sendSocket (s : State) (m : Message) :
    (s.sendSocket m).senders = s.senders ∧ (s.sendSocket m).pipe = s.pipe ∧
      (s.sendSocket m).called = s.called ∧ (s.sendSocket m).type = s.type ∧
      s.done <+: (s.sendSocket m).done ∧ s.wire <+: (s.sendSocket m).wire ∧
      (s.sendSocket m).dropped =
        if s.type = .connected then s.dropped else s.dropped ++ [m] := by
  have happend (p : Priority) :
      (s.append p m).warn.senders = s.senders ∧ (s.append p m).warn.pipe = s.pipe ∧
        (s.append p m).warn.called = s.called ∧ (s.append p m).warn.type = s.type ∧
        s.done <+: (s.append p m).warn.done ∧ s.wire <+: (s.append p m).warn.wire ∧
        (s.append p m).warn.dropped = s.dropped := by
    obtain ⟨w, r, hwarn⟩ := warn_eq (s.append p m)
    rw [hwarn]
    cases p <;> exact ⟨rfl, rfl, rfl, rfl, List.prefix_rfl, List.prefix_rfl, rfl⟩
  rw [State.sendSocket]
  split_ifs
  · exact happend .high
  · exact happend m.priority
  · exact ⟨rfl, rfl, rfl, rfl, List.prefix_rfl, List.prefix_rfl, rfl⟩

/-- What went out stays so, and nothing but sending and closing puts something into the pipe. -/
theorem step_grows {e : Event} (hstep : step s e = some s') :
    s.done <+: s'.done ∧ s.wire <+: s'.wire ∧
      ∀ x ∈ s'.pipe, x ∈ s.pipe ∨ (∃ m, x = .send m) ∨ ∃ b, e = .close b ∧ x = .close b := by
  have hpipe {xs : List Command} (h : xs = s.pipe) : ∀ x ∈ xs, x ∈ s.pipe ∨ (∃ m, x = .send m) ∨
      ∃ b, e = .close b ∧ x = .close b := fun x hx => .inl (h ▸ hx)
  have hframe {s' : State} (h : Frame s s') : s.done <+: s'.done ∧ s.wire <+: s'.wire ∧
      ∀ x ∈ s'.pipe, x ∈ s.pipe ∨ (∃ m, x = .send m) ∨ ∃ b, e = .close b ∧ x = .close b :=
    ⟨h.done, h.wire, hpipe h.pipe⟩
  cases e with
  | send i p data =>
    obtain ⟨-, heq⟩ := Option.ite_none_right_eq_some.mp hstep
    obtain rfl := Option.some.inj heq
    rw [State.send]
    split <;> exact ⟨List.prefix_rfl, List.prefix_rfl, hpipe rfl⟩
  | goOn i =>
    obtain ⟨t, -, hgo⟩ := Option.bind_eq_some_iff.mp hstep
    obtain ⟨t', l, n, rfl⟩ | ⟨m, n, -, rfl⟩ | ⟨m, -, rfl⟩ := senderStep_cases hgo
    · exact ⟨List.prefix_rfl, List.prefix_rfl, hpipe rfl⟩
    · exact ⟨List.prefix_rfl, List.prefix_rfl, hpipe rfl⟩
    · refine ⟨List.prefix_rfl, List.prefix_rfl, fun x hx => ?_⟩
      exact (List.mem_append.mp hx).imp id fun hx => .inl ⟨m, List.mem_singleton.mp hx⟩
  | directWrite i n =>
    obtain ⟨t, -, hgo⟩ := Option.bind_eq_some_iff.mp hstep
    obtain ⟨t', w, d, rfl, hdone⟩ := directWrite_cases hgo
    exact ⟨hdone, List.prefix_append .., hpipe rfl⟩
  | close b =>
    obtain rfl := Option.some.inj hstep
    refine ⟨List.prefix_rfl, List.prefix_rfl, fun x hx => ?_⟩
    exact (List.mem_append.mp hx).imp id fun hx => .inr ⟨b, rfl, List.mem_singleton.mp hx⟩
  | command =>
    rw [step] at hstep
    split at hstep
    · next cmd pipe _ heq =>
      obtain rfl := Option.some.inj hstep
      have htail : ∀ x ∈ pipe, x ∈ s.pipe := fun x hx => heq ▸ List.mem_cons_of_mem cmd hx
      cases cmd with
      | send m =>
        obtain ⟨-, hp, -, -, hdone, hwire, -⟩ :=
          frame_sendSocket ({ s with pipe := pipe } : State) m
        refine ⟨hdone, hwire, fun x hx => .inl (htail x ?_)⟩
        exact (congrArg (x ∈ ·) hp).mp hx
      | close b =>
        rw [State.ctrlCmd]
        split_ifs <;> exact ⟨List.prefix_rfl, List.prefix_rfl, fun x hx => .inl (htail x hx)⟩
    · cases hstep
  | writable =>
    obtain ⟨-, heq⟩ := Option.ite_none_right_eq_some.mp hstep
    obtain rfl := Option.some.inj heq
    split
    · exact ⟨List.prefix_rfl, List.prefix_rfl, hpipe rfl⟩
    · exact hframe (frame_sendBuffer s .event).1
  | broken =>
    obtain ⟨-, heq⟩ := Option.ite_none_right_eq_some.mp hstep
    obtain rfl := Option.some.inj heq
    exact ⟨List.prefix_rfl, List.prefix_rfl, hpipe rfl⟩
  | thread => exact hframe (frame_threadStep hstep)
  | write w =>
    rw [step] at hstep
    split at hstep
    · next list caller _ =>
      by_cases hw : w = .failed
      · rw [hw, State.writeList.eq_def] at hstep
        rcases hlist : s.list list with _ | ⟨b, bs⟩
        · rw [hlist] at hstep
          cases hstep
        · -- `force_close` takes what waits, and neither what was taken nor the pipe
          rw [hlist] at hstep
          obtain rfl := Option.some.inj hstep
          exact ⟨List.prefix_rfl, List.prefix_rfl, hpipe rfl⟩
      · exact hframe (frame_writeList hstep hw).1
    · cases hstep

/-! ## Nobody has told the socket thread to close the socket -/

theorem calm_threadStep (htype : s.type = .connected) (hcalm : s.thread.calm = true)
    (hstep : s.threadStep = some s') : s'.type = .connected ∧ s'.thread.calm = true := by
  have hall {caller : Caller} (hcaller : (Thread.unlocking caller).calm = true) :
      (s.allWritten caller).type = .connected ∧ (s.allWritten caller).thread.calm = true := by
    obtain ⟨-, hsame, hthread⟩ := frame_allWritten s caller
    refine ⟨hsame.trans htype, ?_⟩
    rw [hthread (by rw [htype]; exact SocketType.noConfusion)]
    exact hcaller
  rw [State.threadStep.eq_def] at hstep
  cases hthread : s.thread with
  | polling =>
    rw [hthread] at hstep
    cases hstep
  | decreasing =>
    rw [hthread] at hstep
    obtain rfl := Option.some.inj hstep
    obtain ⟨f, hf⟩ := assert_cases s (s.sending ≠ 0)
    rw [hf]
    exact ⟨htype, rfl⟩
  | flushing list caller =>
    rw [hthread] at hstep hcalm
    have hcaller : (Thread.unlocking caller).calm = true := by
      cases caller with
      | event => rfl
      | close shutdown => exact hcalm
    cases list with
    | high =>
      obtain ⟨-, heq⟩ := Option.ite_none_right_eq_some.mp hstep
      obtain rfl := Option.some.inj heq
      split_ifs
      · exact hall hcaller
      · refine ⟨htype, ?_⟩
        cases caller with
        | event => rfl
        | close shutdown => exact hcalm
    | low =>
      obtain ⟨-, heq⟩ := Option.ite_none_right_eq_some.mp hstep
      obtain rfl := Option.some.inj heq
      exact hall hcaller
  | unlocking caller =>
    rw [hthread] at hstep hcalm
    obtain rfl := Option.some.inj hstep
    cases caller with
    | event => exact ⟨htype, rfl⟩
    | close shutdown => cases hcalm
  | _ =>
    rw [hthread] at hcalm
    cases hcalm

theorem Thread.of_calm {th : Thread} (hcalm : th.calm = true) :
    th.closing = false ∧ th.shutdown = false ∧ th.looks = false := by
  cases th with
  | polling => exact ⟨rfl, rfl, rfl⟩
  | decreasing => exact ⟨rfl, rfl, rfl⟩
  | flushing list caller =>
    cases caller with
    | event => exact ⟨rfl, rfl, rfl⟩
    | close shutdown => cases hcalm
  | unlocking caller =>
    cases caller with
    | event => exact ⟨rfl, rfl, rfl⟩
    | close shutdown => cases hcalm
  | _ => cases hcalm

/-- Only a command to close makes the socket thread close the socket. -/
theorem calm_step {e : Event} (he : e.breaks = false)
    (hpipe : e = .command → ∃ m pipe, s.pipe = .send m :: pipe) (htype : s.type = .connected)
    (hcalm : s.thread.calm = true) (hstep : step s e = some s') :
    s'.type = .connected ∧ s'.thread.calm = true := by
  cases e with
  | send i p data =>
    obtain ⟨-, heq⟩ := Option.ite_none_right_eq_some.mp hstep
    obtain rfl := Option.some.inj heq
    rw [State.send]
    split_ifs <;> exact ⟨htype, hcalm⟩
  | goOn i =>
    obtain ⟨t, -, hgo⟩ := Option.bind_eq_some_iff.mp hstep
    obtain ⟨t', l, n, rfl⟩ | ⟨m, n, -, rfl⟩ | ⟨m, -, rfl⟩ := senderStep_cases hgo
    all_goals exact ⟨htype, hcalm⟩
  | directWrite i n =>
    obtain ⟨t, -, hgo⟩ := Option.bind_eq_some_iff.mp hstep
    obtain ⟨t', w, d, rfl, -⟩ := directWrite_cases hgo
    exact ⟨htype, hcalm⟩
  | close b =>
    obtain rfl := Option.some.inj hstep
    exact ⟨htype, hcalm⟩
  | command =>
    obtain ⟨m, pipe, hpipe⟩ := hpipe rfl
    rw [step, hpipe] at hstep
    split at hstep
    · next heq =>
      obtain ⟨rfl, rfl⟩ := List.cons.inj heq
      obtain rfl := Option.some.inj hstep
      exact ⟨(frame_sendSocket _ m).2.2.2.1.trans htype, rfl⟩
    · cases hstep
  | writable =>
    obtain ⟨-, heq⟩ := Option.ite_none_right_eq_some.mp hstep
    obtain rfl := Option.some.inj heq
    split_ifs
    · exact ⟨htype, hcalm⟩
    · obtain ⟨-, hsame, hthread⟩ := frame_sendBuffer s .event
      exact ⟨hsame.trans htype, by rw [hthread]; rfl⟩
  | broken => cases he
  | thread => exact calm_threadStep htype hcalm hstep
  | write w =>
    rw [step] at hstep
    split at hstep
    · next list caller hthread =>
      obtain ⟨-, hsame, hnext⟩ := frame_writeList hstep (by rintro rfl; cases he)
      refine ⟨hsame.trans htype, ?_⟩
      rcases hnext with hnext | hnext
      · rw [hnext]
        exact hcalm
      · rw [hthread] at hcalm
        rw [hnext]
        cases caller with
        | event => rfl
        | close shutdown => exact hcalm
    · cases hstep

/-! ## While the socket is being closed -/

/-- Every message of a service is in one of the places where it can be. -/
theorem Core.listed_count (h : Core s) (p : Priority) :
    s.listed.countP (mine i p) +
      ((s.senders.flatMap Sender.stored).map WriteBuffer.buffer).countP (mine i p) +
        s.dropped.countP (mine i p) + s.piped.countP (mine i p) + (s.own i).countP (mine i p) =
      s.called.countP (mine i p) := by
  have horder := congrArg List.length (h.order i p)
  rw [← List.countP_eq_length_filter, ← List.countP_eq_length_filter] at horder
  rw [← horder]
  simp only [State.taken, State.pending, State.listed, List.countP_append, List.map_append]
  omega

theorem Gone.mono (h : Gone c i s) (hdone : s.done <+: s'.done) (hwire : s.wire <+: s'.wire) :
    Gone c i s' := by
  obtain ⟨d, hd, hw, hc⟩ := h
  exact ⟨d, hd.trans hdone, hw.trans hwire, hc⟩

/-- As many messages of the service went out as `c` has: then these are the messages of `c`,
since they went out in order. -/
theorem Closing.gone (h : Closing c i s) (hinv : Inv s) (hcovers : Covers c i s.done) :
    Gone c i s := by
  have hcore := (hinv.core h.isOpen).1
  refine ⟨s.done, List.prefix_rfl, ?_, fun p => ?_⟩
  · rw [hcore.wire]
    exact List.prefix_append ..
  · have hdone : s.done.filter (mine i p) <+: s.called.filter (mine i p) := by
      rw [← hcore.order i p, taken_eq, List.append_assoc, List.filter_append]
      exact List.prefix_append ..
    refine List.prefix_of_prefix_length_le (h.called.filter _) hdone ?_
    rw [← List.countP_eq_length_filter, ← List.countP_eq_length_filter]
    exact hcovers p

/-- Nothing of `c` is in the pipe any more. -/
theorem Closing.listed (h : Closing c i s)
    (hnot : ¬ (s.type = .connected ∧ s.thread.calm = true)) : Covers c i s.listed := by
  obtain ⟨as, rest, -, hcovers, has⟩ := h.covers
  cases as with
  | nil => rwa [List.append_nil] at hcovers
  | cons a as => exact absurd (has (List.cons_ne_nil a as)) hnot

/-- The socket thread goes on with the lists. -/
theorem Closing.turned (h : Closing c i s) (hinv : Inv s) (hinv' : Inv s') (hframe : Frame s s')
    (hopen : s'.isOpen) (hcalm : s.type = .connected → s.thread.calm = true →
      s'.type = .connected ∧ s'.thread.calm = true)
    (hshutdown : s'.thread.shutdown = false) (hlooks : Looks c i s') : Closing c i s' where
  isOpen := hopen
  called := hframe.called ▸ h.called
  noShutdown := ⟨hshutdown, hframe.pipe ▸ h.noShutdown.2⟩
  covers := by
    obtain ⟨as, rest, hpipe, hcovers, has⟩ := h.covers
    refine ⟨as, rest, hframe.pipe.trans hpipe, fun p => ?_,
      fun hne => hcalm (has hne).1 (has hne).2⟩
    have hbefore := (hinv.core h.isOpen).1.listed_count (i := i) p
    have hafter := (hinv'.core hopen).1.listed_count (i := i) p
    rw [State.piped, State.own] at hbefore
    rw [State.piped, State.own, hframe.senders, hframe.pipe, hframe.dropped,
      hframe.called] at hafter
    have hle := hcovers p
    rw [List.countP_append] at hle ⊢
    omega
  looks := hlooks

theorem looks_of_thread (h : s.thread.looks = false) : Looks c i s := by
  intro look k shutdown hth
  rw [hth] at h
  cases h

theorem looks_checking {look : Look} {k : ℕ} {shutdown : Bool}
    (hthread : s.thread = .checking look k shutdown)
    (h : (0 < k → s.high = []) ∧ (1 < k → s.low = []) ∧ (2 < k → Covers c i s.done)) :
    Looks c i s := by
  intro look' k' shutdown' hth
  obtain ⟨-, rfl, -⟩ := Thread.checking.inj (hthread.symm.trans hth)
  exact h

theorem looks_zero {look : Look} {shutdown : Bool}
    (hthread : s.thread = .checking look 0 shutdown) : Looks c i s :=
  looks_checking hthread ⟨fun hk => absurd hk (Nat.lt_irrefl 0), fun hk => absurd hk (by decide),
    fun hk => absurd hk (by decide)⟩

/-- One more field has shown that nothing waits. -/
theorem Closing.looks_succ (h : Closing c i s) {look : Look} {k : ℕ} {shutdown : Bool}
    (hthread : s.thread = .checking look k shutdown) (hread : s.reads k = true) (hk : k < 3) :
    (0 < k + 1 → s.high = []) ∧ (1 < k + 1 → s.low = []) ∧
      (2 < k + 1 → Covers c i s.done) := by
  obtain ⟨hhigh, hlow, -⟩ := h.looks look k shutdown hthread
  refine ⟨fun _ => ?_, fun hlt => ?_, fun hlt => ?_⟩
  · rcases Nat.eq_zero_or_pos k with rfl | hpos
    · exact List.isEmpty_iff.mp hread
    · exact hhigh hpos
  · rcases Nat.lt_or_ge 1 k with hgt | hle
    · exact hlow hgt
    · obtain rfl : k = 1 := by omega
      exact List.isEmpty_iff.mp hread
  · obtain rfl : k = 2 := by omega
    have hdw : s.dw = none := Option.isNone_iff_eq_none.mp hread
    have hcovers := h.listed fun hc => by
      rw [hthread] at hc
      cases hc.2
    rw [State.listed, hdw, hhigh (by decide), hlow (by decide)] at hcovers
    simpa using hcovers

/-- The socket thread goes on in `send_buffer`, or is at its end. -/
theorem Closing.flushed (h : Closing c i s) (hinv : Inv s) (hinv' : Inv s') (hframe : Frame s s')
    (htype : s'.type = s.type) {list : Priority} {caller : Caller}
    (hthread : s.thread = .flushing list caller)
    (hnext : s'.thread = .unlocking caller ∨ ∃ list', s'.thread = .flushing list' caller) :
    Closing c i s' := by
  have hsame : s'.thread.closing = false ∧ s'.thread.calm = s.thread.calm ∧
      s'.thread.shutdown = s.thread.shutdown ∧ s'.thread.looks = false := by
    rcases hnext with hnext | ⟨list', hnext⟩
    · rw [hnext, hthread]
      cases caller <;> exact ⟨rfl, rfl, rfl, rfl⟩
    · rw [hnext, hthread]
      cases caller <;> exact ⟨rfl, rfl, rfl, rfl⟩
  obtain ⟨hclosing, hcalm, hshutdown, hlooks⟩ := hsame
  exact h.turned hinv hinv' hframe ⟨fun ht => h.isOpen.1 (htype.symm.trans ht), hclosing⟩
    (fun hc hbefore => ⟨htype.trans hc, hcalm.trans hbefore⟩) (hshutdown.trans h.noShutdown.1)
    (looks_of_thread hlooks)

/-- Both lists are empty: if the socket is to be closed, this is the time. -/
theorem closing_allWritten (h : Closing c i s) (hinv : Inv s) {list : Priority} {caller : Caller}
    (hinv' : Inv (s.allWritten caller)) (hthread : s.thread = .flushing list caller)
    (hhigh : s.high = []) (hlow : s.low = []) :
    Closing c i (s.allWritten caller) ∨ Gone c i (s.allWritten caller) := by
  obtain ⟨hframe, htype, hnext⟩ := frame_allWritten s caller
  by_cases hhalf : s.type = .halfclose
  · -- nothing is in the pipe of `c`, and nothing waits, so all of it went out
    have hdw : s.dw = none := by
      have hturn := (hinv.core h.isOpen).2
      rw [Turn, hthread] at hturn
      cases list <;> exact hturn.1
    have hcovers := h.listed fun hc => by
      rw [hhalf] at hc
      cases hc.1
    rw [State.listed, hdw, hhigh, hlow] at hcovers
    exact .inr ((h.gone hinv (by simpa using hcovers)).mono hframe.done hframe.wire)
  · exact .inl (h.flushed hinv hinv' hframe htype hthread (.inl (hnext hhalf)))

theorem closing_threadStep (h : Closing c i s) (hinv : Inv s) (hinv' : Inv s')
    (hstep : s.threadStep = some s') : Closing c i s' ∨ Gone c i s' := by
  have hframe := frame_threadStep hstep
  have hshutdown := h.noShutdown.1
  rw [State.threadStep.eq_def] at hstep
  cases hthread : s.thread with
  | polling =>
    rw [hthread] at hstep
    cases hstep
  | decreasing =>
    rw [hthread] at hstep
    obtain rfl := Option.some.inj hstep
    have htype : (s.assert (s.sending ≠ 0)).type = s.type := by
      obtain ⟨f, hf⟩ := assert_cases s (s.sending ≠ 0)
      rw [hf]
    exact .inl (h.turned hinv hinv' hframe ⟨fun ht => h.isOpen.1 (htype.symm.trans ht), rfl⟩
      (fun hc _ => ⟨htype.trans hc, rfl⟩) rfl (looks_of_thread rfl))
  | flushing list caller =>
    rw [hthread] at hstep
    cases list with
    | high =>
      obtain ⟨hhigh, heq⟩ := Option.ite_none_right_eq_some.mp hstep
      obtain rfl := Option.some.inj heq
      split_ifs at hinv' hframe ⊢ with hlow
      · exact closing_allWritten h hinv hinv' hthread (List.isEmpty_iff.mp hhigh)
          (List.isEmpty_iff.mp hlow)
      · exact .inl (h.flushed hinv hinv' hframe rfl hthread (.inr ⟨.low, rfl⟩))
    | low =>
      obtain ⟨hlow, heq⟩ := Option.ite_none_right_eq_some.mp hstep
      obtain rfl := Option.some.inj heq
      have hturn := (hinv.core h.isOpen).2
      rw [Turn, hthread] at hturn
      exact closing_allWritten h hinv hinv' hthread hturn.2 (List.isEmpty_iff.mp hlow)
  | unlocking caller =>
    rw [hthread] at hstep hshutdown
    obtain rfl := Option.some.inj hstep
    cases caller with
    | event =>
      exact .inl (h.turned hinv hinv' hframe ⟨h.isOpen.1, rfl⟩ (fun hc _ => ⟨hc, rfl⟩) rfl
        (looks_of_thread rfl))
    | close shutdown =>
      refine .inl (h.turned hinv hinv' hframe ⟨h.isOpen.1, rfl⟩ (fun _ hcalm => ?_) hshutdown
        (looks_zero rfl))
      rw [hthread] at hcalm
      cases hcalm
  | checking look k shutdown =>
    have hlooks := h.looks look k shutdown hthread
    have hnot {P : Prop} (hcalm : s.thread.calm = true) : P := by
      rw [hthread] at hcalm
      cases hcalm
    rw [hthread] at hstep hshutdown
    obtain rfl : shutdown = false := hshutdown
    obtain rfl := Option.some.inj hstep
    rw [if_neg (fun hb => Bool.false_ne_true hb.2)] at hinv' hframe ⊢
    by_cases hread : s.reads k = true
    · rw [if_pos hread] at hinv' hframe ⊢
      by_cases hk : k < 3
      · rw [if_pos hk] at hinv' hframe ⊢
        exact .inl (h.turned hinv hinv' hframe ⟨h.isOpen.1, rfl⟩ (fun _ => hnot) rfl
          (looks_checking rfl (h.looks_succ hthread hread hk)))
      · rw [if_neg hk] at hinv' hframe ⊢
        cases look with
        | first =>
          exact .inl (h.turned hinv hinv' hframe ⟨h.isOpen.1, rfl⟩ (fun _ => hnot) rfl
            (looks_zero rfl))
        | second =>
          -- nothing has waited at this look, and only the socket thread takes from the lists
          exact .inr ((h.gone hinv (hlooks.2.2 (by omega))).mono hframe.done hframe.wire)
    · rw [if_neg hread] at hinv' hframe ⊢
      cases look with
      | first =>
        exact .inl (h.turned hinv hinv' hframe ⟨h.isOpen.1, rfl⟩ (fun _ => hnot) rfl
          (looks_of_thread rfl))
      | second =>
        exact .inl (h.turned hinv hinv' hframe ⟨SocketType.noConfusion, rfl⟩ (fun _ => hnot) rfl
          (looks_of_thread rfl))
  | trying shutdown =>
    have hnot {P : Prop} (hcalm : s.thread.calm = true) : P := by
      rw [hthread] at hcalm
      cases hcalm
    rw [hthread] at hstep hshutdown
    obtain rfl := Option.some.inj hstep
    split_ifs at hinv' hframe ⊢
    · exact .inl (h.turned hinv hinv' hframe ⟨h.isOpen.1, rfl⟩ (fun _ => hnot) hshutdown
        (looks_zero rfl))
    · obtain ⟨-, htype, hnext⟩ := frame_sendBuffer s (.close shutdown)
      refine .inl (h.turned hinv hinv' hframe ⟨fun ht => h.isOpen.1 (htype.symm.trans ht), ?_⟩
        (fun _ => hnot) ?_ (looks_of_thread ?_))
      · rw [hnext]
        rfl
      · rw [hnext]
        exact hshutdown
      · rw [hnext]
        rfl
  | freeing list held =>
    have hclosing := h.isOpen.2
    rw [hthread] at hclosing
    cases hclosing
  | ending held =>
    have hclosing := h.isOpen.2
    rw [hthread] at hclosing
    cases hclosing

/-- The socket thread does nothing. -/
theorem Closing.passed (h : Closing c i s) {xs : List Command} (htype : s'.type = s.type)
    (hthread : s'.thread = s.thread) (hhigh : s'.high = s.high) (hlow : s'.low = s.low)
    (hdw : s'.dw = s.dw ∨ s.dw = none) (hpipe : s'.pipe = s.pipe ++ xs)
    (hxs : ∀ b, Command.close b ∈ xs → b = false) (hcalled : s.called <+: s'.called)
    (hdone : s.done <+: s'.done) : Closing c i s' where
  isOpen := ⟨fun ht => h.isOpen.1 (htype.symm.trans ht), hthread ▸ h.isOpen.2⟩
  called := h.called.trans hcalled
  noShutdown := by
    refine ⟨hthread ▸ h.noShutdown.1, fun b hb => ?_⟩
    rw [hpipe] at hb
    exact (List.mem_append.mp hb).elim (h.noShutdown.2 b) (hxs b)
  covers := by
    obtain ⟨as, rest, hsplit, hcovers, has⟩ := h.covers
    refine ⟨as, rest ++ xs, by rw [hpipe, hsplit, List.append_assoc], fun p => ?_, ?_⟩
    · have hle := hcovers p
      have hgrow : s.done.countP (mine i p) ≤ s'.done.countP (mine i p) :=
        hdone.sublist.countP_le
      simp only [State.listed, List.countP_append, List.map_append, hhigh, hlow] at hle ⊢
      -- a direct write may store something, but only where nothing was
      rcases hdw with hdw | hdw
      · rw [hdw]
        omega
      · rw [hdw] at hle
        simp only [Option.toList_none, List.map_nil, List.countP_nil] at hle
        omega
    · rw [htype, hthread]
      exact has
  looks look k shutdown hth := by
    obtain ⟨h0, h1, h2⟩ := h.looks look k shutdown (hthread.symm.trans hth)
    rw [hhigh, hlow]
    exact ⟨h0, h1, fun hk p => Nat.le_trans (h2 hk p) hdone.sublist.countP_le⟩

theorem not_mem_nil_close (b : Bool) (h : Command.close b ∈ ([] : List Command)) : b = false :=
  absurd h List.not_mem_nil

theorem closing_senderStep (h : Closing c i s) (hinv : Inv s) {j : ℕ} {t : Sender}
    (ht : s.senders[j]? = some t) (hstep : s.senderStep j t = some s') : Closing c i s' := by
  obtain ⟨t', l, n, rfl⟩ | ⟨m, n, rfl, rfl⟩ | ⟨m, -, rfl⟩ := senderStep_cases hstep
  · exact h.passed rfl rfl rfl rfl (.inl rfl) (List.append_nil _).symm not_mem_nil_close
      List.prefix_rfl List.prefix_rfl
  · obtain ⟨-, -, hdw⟩ := (hinv.core h.isOpen).1.sender j _ ht
    exact h.passed rfl rfl rfl rfl (.inr hdw) (List.append_nil _).symm not_mem_nil_close
      List.prefix_rfl List.prefix_rfl
  · refine h.passed rfl rfl rfl rfl (.inl rfl) rfl (fun b hb => ?_) List.prefix_rfl
      List.prefix_rfl
    cases List.mem_singleton.mp hb

/-- A message comes out of the pipe: while it is one of `c`, the socket is connected, and it goes
into a list. -/
theorem Closing.sent (h : Closing c i s) (hinv : Inv s) (hinv' : Inv s') {m : Message}
    {pipe : List Command} (hpipe : s.pipe = .send m :: pipe) (hsenders : s'.senders = s.senders)
    (hrest : s'.pipe = pipe) (hcalled : s'.called = s.called) (htype : s'.type = s.type)
    (hdropped : s'.dropped = if s.type = .connected then s.dropped else s.dropped ++ [m])
    (hthread : s'.thread = .decreasing) : Closing c i s' := by
  have hopen : s'.isOpen :=
    ⟨fun ht => h.isOpen.1 (htype.symm.trans ht), by rw [hthread]; rfl⟩
  -- the message goes from the pipe to what is listed, or to what is dropped
  have hlisted (p : Priority) : s'.listed.countP (mine i p) =
      s.listed.countP (mine i p) +
        if s.type = .connected then [m].countP (mine i p) else 0 := by
    have hbefore := (hinv.core h.isOpen).1.listed_count (i := i) p
    have hafter := (hinv'.core hopen).1.listed_count (i := i) p
    rw [State.piped, State.own, hsenders, hrest, hdropped, hcalled] at hafter
    rw [Core.piped_cons hpipe, State.own, ← List.singleton_append, List.countP_append] at hbefore
    split_ifs at hafter ⊢
    · omega
    · rw [List.countP_append] at hafter
      omega
  refine ⟨hopen, hcalled ▸ h.called, ⟨by rw [hthread]; rfl, fun b hb => ?_⟩, ?_,
    looks_of_thread (by rw [hthread]; rfl)⟩
  · rw [hrest] at hb
    exact h.noShutdown.2 b (hpipe ▸ List.mem_cons_of_mem _ hb)
  · obtain ⟨as, rest, hsplit, hcovers, has⟩ := h.covers
    cases as with
    | nil =>
      refine ⟨[], pipe, hrest, fun p => ?_, fun hne => absurd rfl hne⟩
      have hle := hcovers p
      rw [List.append_nil] at hle ⊢
      rw [hlisted]
      exact Nat.le_add_right_of_le hle
    | cons a as =>
      obtain ⟨hconnected, -⟩ := has (List.cons_ne_nil a as)
      obtain ⟨hm, hpipe'⟩ := List.cons.inj (hpipe.symm.trans hsplit)
      obtain rfl := Command.send.inj hm
      refine ⟨as, rest, hrest.trans hpipe', fun p => ?_, fun _ => ⟨htype.trans hconnected, ?_⟩⟩
      · have hle := hcovers p
        rw [← List.singleton_append, List.countP_append, List.countP_append] at hle
        rw [List.countP_append, hlisted, if_pos hconnected]
        omega
      · rw [hthread]
        rfl

/-- The command to close comes out of the pipe: nothing of `c` was behind it. -/
theorem closing_close (h : Closing c i s) {b : Bool}
    {pipe : List Command} (hpipe : s.pipe = .close b :: pipe) :
    Closing c i (({ s with pipe := pipe } : State).ctrlCmd (.close b)) := by
  have hb : b = false := h.noShutdown.2 b (hpipe ▸ List.mem_cons_self ..)
  have htype : ({ s with pipe := pipe } : State).type ≠ .invalid := h.isOpen.1
  rw [State.ctrlCmd, if_neg htype]
  refine ⟨⟨h.isOpen.1, rfl⟩, h.called, ⟨hb, fun b' hb' => ?_⟩, ?_, looks_zero rfl⟩
  · exact h.noShutdown.2 b' (hpipe ▸ List.mem_cons_of_mem _ hb')
  · obtain ⟨as, rest, hsplit, hcovers, -⟩ := h.covers
    cases as with
    | nil => exact ⟨[], pipe, rfl, hcovers, fun hne => absurd rfl hne⟩
    | cons a as => cases (List.cons.inj (hpipe.symm.trans hsplit)).1

/-- A step of anybody, while the socket is being closed. -/
theorem closing_step {e : Event} (hinv : Inv s) (h : Closing c i s) (he : e.breaks = false)
    (hstep : step s e = some s') : Closing c i s' ∨ Gone c i s' := by
  have hinv' := inv_step hinv hstep
  -- what is sent after the close is appended behind it; the command itself makes the socket half
  -- closed or, with nothing waiting, ends it
  cases e with
  | send j p data =>
    obtain ⟨-, heq⟩ := Option.ite_none_right_eq_some.mp hstep
    obtain rfl := Option.some.inj heq
    rw [State.send]
    split_ifs
    · exact .inl h
    · exact .inl (h.passed rfl rfl rfl rfl (.inl rfl) (List.append_nil _).symm not_mem_nil_close
        (List.prefix_append ..) List.prefix_rfl)
  | goOn j =>
    obtain ⟨t, ht, hgo⟩ := Option.bind_eq_some_iff.mp hstep
    exact .inl (closing_senderStep h hinv ht hgo)
  | directWrite j n =>
    obtain ⟨t, -, hgo⟩ := Option.bind_eq_some_iff.mp hstep
    obtain ⟨t', w, d, rfl, hdone⟩ := directWrite_cases hgo
    exact .inl (h.passed rfl rfl rfl rfl (.inl rfl) (List.append_nil _).symm not_mem_nil_close
      List.prefix_rfl hdone)
  | close b =>
    obtain rfl := Option.some.inj hstep
    refine .inl (h.passed rfl rfl rfl rfl (.inl rfl) rfl (fun b' hb' => ?_) List.prefix_rfl
      List.prefix_rfl)
    rw [Command.close.inj (List.mem_singleton.mp hb')]
    exact he
  | command =>
    rw [step] at hstep
    split at hstep
    · next cmd pipe _ hpipe =>
      obtain rfl := Option.some.inj hstep
      cases cmd with
      | send m =>
        obtain ⟨hsenders, hrest, hcalled, htype, -, -, hdropped⟩ :=
          frame_sendSocket ({ s with pipe := pipe } : State) m
        exact .inl (h.sent hinv hinv' hpipe hsenders hrest hcalled htype hdropped rfl)
      | close b => exact .inl (closing_close h hpipe)
    · cases hstep
  | writable =>
    obtain ⟨-, heq⟩ := Option.ite_none_right_eq_some.mp hstep
    obtain rfl := Option.some.inj heq
    split_ifs at hinv' ⊢
    · exact .inl h
    · obtain ⟨hframe, htype, hnext⟩ := frame_sendBuffer s .event
      refine .inl (h.turned hinv hinv' hframe ⟨fun ht => h.isOpen.1 (htype.symm.trans ht), ?_⟩
        (fun hc _ => ⟨htype.trans hc, ?_⟩) ?_ (looks_of_thread ?_))
      all_goals
        rw [hnext]
        rfl
  | broken => cases he
  | thread => exact closing_threadStep h hinv hinv' hstep
  | write w =>
    rw [step] at hstep
    split at hstep
    · next list caller hthread =>
      obtain ⟨hframe, htype, hnext⟩ := frame_writeList hstep (by rintro rfl; cases he)
      exact .inl (h.flushed hinv hinv' hframe htype hthread
        (hnext.symm.imp id fun hth => ⟨list, hth.trans hthread⟩))
    · cases hstep

/-! ## Runs -/

/-- Nobody has asked to close the socket. -/
structure Untold (s : State) : Prop where
  type : s.type = .connected
  calm : s.thread.calm = true
  pipe : ∀ x ∈ s.pipe, ∃ m, x = Command.send m

theorem untold_step {e : Event} (h : Untold s) (he : e.breaks = false) (hcloses : e.closes = false)
    (hstep : step s e = some s') : Untold s' := by
  have hcommand : e = .command → ∃ m pipe, s.pipe = .send m :: pipe := by
    rintro rfl
    rw [step] at hstep
    split at hstep
    · next cmd pipe _ hpipe =>
      obtain ⟨m, rfl⟩ := h.pipe cmd (hpipe ▸ List.mem_cons_self ..)
      exact ⟨m, pipe, hpipe⟩
    · cases hstep
  obtain ⟨htype, hcalm⟩ := calm_step he hcommand h.type h.calm hstep
  refine ⟨htype, hcalm, fun x hx => ?_⟩
  rcases (step_grows hstep).2.2 x hx with hx | hx | ⟨b, rfl, -⟩
  · exact h.pipe x hx
  · exact hx
  · cases hcloses

theorem untold_run {n : ℕ} {es : List Event}
    (hes : ∀ e ∈ es, e.breaks = false ∧ e.closes = false)
    (hrun : run step (.init n) es = some s) : Untold s := by
  refine run_history (I := fun es s => (∀ e ∈ es, e.breaks = false ∧ e.closes = false) →
    Untold s) (fun es s e s' h hstep hes => ?_)
    (fun _ => ⟨rfl, rfl, fun _ hx => absurd hx List.not_mem_nil⟩) hrun hes
  obtain ⟨he, hcloses⟩ := hes e (List.mem_append_right _ (List.mem_singleton_self e))
  exact untold_step (h fun e' he' => hes e' (List.mem_append_left _ he')) he hcloses hstep

/-- What a service has sent, when it is not sending, is in the lists or in the pipe. -/
theorem closing_of_untold (hinv : Inv s) (h : Untold s) (hidle : s.senders[i]? = some .idle) :
    Closing s.called i s := by
  obtain ⟨hclosing, hshutdown, hlooks⟩ := Thread.of_calm h.calm
  have hopen : s.isOpen := ⟨by rw [h.type]; exact SocketType.noConfusion, hclosing⟩
  have hcore := (hinv.core hopen).1
  have hpipe : s.pipe = s.piped.map .send := by
    have hsends := h.pipe
    rw [State.piped]
    generalize s.pipe = pipe at hsends
    induction pipe with
    | nil => rfl
    | cons x pipe ih =>
      obtain ⟨m, rfl⟩ := hsends x (List.mem_cons_self ..)
      exact congrArg (Command.send m :: ·) (ih fun y hy => hsends y (List.mem_cons_of_mem _ hy))
  refine ⟨hopen, List.prefix_rfl, ⟨hshutdown, fun b hb => ?_⟩,
    ⟨s.piped, [], by rw [List.append_nil]; exact hpipe, fun p => ?_, fun _ => ⟨h.type, h.calm⟩⟩,
    looks_of_thread hlooks⟩
  · obtain ⟨m, hm⟩ := h.pipe _ hb
    cases hm
  · -- the service has nothing in hand, and what others have is theirs
    have hstored : ((s.senders.flatMap Sender.stored).map WriteBuffer.buffer).countP (mine i p) =
        0 := by
      refine List.countP_eq_zero.mpr fun m hm => ?_
      obtain ⟨b, hb, rfl⟩ := List.mem_map.mp hm
      obtain ⟨t, ht, hb⟩ := List.mem_flatMap.mp hb
      obtain ⟨j, hj⟩ := List.mem_iff_getElem?.mp ht
      cases t with
      | storing m n =>
        obtain rfl := List.mem_singleton.mp hb
        obtain ⟨hsender, -⟩ := hcore.sender j _ hj
        rw [mine, decide_eq_true_eq]
        rintro ⟨rfl, -⟩
        rw [hsender, hj] at hidle
        cases hidle
      | _ => exact absurd hb List.not_mem_nil
    have hcount := hcore.listed_count (i := i) p
    rw [hstored, hcore.dropped h.type, own_eq hidle] at hcount
    rw [List.countP_append, ← hcount]
    exact Nat.le_of_eq rfl

/-- A message that only the pipe has when the command to close comes behind it, and that is
written in two parts, the second when the socket is half closed. -/
def sentAndClosed : List Event × List Event :=
  ([.send 0 .low [1, 2], .goOn 0, .goOn 0],
    [.close false, .command, .thread, .command, .thread, .thread, .write (.took 1), .thread,
      .thread, .writable, .write (.took 1), .thread, .thread, .thread, .thread])

end SlgServer.SocketServer
