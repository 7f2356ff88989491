import SlgServer.SocketClose

/-!
# Nothing waits unseen

The socket thread takes events from the poll (`sp_wait`) and goes through them. The poll reports
that a socket is writable only if `sp_write` has asked for it. It is asked for when something
comes into empty lists and when a direct write has left something over, and it is no longer
asked for when all is written. `Poll` is the socket with what the poll is asked for and with what
it has reported; it does nothing that the socket could not do (`run_socket`).

* `no_lost_wakeup`: while something waits, the poll is asked to report the socket.
* `half_closed_for_ever`: if a close is asked for while a message of another service is on its
  way through the pipe, the socket may stay half closed: it waits for the poll to report it, and
  the poll is not asked to. Only the other side, or a second close, ends this.
-/

namespace SlgServer.SocketServer

open Machine

/-- A socket and its poll. -/
structure Poll : Type where
  socket : State
  /-- the last argument of `sp_write`: the poll is asked to report when it is writable -/
  write : Bool
  /-- the poll may have reported that it is writable, and this is not dealt with yet -/
  fetched : Bool

/-- What waits in the socket. -/
def State.waiting (s : State) : List WriteBuffer := s.dw.toList ++ s.high ++ s.low

/-- Where `sp_write` asks: in `send_socket`, when both lists are empty, and in
`socket_server_send`, when `dw_buffer` is set. -/
def State.asks (s : State) : Event → Bool
  | .command =>
      match s.pipe with
      | .send _ :: _ => s.high.isEmpty && s.low.isEmpty && decide (s.type = .connected)
      | _ => false
  | .goOn i =>
      match s.senders[i]? with
      | some (.storing _ _) => true
      | _ => false
  | _ => false

/-- Where `sp_write` asks no longer: in `send_buffer_`, when all is written. -/
def State.rests (s : State) : Event → Bool
  | .thread =>
      match s.thread with
      | .flushing _ _ => s.high.isEmpty && s.low.isEmpty
      | _ => false
  | _ => false

/-- What may happen. -/
inductive Poll.Event : Type where
  /-- `sp_wait` -/
  | wait
  /-- something that the poll does not know of, or that the socket is writable, which the poll
  has reported -/
  | socket (e : SocketServer.Event)
  deriving DecidableEq

/-- One step. -/
def Poll.step (p : Poll) : Poll.Event → Option Poll
  | .wait => if p.socket.thread = .polling then some { p with fetched := p.write } else none
  | .socket e =>
      if e = .writable ∧ p.fetched = false then none
      else
        (SocketServer.step p.socket e).map fun s => {
          socket := s
          write := if p.socket.asks e then true else if p.socket.rests e then false else p.write
          fetched := if e = .writable then false else p.fetched }

/-- A socket that has just connected. -/
def Poll.init (n : ℕ) : Poll := ⟨.init n, false, false⟩

variable {s s' : State} {p p' : Poll}

theorem Poll.step_socket {e : SocketServer.Event} (hstep : p.step (.socket e) = some p') :
    (e = .writable → p.fetched = true) ∧ SocketServer.step p.socket e = some p'.socket ∧
      p'.write = (if p.socket.asks e then true else if p.socket.rests e then false
        else p.write) ∧ (p.fetched = false → p'.fetched = false) := by
  obtain ⟨hblocked, heq⟩ := Option.ite_none_left_eq_some.mp hstep
  obtain ⟨s, hs, rfl⟩ := Option.map_eq_some_iff.mp heq
  refine ⟨fun he => ?_, hs, rfl, fun hf => ?_⟩
  · cases hf : p.fetched with
    | true => rfl
    | false => exact absurd ⟨he, hf⟩ hblocked
  · dsimp only
    split_ifs
    · rfl
    · exact hf

theorem Poll.step_wait (hstep : p.step .wait = some p') :
    p' = { p with fetched := p.write } := by
  obtain ⟨-, heq⟩ := Option.ite_none_right_eq_some.mp hstep
  exact (Option.some.inj heq).symm

/-- The step of the socket, if it is one. -/
def Poll.Event.steps : Poll.Event → List SocketServer.Event
  | .wait => []
  | .socket e => [e]

/-- What the socket does, it can do also without the poll. -/
theorem run_socket {es : List Poll.Event} (hrun : run Poll.step p es = some p') :
    ∃ ds, run step p.socket ds = some p'.socket := by
  refine run_simulation (f := Poll.socket) (g := fun _ => Poll.Event.steps)
    (fun p e p' hstep => ?_) hrun
  cases e with
  | wait =>
    rw [Poll.step_wait hstep]
    rfl
  | socket e =>
    rw [Poll.Event.steps, run_cons, (Poll.step_socket hstep).2.1]
    rfl

/-! ## No wakeup is lost -/

theorem waiting_eq_nil : s.waiting = [] ↔ s.dw = none ∧ s.high = [] ∧ s.low = [] := by
  rw [State.waiting, List.append_eq_nil_iff, List.append_eq_nil_iff, and_assoc,
    Option.toList_eq_nil_iff]

theorem waiting_allWritten (s : State) (caller : Caller) :
    (s.allWritten caller).waiting = s.waiting := by
  rw [State.allWritten.eq_def]
  obtain ⟨f, hf⟩ := assert_cases s (s.high.isEmpty ∧ s.low.isEmpty ∧ s.wbSize = 0)
  rw [hf]
  dsimp only
  split_ifs <;> rfl

theorem waiting_sendBuffer (hnil : s.waiting = []) (caller : Caller) :
    (s.sendBuffer caller).waiting = [] := by
  obtain ⟨hdw, hhigh, hlow⟩ := waiting_eq_nil.mp hnil
  rw [State.sendBuffer, hdw]
  dsimp only
  obtain ⟨f, hf⟩ := assert_cases s (listUncomplete s.low = false)
  rw [hf]
  exact hnil

/-- The socket thread by itself puts nothing where nothing is. -/
theorem waiting_threadStep (hnil : s.waiting = []) (hstep : s.threadStep = some s') :
    s'.waiting = [] := by
  obtain ⟨hdw, hhigh, hlow⟩ := waiting_eq_nil.mp hnil
  rw [State.threadStep.eq_def] at hstep
  cases hthread : s.thread with
  | polling =>
    rw [hthread] at hstep
    cases hstep
  | decreasing =>
    rw [hthread] at hstep
    obtain rfl := Option.some.inj hstep
    obtain ⟨f, hf⟩ := assert_cases s (s.sending ≠ 0)
    rw [hf]
    exact hnil
  | flushing list caller =>
    rw [hthread] at hstep
    cases list with
    | high =>
      obtain ⟨-, heq⟩ := Option.ite_none_right_eq_some.mp hstep
      obtain rfl := Option.some.inj heq
      split_ifs
      · exact (waiting_allWritten s caller).trans hnil
      · exact hnil
    | low =>
      obtain ⟨-, heq⟩ := Option.ite_none_right_eq_some.mp hstep
      obtain rfl := Option.some.inj heq
      exact (waiting_allWritten s caller).trans hnil
  | unlocking caller =>
    rw [hthread] at hstep
    obtain rfl := Option.some.inj hstep
    exact hnil
  | checking look k shutdown =>
    rw [hthread] at hstep
    obtain rfl := Option.some.inj hstep
    cases look <;> split_ifs <;> exact hnil
  | trying shutdown =>
    rw [hthread] at hstep
    obtain rfl := Option.some.inj hstep
    split_ifs
    · exact hnil
    · exact waiting_sendBuffer hnil (.close shutdown)
  | freeing list held =>
    rw [hthread] at hstep
    cases list with
    | high =>
      obtain rfl := Option.some.inj hstep
      exact waiting_eq_nil.mpr ⟨hdw, rfl, hlow⟩
    | low =>
      obtain rfl := Option.some.inj hstep
      exact waiting_eq_nil.mpr ⟨hdw, hhigh, rfl⟩
  | ending held =>
    rw [hthread] at hstep
    obtain ⟨-, heq⟩ := Option.ite_none_right_eq_some.mp hstep
    obtain rfl := Option.some.inj heq
    exact waiting_eq_nil.mpr ⟨rfl, hhigh, hlow⟩

/-- When something begins to wait, the poll is asked. -/
theorem waiting_step {e : Event} (hnil : s.waiting = []) (hasks : s.asks e = false)
    (hstep : step s e = some s') : s'.waiting = [] := by
  obtain ⟨hdw, hhigh, hlow⟩ := waiting_eq_nil.mp hnil
  cases e with
  | send i p data =>
    obtain ⟨-, heq⟩ := Option.ite_none_right_eq_some.mp hstep
    obtain rfl := Option.some.inj heq
    rw [State.send]
    split_ifs <;> exact hnil
  | goOn i =>
    obtain ⟨t, ht, hgo⟩ := Option.bind_eq_some_iff.mp hstep
    obtain ⟨t', l, n, rfl⟩ | ⟨m, n, rfl, rfl⟩ | ⟨m, -, rfl⟩ := senderStep_cases hgo
    · exact hnil
    · -- `dw_buffer` is set, and the poll is asked
      rw [State.asks, ht] at hasks
      cases hasks
    · exact hnil
  | directWrite i n =>
    obtain ⟨t, -, hgo⟩ := Option.bind_eq_some_iff.mp hstep
    obtain ⟨t', w, d, rfl, -⟩ := directWrite_cases hgo
    exact hnil
  | close b =>
    obtain rfl := Option.some.inj hstep
    exact hnil
  | command =>
    rw [step] at hstep
    split at hstep
    · next cmd pipe _ hpipe =>
      obtain rfl := Option.some.inj hstep
      cases cmd with
      | send m =>
        -- an open socket with empty lists would ask
        have hclosed : ¬ s.type = .connected := fun hconnected => by
          rw [State.asks, hpipe] at hasks
          simp [hhigh, hlow, hconnected] at hasks
        have hdrop : ({ s with pipe := pipe } : State).sendSocket m =
            { s with pipe := pipe, dropped := s.dropped ++ [m] } := if_neg hclosed
        rw [State.ctrlCmd, hdrop]
        exact hnil
      | close b =>
        rw [State.ctrlCmd]
        split_ifs <;> exact hnil
    · cases hstep
  | writable =>
    obtain ⟨-, heq⟩ := Option.ite_none_right_eq_some.mp hstep
    obtain rfl := Option.some.inj heq
    split_ifs
    · exact hnil
    · exact waiting_sendBuffer hnil .event
  | broken =>
    obtain ⟨-, heq⟩ := Option.ite_none_right_eq_some.mp hstep
    obtain rfl := Option.some.inj heq
    exact hnil
  | thread => exact waiting_threadStep hnil hstep
  | write w =>
    rw [step] at hstep
    split at hstep
    · next list caller _ =>
      -- there is nothing to write
      have hlist : s.list list = [] := by
        cases list
        · exact hhigh
        · exact hlow
      rw [State.writeList.eq_def, hlist] at hstep
      cases hstep
    · cases hstep

/-- When all is written, nothing waits. -/
theorem waiting_of_rests {e : Event} (hinv : Inv s) (hrests : s.rests e = true)
    (hstep : step s e = some s') : s'.waiting = [] := by
  cases e with
  | thread =>
    rw [State.rests] at hrests
    split at hrests
    · next list caller hthread =>
      obtain ⟨hhigh, hlow⟩ := Bool.and_eq_true_iff.mp hrests
      have hturn := (hinv.core (hinv.flushing hthread).1).2
      rw [Turn, hthread] at hturn
      refine waiting_threadStep (waiting_eq_nil.mpr ⟨?_, List.isEmpty_iff.mp hhigh,
        List.isEmpty_iff.mp hlow⟩) hstep
      cases list <;> exact hturn.1
    · cases hrests
  | _ => cases hrests

/-- A direct write is cut short while the socket thread is at rest. -/
def cutShort : List Poll.Event :=
  (Event.send 0 .high [1, 2] :: List.replicate 11 (Event.goOn 0) ++
    [Event.directWrite 0 1, .goOn 0]).map .socket

/-- Whether a direct write is under way. -/
def Sender.writes : Sender → Bool
  | .writing _ => true
  | .storing _ _ => true
  | _ => false

/-- The socket is half closed, and nobody will look at it any more. -/
structure Stuck (p : Poll) : Prop where
  type : p.socket.type = .halfclose
  thread : p.socket.thread = .polling ∨ p.socket.thread = .decreasing
  write : p.write = false
  fetched : p.fetched = false
  pipe : ∀ x ∈ p.socket.pipe, ∃ m, x = Command.send m
  senders : ∀ t ∈ p.socket.senders, t.writes = false

/-- What the services do then comes to nothing. -/
theorem stuck_senderStep {i : ℕ} {t : Sender} (htype : s.type = .halfclose)
    (ht : s.senders[i]? = some t) (hsenders : ∀ u ∈ s.senders, u.writes = false)
    (hstep : s.senderStep i t = some s') :
    s'.type = .halfclose ∧ s'.thread = s.thread ∧ ∀ u ∈ s'.senders, u.writes = false := by
  have hset {t' : Sender} (ht' : t'.writes = false) :
      ∀ u ∈ s.senders.set i t', u.writes = false := fun u hu =>
    (List.mem_or_eq_of_mem_set hu).elim (hsenders u) fun he => he ▸ ht'
  cases t with
  | idle => cases hstep
  | looking m look k =>
    obtain rfl := Option.some.inj hstep
    refine ⟨htype, rfl, hset ?_⟩
    by_cases hread : s.reads k = true
    · rw [if_pos hread]
      by_cases hk : k < 4
      · rw [if_pos hk]
        rfl
      · -- the type is looked at last
        obtain ⟨j, rfl⟩ : ∃ j, k = j + 4 := ⟨k - 4, by omega⟩
        have hconnected : s.type = .connected := of_decide_eq_true hread
        rw [htype] at hconnected
        cases hconnected
    · rw [if_neg hread]
      cases look <;> rfl
  | locking m =>
    obtain rfl := Option.some.inj hstep
    split_ifs
    · exact ⟨htype, rfl, hset rfl⟩
    · exact ⟨htype, rfl, hset rfl⟩
  | writing m => cases hstep
  | storing m n =>
    have hwrites := hsenders _ (List.mem_of_getElem? ht)
    cases hwrites
  | increasing m =>
    obtain ⟨-, heq⟩ := Option.ite_none_left_eq_some.mp hstep
    obtain rfl := Option.some.inj heq
    exact ⟨htype, rfl, hset rfl⟩
  | _ =>
    obtain rfl := Option.some.inj hstep
    exact ⟨htype, rfl, hset rfl⟩

theorem stuck_step {e : Event} (h : Stuck p) (he : e ≠ .broken ∧ e.closes = false)
    (hstep : p.step (.socket e) = some p') : Stuck p' := by
  obtain ⟨hwritable, hsocket, hnext, hfetched⟩ := Poll.step_socket hstep
  have hfetched := hfetched h.fetched
  have hpipe : ∀ x ∈ p'.socket.pipe, ∃ m, x = Command.send m := by
    intro x hx
    rcases (step_grows hsocket).2.2 x hx with hx | hx | ⟨b, rfl, -⟩
    · exact h.pipe x hx
    · exact hx
    · cases he.2
  have hoff (hasks : p.socket.asks e = false) : p'.write = false := by
    rw [hnext, hasks, if_neg Bool.false_ne_true]
    split
    · rfl
    · exact h.write
  have hquiet {list : Priority} {caller : Caller} : p.socket.thread ≠ .flushing list caller := by
    intro hthread
    rcases h.thread with ht | ht
    · cases ht.symm.trans hthread
    · cases ht.symm.trans hthread
  cases e with
  | send i q data =>
    obtain ⟨-, heq⟩ := Option.ite_none_right_eq_some.mp hsocket
    have hsent := (Option.some.inj heq).symm
    rw [State.send, if_neg (by rw [h.type]; exact SocketType.noConfusion)] at hsent
    refine ⟨by rw [hsent]; exact h.type, by rw [hsent]; exact h.thread, hoff rfl, hfetched,
      hpipe, ?_⟩
    rw [hsent]
    intro u hu
    rcases List.mem_or_eq_of_mem_set hu with hu | rfl
    · exact h.senders u hu
    · cases q <;> rfl
  | goOn i =>
    obtain ⟨t, ht, hgo⟩ := Option.bind_eq_some_iff.mp hsocket
    obtain ⟨htype, hthread, hsenders⟩ := stuck_senderStep h.type ht h.senders hgo
    refine ⟨htype, by rw [hthread]; exact h.thread, hoff ?_, hfetched, hpipe, hsenders⟩
    have hwrites := h.senders t (List.mem_of_getElem? ht)
    rw [State.asks, ht]
    cases t with
    | storing m n => cases hwrites
    | _ => rfl
  | directWrite i n =>
    obtain ⟨t, ht, hgo⟩ := Option.bind_eq_some_iff.mp hsocket
    have hwrites := h.senders t (List.mem_of_getElem? ht)
    cases t with
    | writing m => cases hwrites
    | _ => cases hgo
  | close b => cases he.2
  | command =>
    have hasks : p.socket.asks .command = false := by
      rw [State.asks]
      split
      · simp [h.type]
      · rfl
    rw [step] at hsocket
    split at hsocket
    · next cmd pipe _ heq =>
      obtain ⟨m, rfl⟩ := h.pipe cmd (heq ▸ List.mem_cons_self ..)
      -- what still comes through the pipe is dropped
      have hdrop : ({ p.socket with pipe := pipe } : State).sendSocket m =
          { p.socket with pipe := pipe, dropped := p.socket.dropped ++ [m] } :=
        if_neg (by rw [h.type]; exact SocketType.noConfusion)
      have hsent := (Option.some.inj hsocket).symm
      rw [State.ctrlCmd, hdrop] at hsent
      refine ⟨by rw [hsent]; exact h.type, ?_, hoff hasks, hfetched, hpipe,
        by rw [hsent]; exact h.senders⟩
      rw [hsent]
      exact .inr rfl
    · cases hsocket
  | writable =>
    have hon := hwritable rfl
    rw [h.fetched] at hon
    cases hon
  | broken => exact absurd rfl he.1
  | thread =>
    rcases h.thread with hthread | hthread
    · rw [step, State.threadStep.eq_def, hthread] at hsocket
      cases hsocket
    · have hasks : p.socket.asks .thread = false := rfl
      rw [step, State.threadStep.eq_def, hthread] at hsocket
      have hsent := (Option.some.inj hsocket).symm
      obtain ⟨f, hf⟩ := assert_cases p.socket (p.socket.sending ≠ 0)
      rw [hf] at hsent
      refine ⟨by rw [hsent]; exact h.type, ?_, hoff hasks, hfetched, hpipe,
        by rw [hsent]; exact h.senders⟩
      rw [hsent]
      exact .inl rfl
  | write w =>
    rw [step] at hsocket
    split at hsocket
    · next hthread => exact absurd hthread hquiet
    · cases hsocket

/-- What the services and the poll may do: the connection does not break, and no second close
is asked for. -/
def Poll.Event.lasts : Poll.Event → Prop
  | .wait => True
  | .socket e => e ≠ .broken ∧ e.closes = false

/-- A socket that is stuck half closed is not closed any more: as long as the connection does not
break and no second close is asked for, it stays half closed, whatever services still send is
dropped, and the poll is not asked to report it. -/
theorem half_closed_for_ever {fs : List Poll.Event} (h : Stuck p)
    (hrun : run Poll.step p fs = some p') (hfs : ∀ e ∈ fs, e.lasts) :
    p'.socket.type = .halfclose ∧ p'.write = false := by
  have hend : Stuck p' := by
    refine run_history (I := fun fs p' => (∀ e ∈ fs, Poll.Event.lasts e) → Stuck p')
      (fun fs q e q' hq hstep hfs => ?_) (fun _ => h) hrun hfs
    have hstuck := hq fun e' he' => hfs e' (List.mem_append_left _ he')
    have he := hfs e (List.mem_append_right _ (List.mem_singleton_self e))
    cases e with
    | wait =>
      rw [Poll.step_wait hstep]
      exact { hstuck with fetched := hstuck.write }
    | socket e => exact stuck_step hstuck he hstep
  exact ⟨hend.type, hend.write⟩

/-- A message is counted when the close is asked for, and comes through the pipe only when the
socket is half closed. -/
def lateMessage : List Poll.Event :=
  ([Event.send 0 .low [1], .goOn 0, .close false, .command] ++
    List.replicate 11 Event.thread ++ [Event.goOn 0, .command, .thread]).map .socket ++
      [Poll.Event.wait]

theorem half_closed_for_ever_lateMessage :
    ∃ p, run Poll.step (.init 1) lateMessage = some p ∧ p.socket.pipe = [] ∧
      p.socket.senders = [.idle] ∧
      ∀ fs p', run Poll.step p fs = some p' → (∀ e ∈ fs, Poll.Event.lasts e) →
        p'.socket.type = .halfclose ∧ p'.write = false := by
  have h := Option.some_get (rfl : (run Poll.step (.init 1) lateMessage).isSome = true)
  have hstuck : Stuck ((run Poll.step (.init 1) lateMessage).get rfl) :=
    ⟨rfl, .inl rfl, rfl, rfl, fun _ hx => absurd hx List.not_mem_nil, fun t ht => by
      rw [List.mem_singleton.mp ht]; rfl⟩
  exact ⟨_, h.symm, rfl, rfl, fun fs p' hrun hfs => half_closed_for_ever hstuck hrun hfs⟩

end SlgServer.SocketServer
