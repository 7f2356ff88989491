import SlgServer.Gate

/-!
# What the watchdog is told of a socket

`Phase.next` says in which order the gate does things for a socket: it tells the watchdog
that a client has come, hands over packages until the client is kicked, is closed or fails,
and tells of the end. In every run it keeps to this (`outputs_in_order`).
-/

namespace SlgServer.Gate

open Netpack
open RobotNet (Bytes wire)

/-- Where a socket stands. -/
inductive Phase : Type where
  /-- it has not come -/
  | unknown
  /-- it is a client -/
  | connected
  /-- it is a client that was kicked -/
  | kicked
  /-- it was turned away -/
  | refused
  /-- it was a client -/
  | past
  deriving DecidableEq

/-- What may be done for a socket, and where it stands then. -/
def Phase.next : Phase → Output → Option Phase
  | .unknown, .unknown _ | .unknown, .nodelay _ => some .unknown
  | .unknown, .report (.open _) => some .connected
  | .unknown, .shut _ => some .refused
  | .connected, .report (.data _ _) | .connected, .redirect _ _ _ _ | .connected, .start _
  | .connected, .report (.warning _ _) => some .connected
  | .connected, .shut _ => some .kicked
  | .connected, .report (.close _) | .connected, .report (.error _) => some .past
  | .kicked, .drop _ _ | .kicked, .report (.warning _ _) => some .kicked
  | .kicked, .report (.close _) | .kicked, .report (.error _) => some .past
  | .refused, .drop _ _ | .refused, .unknown _ | .refused, .report (.close _)
  | .refused, .report (.error _) | .refused, .report (.warning _ _) => some .refused
  | .past, .unknown _ | .past, .report (.close _) | .past, .report (.error _)
  | .past, .report (.warning _ _) => some .past
  | _, _ => none

/-- The socket of a report. -/
def Report.fd : Report → ℕ
  | .open fd | .data fd _ | .close fd | .error fd | .warning fd _ => fd

/-- The socket of an output. -/
def Output.fd : Output → ℕ
  | .report r => r.fd
  | .redirect _ _ fd _ | .drop fd _ | .raised fd _ | .unknown fd | .start fd | .nodelay fd
  | .shut fd => fd

/-- What the gate has done for a socket. -/
def State.outputs (s : State) (fd : ℕ) : List Output := s.out.filter fun o => o.fd = fd

/-- The tables of the gate say where a socket stands. -/
def State.At (s : State) (fd : ℕ) : Phase → Prop
  | .unknown => s.life fd = .unused
  | .connected => s.connection fd = some true
  | .kicked => s.connection fd = some false
  | .refused => s.connection fd = none ∧ s.life fd ≠ .unused
  | .past => s.connection fd = none ∧ s.life fd = .past

/-- An event that concerns one socket, and takes it to another phase if it takes it anywhere. -/
structure Moves (s s' : State) (fd : ℕ) (os : List Output) : Prop where
  out : s'.out = s.out ++ os
  about : ∀ o ∈ os, o.fd = fd
  others : ∀ fd', fd' ≠ fd → s'.connection fd' = s.connection fd' ∧ s'.life fd' = s.life fd'
  next : s.socket ≠ some fd → ∀ p, s.At fd p → ∃ p', os.foldlM Phase.next p = some p' ∧ s'.At fd p'

theorem fd_outcome (s : State) (fd : ℕ) (msg : Bytes) : (s.outcome fd msg).fd = fd := by
  rw [State.outcome]
  by_cases hclient : s.connection fd = some true
  · rw [if_pos hclient]
    rcases s.conns fd with _ | ⟨_ | agent, client⟩ <;> rfl
  · rw [if_neg hclient]
    rfl

/-- Only packages of clients are sent to the watchdog. -/
theorem outcome_eq_report {s : State} {fd : ℕ} {msg : Bytes} {r : Report}
    (h : s.outcome fd msg = .report r) : s.connection fd = some true ∧ r = .data fd msg := by
  rw [State.outcome] at h
  split_ifs at h with hclient
  refine ⟨hclient, ?_⟩
  rcases hconns : s.conns fd with _ | ⟨_ | agent, client⟩
  · rw [hconns] at h
    cases h
  · rw [hconns] at h
    exact (Output.report.inj h).symm
  · rw [hconns] at h
    cases h

/-- A package leaves a live socket where it stands. -/
theorem next_outcome {s : State} (hI : Inv s) {fd : ℕ} (hlive : s.life fd = .live) {p : Phase}
    (hp : s.At fd p) (msg : Bytes) : p.next (s.outcome fd msg) = some p := by
  rw [State.outcome]
  cases p with
  | unknown => exact Life.noConfusion (hlive.symm.trans hp)
  | connected =>
    have hp : s.connection fd = some true := hp
    have hconns : s.conns fd ≠ none := by
      rw [Ne, ← hI.clients.conns, hp]
      exact Option.some_ne_none true
    rw [if_pos hp]
    rcases h : s.conns fd with _ | ⟨_ | agent, client⟩
    · exact absurd h hconns
    · rfl
    · rfl
  | kicked =>
    have hp : s.connection fd = some false := hp
    rw [hp, if_neg (by simp)]
    rfl
  | refused =>
    rw [hp.1, if_neg (by simp)]
    rfl
  | past => exact Life.noConfusion (hlive.symm.trans hp.2)

theorem foldlM_outcome {s : State} (hI : Inv s) {fd : ℕ} (hlive : s.life fd = .live) {p : Phase}
    (hp : s.At fd p) (packs : List Bytes) :
    (packs.map (s.outcome fd)).foldlM Phase.next p = some p := by
  induction packs with
  | nil => rfl
  | cons pack packs ih =>
    rw [List.map_cons, List.foldlM_cons, next_outcome hI hlive hp]
    exact ih

theorem Moves.single {s s' : State} {fd : ℕ} {o : Output} (hout : s'.out = s.out ++ [o])
    (ho : o.fd = fd)
    (hothers : ∀ fd', fd' ≠ fd → s'.connection fd' = s.connection fd' ∧ s'.life fd' = s.life fd')
    (hnext : s.socket ≠ some fd → ∀ p, s.At fd p → ∃ p', p.next o = some p' ∧ s'.At fd p') :
    Moves s s' fd [o] := by
  refine ⟨hout, fun o' ho' => List.mem_singleton.mp ho' ▸ ho, hothers, fun hfd p hp => ?_⟩
  obtain ⟨p', hp', hat⟩ := hnext hfd p hp
  exact ⟨p', by rw [List.foldlM_cons, hp']; rfl, hat⟩

theorem Moves.none {s s' : State} {fd : ℕ} (hout : s'.out = s.out)
    (hothers : ∀ fd', fd' ≠ fd → s'.connection fd' = s.connection fd' ∧ s'.life fd' = s.life fd')
    (hnext : s.socket ≠ some fd → ∀ p, s.At fd p → s'.At fd p) : Moves s s' fd [] :=
  ⟨hout.trans (List.append_nil _).symm, fun _ h => absurd h List.not_mem_nil, hothers,
    fun hfd p hp => ⟨p, rfl, hnext hfd p hp⟩⟩

/-- The end of a socket. -/
theorem next_gone {s : State} {fd : ℕ} {r : Report} (hr : r = .close fd ∨ r = .error fd)
    (hused : s.life fd ≠ .unused) {p : Phase} (hp : s.At fd p) :
    ∃ p', p.next (.report r) = some p' ∧
      State.At { s.gone fd r with life := Function.update s.life fd .past } fd p' := by
  have hnone : (s.gone fd r).connection fd = none := Function.update_self ..
  have hover : Function.update s.life fd .past fd = .past := Function.update_self ..
  have hused' : Function.update s.life fd .past fd ≠ .unused := fun h =>
    Life.noConfusion (hover.symm.trans h)
  cases p with
  | unknown => exact absurd hp hused
  | refused => rcases hr with rfl | rfl <;> exact ⟨.refused, rfl, hnone, hused'⟩
  | connected | kicked | past => rcases hr with rfl | rfl <;> exact ⟨.past, rfl, hnone, hover⟩

/-- What the tables say leaves no choice. -/
theorem at_unknown {s : State} (hI : Inv s) {fd : ℕ} (hfd : s.life fd = .unused) {p : Phase}
    (hp : s.At fd p) : p = .unknown := by
  have hnone := hI.clients.not_client hfd
  cases p with
  | unknown => rfl
  | connected | kicked => exact absurd (hnone.symm.trans hp) (Option.some_ne_none _).symm
  | refused => exact absurd hfd hp.2
  | past => exact Life.noConfusion (hfd.symm.trans hp.2)

theorem at_connected {s : State} (hI : Inv s) {fd : ℕ} (hfd : s.connection fd = some true)
    {p : Phase} (hp : s.At fd p) : p = .connected := by
  have hclient : s.connection fd ≠ none := hfd ▸ Option.some_ne_none true
  cases p with
  | unknown => exact absurd (hI.clients.not_client hp) hclient
  | connected => rfl
  | kicked => exact absurd (Option.some.inj (hfd.symm.trans hp)) (by decide)
  | refused | past => exact absurd hp.1 hclient

theorem foldlM_welcome (s : State) (fd : ℕ) :
    (s.welcome fd).foldlM Phase.next .unknown = some .connected := by
  rw [State.welcome]
  split_ifs <;> rfl

theorem fd_welcome {s : State} {fd : ℕ} {o : Output} (ho : o ∈ s.welcome fd) : o.fd = fd := by
  rw [State.welcome] at ho
  rcases List.mem_append.mp ho with h | h
  · split_ifs at h
    · rw [List.mem_singleton.mp h]
      rfl
    · cases h
  · rw [List.mem_singleton.mp h]
    rfl

theorem moves_step {s s' : State} {e : Event} (hI : Inv s) (h : step s e = some s') :
    ∃ fd os, Moves s s' fd os := by
  have hupdate {α : Type} (f : ℕ → α) (fd : ℕ) (a : α) (fd' : ℕ) (hne : fd' ≠ fd) :
      Function.update f fd a fd' = f fd' := Function.update_of_ne hne ..
  -- a step is about one socket; the stage of every other is what it was
  cases step_effect hI.kept.distinct hI.kept.waiting h with
  | @data fd buffer hlive =>
    refine ⟨fd, _, rfl, fun o ho => ?_, fun _ _ => ⟨rfl, rfl⟩,
      fun _ p hp => ⟨p, foldlM_outcome hI hlive hp _, hp⟩⟩
    obtain ⟨pack, -, rfl⟩ := List.mem_map.mp ho
    exact fd_outcome s fd pack
  | nothing => exact ⟨0, [], Moves.none rfl (fun _ _ => ⟨rfl, rfl⟩) fun _ _ hp => hp⟩
  | @warning fd size hused =>
    refine ⟨fd, _, Moves.single rfl rfl (fun _ _ => ⟨rfl, rfl⟩) fun _ p hp => ⟨p, ?_, hp⟩⟩
    cases p with
    | unknown => exact absurd hp hused
    | connected | kicked | refused | past => rfl
  | @closing fd hfd =>
    exact ⟨fd, _, Moves.single rfl rfl (fun _ _ => ⟨rfl, rfl⟩) fun hne => absurd hfd hne⟩
  | @unbound fd hfd =>
    exact ⟨fd, [], Moves.none rfl (fun fd' hne => ⟨rfl, hupdate _ _ _ _ hne⟩)
      fun hne => absurd hfd hne⟩
  | @failed fd hfd =>
    exact ⟨fd, _, Moves.single rfl rfl (fun fd' hne => ⟨rfl, hupdate _ _ _ _ hne⟩)
      fun hne => absurd hfd hne⟩
  | @gone fd e r he hfd hused =>
    have hr : r = .close fd ∨ r = .error fd := he.imp And.right And.right
    refine ⟨fd, _, Moves.single rfl ?_
      (fun fd' hne => ⟨hupdate _ _ _ _ hne, hupdate _ _ _ _ hne⟩)
      fun _ p hp => next_gone hr hused hp⟩
    rcases hr with rfl | rfl <;> rfl
  | @refused fd hfd hfull =>
    refine ⟨fd, _, Moves.single rfl rfl (fun fd' hne => ⟨rfl, hupdate _ _ _ _ hne⟩)
      fun _ p hp => ⟨.refused, ?_, hI.clients.not_client hfd, ?_⟩⟩
    · rw [at_unknown hI hfd hp]
      rfl
    · dsimp only
      rw [Function.update_self]
      exact fun h => Life.noConfusion h
  | @taken fd hfd hless =>
    refine ⟨fd, _, rfl, fun o ho => fd_welcome ho,
      fun fd' hne => ⟨hupdate _ _ _ _ hne, hupdate _ _ _ _ hne⟩,
      fun _ p hp => ⟨.connected, ?_, Function.update_self ..⟩⟩
    rw [at_unknown hI hfd hp, foldlM_welcome]
  | @unknown fd e he hfd =>
    refine ⟨fd, _, Moves.single rfl rfl (fun _ _ => ⟨rfl, rfl⟩) fun _ p hp => ⟨p, ?_, hp⟩⟩
    -- `unknown` is only said of a socket that gateserver has no connection of
    have hnone := (hI.clients.conns fd).mpr hfd
    cases p with
    | unknown | refused | past => rfl
    | connected | kicked => exact absurd (hnone.symm.trans hp) (Option.some_ne_none _).symm
  | @remembered fd e c he hfd =>
    have hclient : s.connection fd ≠ none := fun h => hfd ((hI.clients.conns fd).mp h)
    -- `openclient` does nothing with a connection that is kicked
    by_cases hconnected : s.connection fd = some true
    · rw [if_pos hconnected]
      refine ⟨fd, _, Moves.single rfl rfl (fun _ _ => ⟨rfl, rfl⟩) fun _ p hp => ⟨p, ?_, hp⟩⟩
      rw [at_connected hI hconnected hp]
      rfl
    · rw [if_neg hconnected, List.append_nil]
      exact ⟨fd, [], Moves.none rfl (fun _ _ => ⟨rfl, rfl⟩) fun _ _ hp => hp⟩
  | @kicked fd hfd =>
    refine ⟨fd, _, Moves.single rfl rfl (fun fd' hne => ⟨hupdate _ _ _ _ hne, rfl⟩)
      fun _ p hp => ⟨.kicked, ?_, Function.update_self ..⟩⟩
    rw [at_connected hI hfd hp]
    rfl

/-- After a run, what was done for a socket took it where the tables say it stands. -/
structure InOrder (socket maxclient : ℕ) (s : State) : Prop where
  inv : Inv s
  listens : ∀ fd, s.socket = some fd → fd = socket
  max : s.maxclient = maxclient
  phase : ∀ fd, fd ≠ socket →
    ∃ p, (s.outputs fd).foldlM Phase.next .unknown = some p ∧ s.At fd p

theorem InOrder.step {socket maxclient : ℕ} {s s' : State} {e : Event}
    (hs : InOrder socket maxclient s) (h : step s e = some s') : InOrder socket maxclient s' := by
  have hI := hs.inv
  have hkeeps : (∀ fd, s'.socket = some fd → s.socket = some fd) ∧ s'.maxclient = s.maxclient := by
    cases step_effect hI.kept.distinct hI.kept.waiting h with
    | unbound => exact ⟨fun fd h => absurd h (Option.some_ne_none fd).symm, rfl⟩
    | data | nothing | closing | warning | failed | gone | refused | taken | unknown | remembered
    | kicked => exact ⟨fun _ h => h, rfl⟩
  obtain ⟨fd', os, hmoves⟩ := moves_step hI h
  refine ⟨hI.step h, fun fd hfd => hs.listens fd (hkeeps.1 fd hfd), hkeeps.2.trans hs.max,
    fun fd hfd => ?_⟩
  obtain ⟨p, hp, hat⟩ := hs.phase fd hfd
  rw [State.outputs, hmoves.out, List.filter_append, List.foldlM_append, ← State.outputs, hp]
  rcases eq_or_ne fd fd' with rfl | hne
  · have hall : os.filter (fun o => o.fd = fd) = os :=
      List.filter_eq_self.mpr fun o ho => decide_eq_true (hmoves.about o ho)
    rw [hall]
    exact hmoves.next (fun h => hfd (hs.listens fd h)) p hat
  · have hnone : os.filter (fun o => o.fd = fd) = [] := by
      refine List.filter_eq_nil_iff.mpr fun o ho h => hne ?_
      rw [← hmoves.about o ho]
      exact (of_decide_eq_true h).symm
    obtain ⟨hconnection, hlife⟩ := hmoves.others fd hne
    rw [hnone]
    refine ⟨p, rfl, ?_⟩
    cases p with
    | unknown => exact hlife.trans hat
    | connected | kicked => exact hconnection.trans hat
    | refused => exact ⟨hconnection.trans hat.1, hlife ▸ hat.2⟩
    | past => exact ⟨hconnection.trans hat.1, hlife.trans hat.2⟩

theorem run_inOrder {socket maxclient : ℕ} {nodelay : Bool} {es : List Event} {s : State}
    (h : Machine.run step (State.opened socket maxclient nodelay) es = some s) :
    InOrder socket maxclient s := by
  refine Machine.run_induction (fun s e s' hs => hs.step) ⟨inv_opened socket maxclient nodelay,
    fun fd hfd => (Option.some.inj hfd).symm, rfl, fun fd hfd => ⟨.unknown, rfl, ?_⟩⟩ h
  dsimp only [State.At, State.opened]
  rw [Function.update_of_ne hfd]

/-- A gate with room for one: the second client is turned away, the first is kicked. -/
def kickedClient : List Event :=
  [.message (.accept 5), .message (.accept 6), .accept 5, .close, .kick 5, .message (.close 1),
    .message (.close 5)]

end SlgServer.Gate
