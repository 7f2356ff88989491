import SlgServer.Gate

/-!
# From the wire to the watchdog

The bytes of a socket reach the gate in pieces, between those of other sockets. What the
gate deals with are the packages `drain` finds in all the bytes of the socket
(`packages_dealt`); so requests that are written as frames reach the watchdog, each once
and in order (`requests_reach_watchdog`).
-/

namespace SlgServer.Gate

open Netpack
open RobotNet (Bytes wire)

/-! ## Packages and bytes -/

/-- The bytes of a socket that an event brings. -/
def Event.bytes (fd : ℕ) : Event → Bytes
  | .message (.data id buffer) => if id = fd then buffer else []
  | _ => []

/-- The package of a socket that an output deals with. -/
def Output.pack (fd : ℕ) : Output → Option Bytes
  | .report (.data id msg) | .redirect _ _ id msg | .drop id msg | .raised id msg =>
    if id = fd then some msg else none
  | _ => none

theorem pack_outcome (s : State) (fd : ℕ) (msg : Bytes) (fd' : ℕ) :
    (s.outcome fd msg).pack fd' = if fd = fd' then some msg else none := by
  rw [State.outcome]
  by_cases hclient : s.connection fd = some true
  · rw [if_pos hclient]
    rcases s.conns fd with _ | ⟨_ | agent, client⟩ <;> rfl
  · rw [if_neg hclient]
    rfl

/-- No handler raises an error: `gate.lua` knows the clients of `gateserver`. -/
theorem outcome_ne_raised {s : State} (hs : Clients s) (fd : ℕ) (msg : Bytes) (fd' : ℕ)
    (msg' : Bytes) : s.outcome fd msg ≠ .raised fd' msg' := by
  intro h
  rw [State.outcome] at h
  split_ifs at h with hclient
  rcases hconns : s.conns fd with _ | c
  · rw [(hs.conns fd).mpr hconns] at hclient
    exact absurd hclient (by simp)
  · rw [hconns] at h
    dsimp only at h
    split at h <;> cases h

/-- What is kept is no whole package. -/
theorem drain_rest (q : Option Queue) (fd : ℕ) : wire.drain (rest q fd) = ([], rest q fd) := by
  rcases hkept : kept q fd with _ | uc
  · rw [rest_of_not_kept hkept, drain_nil]
  · rw [rest_of_kept hkept]
    cases uc with
    | header byte => exact drain_singleton byte
    | body size buffer hsize hread => rw [Uncomplete.bytes, drain_body hsize, if_pos hread]

/-- What an event does with packages and bytes. -/
structure Deals (s : State) (e : Event) (s' : State) (os : List Output) : Prop where
  out : s'.out = s.out ++ os
  packs : ∀ fd, os.filterMap (Output.pack fd) = (wire.drain (rest s.queue fd ++ e.bytes fd)).1
  rest : ∀ fd, s'.life fd = .live →
    rest s'.queue fd = (wire.drain (rest s.queue fd ++ e.bytes fd)).2
  /-- only live sockets have packages -/
  outcome : ∀ o ∈ os, ∀ fd msg, o.pack fd = some msg → s.life fd = .live ∧ o = s.outcome fd msg
  /-- only live sockets have bytes -/
  live : ∀ fd, e.bytes fd ≠ [] → s.life fd = .live

/-- An event without bytes. -/
theorem Deals.quiet {s s' : State} {e : Event} {os : List Output} (hout : s'.out = s.out ++ os)
    (hpacks : ∀ o ∈ os, ∀ fd, o.pack fd = none)
    (hrest : ∀ fd, s'.life fd = .live → Netpack.rest s'.queue fd = Netpack.rest s.queue fd)
    (hbytes : ∀ fd, e.bytes fd = []) : Deals s e s' os := by
  refine ⟨hout, fun fd => ?_, fun fd hfd => ?_, fun o ho fd msg h => ?_,
    fun fd h => absurd (hbytes fd) h⟩
  · rw [hbytes, List.append_nil, drain_rest]
    exact List.filterMap_eq_nil_iff.mpr fun o ho => hpacks o ho fd
  · rw [hbytes, List.append_nil, drain_rest]
    exact hrest fd hfd
  · exact absurd ((hpacks o ho fd).symm.trans h) (Option.some_ne_none msg).symm

theorem Deals.single {s s' : State} {e : Event} {o : Output} (hout : s'.out = s.out ++ [o])
    (hpack : ∀ fd, o.pack fd = none)
    (hrest : ∀ fd, s'.life fd = .live → Netpack.rest s'.queue fd = Netpack.rest s.queue fd)
    (hbytes : ∀ fd, e.bytes fd = []) : Deals s e s' [o] :=
  Deals.quiet hout (fun _ ho fd => List.mem_singleton.mp ho ▸ hpack fd) hrest hbytes

theorem filterMap_outcome (s : State) (fd : ℕ) (packs : List Bytes) (fd' : ℕ) :
    (packs.map (s.outcome fd)).filterMap (Output.pack fd') = if fd = fd' then packs else [] := by
  rw [List.filterMap_map]
  have hpack : Output.pack fd' ∘ s.outcome fd = fun msg => if fd = fd' then some msg else none :=
    funext fun msg => pack_outcome s fd msg fd'
  rw [hpack]
  split_ifs
  · exact List.filterMap_some
  · exact List.filterMap_eq_nil_iff.mpr fun _ _ => rfl

theorem pack_welcome {s : State} {fd : ℕ} {o : Output} (ho : o ∈ s.welcome fd) (fd' : ℕ) :
    o.pack fd' = none := by
  rw [State.welcome] at ho
  rcases List.mem_append.mp ho with h | h
  · split_ifs at h
    · rw [List.mem_singleton.mp h]
      rfl
    · cases h
  · rw [List.mem_singleton.mp h]
    rfl

/-- A socket whose bytes are thrown away is not live after it. -/
theorem rest_closed {s s' : State} {fd : ℕ} (hI : Inv s)
    (hqueue : s'.queue = closeUncomplete s.queue fd)
    (hlife : s'.life = Function.update s.life fd .past) (fd' : ℕ) (hfd' : s'.life fd' = .live) :
    rest s'.queue fd' = rest s.queue fd' := by
  have hne : fd' ≠ fd := by
    rintro rfl
    rw [hlife, Function.update_self] at hfd'
    cases hfd'
  rw [hqueue, (closeUncomplete_spec hI.kept.distinct fd).rest, Function.update_of_ne hne]

theorem deals_step {s s' : State} {e : Event} (hI : Inv s) (h : step s e = some s') :
    ∃ os, Deals s e s' os := by
  -- only `data` deals bytes; every other step leaves what is dealt, or ends the connection
  cases step_effect hI.kept.distinct hI.kept.waiting h with
  | @data fd buffer hlive q hnil hdistinct hrest =>
    have hbytes (fd' : ℕ) (hne : fd' ≠ fd) : Event.bytes fd' (.message (.data fd buffer)) = [] :=
      if_neg hne.symm
    have hself : Event.bytes fd (.message (.data fd buffer)) = buffer := if_pos rfl
    refine ⟨_, rfl, fun fd' => ?_, fun fd' hfd' => ?_, fun o ho fd' msg h => ?_, fun fd' h => ?_⟩
    · rw [filterMap_outcome]
      rcases eq_or_ne fd' fd with rfl | hne
      · rw [if_pos rfl, hself]
      · rw [if_neg hne.symm, hbytes fd' hne, List.append_nil, drain_rest]
    · dsimp only
      rw [hrest]
      rcases eq_or_ne fd' fd with rfl | hne
      · rw [Function.update_self, hself]
      · rw [Function.update_of_ne hne, hbytes fd' hne, List.append_nil, drain_rest]
    -- a package is of the socket that the bytes came from
    · obtain ⟨pack, -, rfl⟩ := List.mem_map.mp ho
      rw [pack_outcome] at h
      split_ifs at h with heq
      obtain rfl := heq
      obtain rfl := Option.some.inj h
      exact ⟨hlive, rfl⟩
    · rcases eq_or_ne fd' fd with rfl | hne
      · exact hlive
      · exact absurd (hbytes fd' hne) h
  | nothing he =>
    refine ⟨[], Deals.quiet (List.append_nil _).symm (fun _ h => absurd h List.not_mem_nil)
      (fun _ _ => rfl) ?_⟩
    rcases he with ⟨fd, rfl⟩ | ⟨fd, rfl, -⟩ | ⟨rfl, -⟩
    · exact fun _ => rfl
    · exact fun _ => rfl
    · exact fun _ => rfl
  | warning | closing => exact ⟨_, Deals.single rfl (fun _ => rfl) (fun _ _ => rfl) fun _ => rfl⟩
  | unbound =>
    exact ⟨[], Deals.quiet (List.append_nil _).symm (fun _ h => absurd h List.not_mem_nil)
      (rest_closed hI rfl rfl) fun _ => rfl⟩
  | failed => exact ⟨_, Deals.single rfl (fun _ => rfl) (rest_closed hI rfl rfl) fun _ => rfl⟩
  | @gone fd e r he =>
    refine ⟨_, Deals.single (o := .report r) rfl (fun fd' => ?_) (rest_closed hI rfl rfl) ?_⟩
    · rcases he with ⟨-, rfl⟩ | ⟨-, rfl⟩
      · rfl
      · rfl
    · rcases he with ⟨rfl, -⟩ | ⟨rfl, -⟩
      · exact fun _ => rfl
      · exact fun _ => rfl
  | refused => exact ⟨_, Deals.single rfl (fun _ => rfl) (fun _ _ => rfl) fun _ => rfl⟩
  | taken =>
    exact ⟨_, Deals.quiet rfl (fun o ho fd' => pack_welcome ho fd') (fun _ _ => rfl) fun _ => rfl⟩
  | @unknown fd e he =>
    refine ⟨_, Deals.single rfl (fun _ => rfl) (fun _ _ => rfl) ?_⟩
    rcases he with ⟨agent, client, rfl⟩ | rfl
    · exact fun _ => rfl
    · exact fun _ => rfl
  | @remembered fd e c he =>
    refine ⟨_, Deals.quiet rfl (fun o ho fd' => ?_) (fun _ _ => rfl) ?_⟩
    · split_ifs at ho
      · rw [List.mem_singleton.mp ho]
        rfl
      · cases ho
    · rcases he with ⟨agent, client, rfl⟩ | ⟨rfl, -⟩
      · exact fun _ => rfl
      · exact fun _ => rfl
  | kicked => exact ⟨_, Deals.single rfl (fun _ => rfl) (fun _ _ => rfl) fun _ => rfl⟩

/-- The bytes that a list of events brings of a socket. -/
def bytesOf (es : List Event) (fd : ℕ) : Bytes := es.flatMap (Event.bytes fd)

/-- The packages of a socket that were dealt with, in order. -/
def State.dealt (s : State) (fd : ℕ) : List Bytes := s.out.filterMap (Output.pack fd)

/-- After the events `es`, the gate has dealt with the packages that `drain` finds. -/
structure Dealt (es : List Event) (s : State) : Prop where
  inv : Inv s
  packs : ∀ fd, s.dealt fd = (wire.drain (bytesOf es fd)).1
  rest : ∀ fd, s.life fd = .live → rest s.queue fd = (wire.drain (bytesOf es fd)).2
  unused : ∀ fd, s.life fd = .unused → bytesOf es fd = []
  raised : ∀ fd msg, .raised fd msg ∉ s.out

/-- A socket goes on as it is, or begins, or ends. -/
theorem life_step {s s' : State} {e : Event} (hI : Inv s) (h : step s e = some s') (fd : ℕ) :
    s'.life fd = s.life fd ∨ (s'.life fd = .live ∧ s.life fd = .unused) ∨ s'.life fd = .past := by
  cases step_effect hI.kept.distinct hI.kept.waiting h with
  | data | nothing | warning | closing | unknown | remembered | kicked => exact .inl rfl
  | @unbound fd' | @failed fd' | @gone fd' =>
    rcases eq_or_ne fd fd' with rfl | hne
    · exact .inr (.inr (Function.update_self ..))
    · exact .inl (Function.update_of_ne hne ..)
  | @refused fd' hfd' | @taken fd' hfd' =>
    rcases eq_or_ne fd fd' with rfl | hne
    · exact .inr (.inl ⟨Function.update_self .., hfd'⟩)
    · exact .inl (Function.update_of_ne hne ..)

theorem bytesOf_concat (es : List Event) (e : Event) (fd : ℕ) :
    bytesOf (es ++ [e]) fd = bytesOf es fd ++ e.bytes fd := by
  rw [bytesOf, List.flatMap_append, List.flatMap_singleton, ← bytesOf]

/-- The step of the induction: what was kept stands for all the bytes before. -/
theorem Dealt.drain_step {es : List Event} {s s' : State} {e : Event} {os : List Output}
    (hs : Dealt es s) (h : Deals s e s' os) (fd : ℕ) :
    (wire.drain (bytesOf (es ++ [e]) fd)).1 =
        s.dealt fd ++ (wire.drain (Netpack.rest s.queue fd ++ e.bytes fd)).1 ∧
      (s.life fd = .live → (wire.drain (bytesOf (es ++ [e]) fd)).2 =
        (wire.drain (Netpack.rest s.queue fd ++ e.bytes fd)).2) := by
  rw [bytesOf_concat, wire.drain_append, hs.packs]
  by_cases hlive : s.life fd = .live
  · rw [hs.rest fd hlive]
    exact ⟨rfl, fun _ => rfl⟩
  · have hnil : e.bytes fd = [] := by
      by_contra hne
      exact hlive (h.live fd hne)
    have hend := (wire.drain_spec (bytesOf es fd)).2.2
    rw [hnil, List.append_nil, List.append_nil, drain_rest, wire.drain_of_none hend]
    exact ⟨rfl, fun h => absurd h hlive⟩

theorem Dealt.step {es : List Event} {s s' : State} {e : Event} (hs : Dealt es s)
    (h : step s e = some s') : Dealt (es ++ [e]) s' := by
  obtain ⟨os, hdeals⟩ := deals_step hs.inv h
  refine ⟨hs.inv.step h, fun fd => ?_, fun fd hfd => ?_, fun fd hfd => ?_, fun fd msg hmem => ?_⟩
  · rw [State.dealt, hdeals.out, List.filterMap_append, hdeals.packs, (hs.drain_step hdeals fd).1]
    rfl
  · rw [hdeals.rest fd hfd]
    rcases life_step hs.inv h fd with hlife | ⟨-, hlife⟩ | hlife
    · rw [(hs.drain_step hdeals fd).2 (hlife ▸ hfd)]
    · -- a new socket: no byte has come of it, and none is kept
      have hnil : e.bytes fd = [] := by
        by_contra hne
        exact Life.noConfusion (hlife.symm.trans (hdeals.live fd hne))
      have hkept : Netpack.rest s.queue fd = [] :=
        hs.inv.kept.rest fd fun hlive => Life.noConfusion (hlife.symm.trans hlive)
      rw [bytesOf_concat, hs.unused fd hlife, hnil, hkept]
    · exact Life.noConfusion (hlife.symm.trans hfd)
  · rcases life_step hs.inv h fd with hlife | ⟨hlive, -⟩ | hover
    · have hunused : s.life fd = .unused := hlife.symm.trans hfd
      have hnil : e.bytes fd = [] := by
        by_contra hne
        exact Life.noConfusion (hunused.symm.trans (hdeals.live fd hne))
      rw [bytesOf_concat, hs.unused fd hunused, hnil, List.append_nil]
    · exact Life.noConfusion (hlive.symm.trans hfd)
    · exact Life.noConfusion (hover.symm.trans hfd)
  · rw [hdeals.out] at hmem
    rcases List.mem_append.mp hmem with hmem | hmem
    · exact hs.raised fd msg hmem
    · have hpack : (Output.raised fd msg).pack fd = some msg := if_pos rfl
      have houtcome := (hdeals.outcome _ hmem fd msg hpack).2
      exact outcome_ne_raised hs.inv.clients fd msg fd msg houtcome.symm

theorem run_dealt {socket maxclient : ℕ} {nodelay : Bool} {es : List Event} {s : State}
    (h : Machine.run step (State.opened socket maxclient nodelay) es = some s) : Dealt es s := by
  refine Machine.run_history (fun es s e s' hs => hs.step) ⟨?_, fun fd => ?_, fun fd _ => ?_,
    fun fd _ => rfl, fun fd msg => List.not_mem_nil⟩ h
  · exact inv_opened socket maxclient nodelay
  · exact congrArg Prod.fst drain_nil.symm
  · exact congrArg Prod.snd drain_nil.symm

/-- **Packages arrive whole, in order, and once.** In every run, whatever pieces the bytes of
the sockets come in and however the sockets take turns, what has been dealt with of a socket
are the packages its bytes begin with, and what follows them is no whole package; the gate
keeps it as long as the socket is live. No package is left in the queue, and no handler
raises an error. -/
theorem packages_dealt {socket maxclient : ℕ} {nodelay : Bool} {es : List Event} {s : State}
    (h : Machine.run step (State.opened socket maxclient nodelay) es = some s) (fd : ℕ) :
    (∀ pack ∈ s.dealt fd, wire.Valid pack) ∧
      (∃ last, bytesOf es fd = (s.dealt fd).flatMap wire.encode ++ last ∧
        RobotNet.takePack last = none ∧ (s.life fd = .live → rest s.queue fd = last)) ∧
      waiting s.queue = [] ∧ ∀ msg, .raised fd msg ∉ s.out := by
  have hs := run_dealt h
  obtain ⟨hvalid, hbytes, hend⟩ := wire.drain_spec (bytesOf es fd)
  rw [← hs.packs] at hvalid hbytes
  exact ⟨hvalid, ⟨_, hbytes, hend, hs.rest fd⟩, hs.inv.kept.waiting, hs.raised fd⟩

/-- Two clients, and pieces of their packages. -/
def twoClients : List Event :=
  [.message (.accept 5), .message (.accept 6), .message (.data 5 [0]),
    .message (.data 6 [0, 4, 0]), .message (.data 5 [6, 0, 1, 0, 2, 65, 66])]

/-- Three bytes of the second client are kept. -/
theorem packages_dealt_twoClients :
    ∃ s, Machine.run step (State.opened 1 2 false) twoClients = some s ∧
      (∀ pack ∈ s.dealt 6, wire.Valid pack) ∧
      (∃ last, bytesOf twoClients 6 = (s.dealt 6).flatMap wire.encode ++ last ∧
        RobotNet.takePack last = none ∧ (s.life 6 = .live → rest s.queue 6 = last)) ∧
      waiting s.queue = [] ∧ ∀ msg, .raised 6 msg ∉ s.out := by
  obtain ⟨s, hs⟩ := Option.isSome_iff_exists.mp
    (rfl : (Machine.run step (State.opened 1 2 false) twoClients).isSome = true)
  exact ⟨s, hs, packages_dealt hs 6⟩

/-! ## Requests -/

/-- The gate takes the client, and no command kicks it or gives it to an agent. -/
def Undisturbed (fd : ℕ) (s : State) : Event → Prop
  | .message (.accept id) => id = fd → s.clientNumber < s.maxclient
  | .kick id | .forward id _ _ => id ≠ fd
  | _ => True

/-- The messages of a client that were sent to the watchdog. -/
def State.sent (s : State) (fd : ℕ) : List Bytes :=
  s.out.filterMap fun
    | .report (.data id msg) => if id = fd then some msg else none
    | _ => none

/-- What has been dealt with of the client was sent to the watchdog, and what comes next
will be. -/
structure Open (fd : ℕ) (s : State) : Prop where
  inv : Inv s
  socket : s.socket ≠ some fd
  client : s.life fd = .live →
    s.connection fd = some true ∧ ∃ client, s.conns fd = some ⟨none, client⟩
  reports : ∀ o ∈ s.out, ∀ msg, o.pack fd = some msg → o = .report (.data fd msg)

theorem Open.outcome {fd : ℕ} {s : State} (hs : Open fd s) (hlive : s.life fd = .live)
    (msg : Bytes) : s.outcome fd msg = .report (.data fd msg) := by
  obtain ⟨hconnection, client, hconns⟩ := hs.client hlive
  rw [State.outcome, if_pos hconnection, hconns]

theorem Open.sent {fd : ℕ} {s : State} (hs : Open fd s) : s.sent fd = s.dealt fd := by
  refine List.filterMap_congr fun o ho => ?_
  rcases hpack : o.pack fd with _ | msg
  · cases o with
    | report r => cases r with
      | data id msg => exact hpack
      | «open» _ | close _ | error _ | warning _ _ => rfl
    | redirect _ _ _ _ | drop _ _ | raised _ _ | unknown _ | start _ | nodelay _ | shut _ => rfl
  · rw [hs.reports o ho msg hpack]
    exact if_pos rfl

theorem Open.step {fd : ℕ} {s s' : State} {e : Event} (hs : Open fd s) (hC : Undisturbed fd s e)
    (h : step s e = some s') : Open fd s' := by
  have hI := hs.inv
  obtain ⟨os, hdeals⟩ := deals_step hI h
  have hreports : ∀ o ∈ s'.out, ∀ msg, o.pack fd = some msg → o = .report (.data fd msg) := by
    intro o ho msg hpack
    rw [hdeals.out] at ho
    rcases List.mem_append.mp ho with ho | ho
    · exact hs.reports o ho msg hpack
    · obtain ⟨hlive, rfl⟩ := hdeals.outcome o ho fd msg hpack
      exact hs.outcome hlive msg
  have hover {fd' : ℕ} (hlive : Function.update s.life fd' .past fd = .live) : fd ≠ fd' := by
    rintro rfl
    rw [Function.update_self] at hlive
    cases hlive
  have hother {fd' : ℕ} {l : Life} (hne : fd ≠ fd') :
      Function.update s.life fd' l fd = s.life fd := Function.update_of_ne hne ..
  cases step_effect hI.kept.distinct hI.kept.waiting h with
  | data | nothing | warning | closing | unknown =>
    exact ⟨hI.step h, hs.socket, hs.client, hreports⟩
  | @unbound fd' hfd' =>
    exact ⟨hI.step h, (Option.some_ne_none fd).symm,
      fun hlive => hs.client ((hother (hover hlive)).symm.trans hlive), hreports⟩
  | @failed fd' hfd' =>
    exact ⟨hI.step h, hs.socket,
      fun hlive => hs.client ((hother (hover hlive)).symm.trans hlive), hreports⟩
  | @gone fd' e r he hfd' hused =>
    refine ⟨hI.step h, hs.socket, fun hlive => ?_, hreports⟩
    have hne := hover hlive
    dsimp only [State.gone]
    rw [Function.update_of_ne hne, Function.update_of_ne hne]
    exact hs.client ((hother hne).symm.trans hlive)
  | @refused fd' hfd' hfull =>
    have hne : fd ≠ fd' := fun heq => absurd (hC heq.symm) (not_lt_of_ge hfull)
    exact ⟨hI.step h, hs.socket,
      fun hlive => hs.client ((hother hne).symm.trans hlive), hreports⟩
  | @taken fd' hfd' hless =>
    refine ⟨hI.step h, hs.socket, fun hlive => ?_, hreports⟩
    rcases eq_or_ne fd fd' with rfl | hne
    · exact ⟨Function.update_self .., none, Function.update_self ..⟩
    · dsimp only
      rw [Function.update_of_ne hne, Function.update_of_ne hne]
      exact hs.client ((hother hne).symm.trans hlive)
  | @remembered fd' e c he hfd' =>
    refine ⟨hI.step h, hs.socket, fun hlive => ⟨(hs.client hlive).1, ?_⟩, hreports⟩
    dsimp only
    rcases eq_or_ne fd fd' with rfl | hne
    · rcases he with ⟨agent, client, rfl⟩ | ⟨-, hagent⟩
      · exact absurd rfl hC
      · exact ⟨c.client, by rw [Function.update_self, ← hagent]⟩
    · rw [Function.update_of_ne hne]
      exact (hs.client hlive).2
  | @kicked fd' hfd' =>
    have hne : fd ≠ fd' := fun heq => hC heq.symm
    refine ⟨hI.step h, hs.socket, fun hlive => ?_, hreports⟩
    dsimp only
    rw [Function.update_of_ne hne]
    exact hs.client hlive

theorem open_opened {socket maxclient : ℕ} {nodelay : Bool} {fd : ℕ} (hfd : fd ≠ socket) :
    Open fd (State.opened socket maxclient nodelay) := by
  refine ⟨inv_opened socket maxclient nodelay, fun h => hfd (Option.some.inj h).symm,
    fun hlive => ?_, fun o ho => absurd ho List.not_mem_nil⟩
  have hunused : (State.opened socket maxclient nodelay).life fd = .unused := by
    dsimp only [State.opened]
    rw [Function.update_of_ne hfd]
  exact Life.noConfusion (hunused.symm.trans hlive)

/-- What comes of a client that nothing disturbs is sent to the watchdog. -/
theorem sent_eq_dealt {socket maxclient : ℕ} {nodelay : Bool} {es : List Event} {s : State}
    (h : Machine.run step (State.opened socket maxclient nodelay) es = some s) {fd : ℕ}
    (hfd : fd ≠ socket)
    (hopen : Machine.Guarded step (Undisturbed fd) (State.opened socket maxclient nodelay) es) :
    s.sent fd = s.dealt fd := by
  have halways := Machine.always_of_guarded (P := Open fd) (fun s e s' hs hC he => hs.step hC he)
    (fun _ hs => hs) (open_opened hfd) hopen
  exact (halways.last h).sent

/-- **Requests reach the watchdog.** Requests that fit are written to a socket as frames. In
every run of the gate that takes the socket and does not kick it or give it away, whatever
the pieces are that the frames come in, and whatever other sockets do meanwhile, the
watchdog has been sent the messages of the requests that have come whole, in order and each
once, and unpacks them to these requests. When all bytes have come, it has got them all. -/
theorem requests_reach_watchdog {socket maxclient : ℕ} {nodelay : Bool} {es : List Event}
    {s : State} (h : Machine.run step (State.opened socket maxclient nodelay) es = some s)
    {fd : ℕ} (hfd : fd ≠ socket)
    (hopen : Machine.Guarded step (Undisturbed fd) (State.opened socket maxclient nodelay) es)
    {rs : List (ℕ × Bytes)} (hrs : ∀ r ∈ rs, RobotNet.Fits r) {frames : List Bytes}
    (hframes : rs.mapM (fun r => RobotNet.sendRequest r.1 r.2) = some frames) {later : Bytes}
    (hbytes : bytesOf es fd ++ later = frames.flatten) :
    ∃ gs hs last, rs = gs ++ hs ∧ (s.sent fd).map RobotNet.unpackHs2 = gs.map some ∧
      bytesOf es fd = (frames.take gs.length).flatten ++ last ∧ RobotNet.takePack last = none ∧
      (later = [] → hs = [] ∧ last = []) := by
  obtain rfl := Option.some.inj ((RobotNet.mapM_sendRequest hrs).symm.trans hframes)
  have hdrain : wire.drain ([] ++ (bytesOf es fd ++ later)) = (rs.map RobotNet.payload, []) := by
    refine wire.drain_eq_iff.mpr ⟨fun pack hpack => ?_, ?_, rfl⟩
    · obtain ⟨r, hr, rfl⟩ := List.mem_map.mp hpack
      exact RobotNet.valid_payload (hrs r hr)
    · rw [hbytes, List.flatMap_map, List.flatMap_def, List.append_nil, List.nil_append]
  obtain ⟨gs, hs, last, rfl, hgs, hhs⟩ := RobotNet.drain_piece hdrain
  rw [List.nil_append] at hgs
  obtain ⟨-, hpieces, hlast⟩ := wire.drain_eq_iff.mp hgs
  refine ⟨gs, hs, last, rfl, ?_, ?_, hlast, ?_⟩
  · rw [sent_eq_dealt h hfd hopen, (run_dealt h).packs, hgs, List.map_map]
    exact List.map_congr_left fun r hr =>
      RobotNet.unpackHs2_payload (hrs r (List.mem_append_left _ hr))
  · rw [hpieces, List.flatMap_map, List.flatMap_def, List.map_append,
      List.take_left' (List.length_map ..)]
  · rintro rfl
    rw [List.append_nil, wire.drain_of_none hlast] at hhs
    obtain ⟨hnil, rfl⟩ := Prod.mk.inj hhs
    exact ⟨List.map_eq_nil_iff.mp hnil.symm, rfl⟩

/-- Of two requests of the first client, one has come. -/
theorem requests_reach_watchdog_twoClients :
    ∃ s, Machine.run step (State.opened 1 2 false) twoClients = some s ∧
      ∃ gs hs last, [(1, [65, 66]), (2, [])] = gs ++ hs ∧
        (s.sent 5).map RobotNet.unpackHs2 = gs.map some ∧
        bytesOf twoClients 5 = ([[0, 6, 0, 1, 0, 2, 65, 66], [0, 4, 0, 2, 0, 0]].take
          gs.length).flatten ++ last ∧ RobotNet.takePack last = none ∧
        ([0, 4, 0, 2, 0, 0] = ([] : Bytes) → hs = [] ∧ last = []) := by
  have hfits : ∀ r ∈ [(1, [65, 66]), (2, [])], RobotNet.Fits r := by decide
  have hframes : [(1, [65, 66]), (2, [])].mapM (fun r => RobotNet.sendRequest r.1 r.2) =
      some [[0, 6, 0, 1, 0, 2, 65, 66], [0, 4, 0, 2, 0, 0]] := by decide
  have hbytes : bytesOf twoClients 5 ++ [0, 4, 0, 2, 0, 0] =
      [[0, 6, 0, 1, 0, 2, 65, 66], [0, 4, 0, 2, 0, 0]].flatten := by decide
  have hopen : Machine.Guarded step (Undisturbed 5) (State.opened 1 2 false) twoClients := by
    refine Machine.guarded_cons rfl ?_ (Machine.guarded_cons rfl ?_ (Machine.guarded_cons rfl ?_
      (Machine.guarded_cons rfl ?_ (Machine.guarded_cons rfl ?_ trivial))))
    · exact fun _ => by decide
    · exact fun h => absurd h (by decide)
    · trivial
    · trivial
    · trivial
  obtain ⟨s, hs⟩ := Option.isSome_iff_exists.mp
    (rfl : (Machine.run step (State.opened 1 2 false) twoClients).isSome = true)
  exact ⟨s, hs, requests_reach_watchdog hs (by decide) hopen hfits hframes hbytes⟩

end SlgServer.Gate
