import SlgServer.AppSteps
import SlgServer.GateReports

/-!
# What a base app may rely on

A base app is the watchdog of its gate. Its model lets the gate report a socket once as
open, and nothing of it before that or after its end. The gate keeps to this as long as it
turns no client away and is told of the end of a client once (`reports_never_blocked`): a
client that is turned away, and one that is kicked while it closes, are reported as closed
without being open.
-/

namespace SlgServer.GateApp

open Gate Netpack
open RobotNet (Bytes)

variable {A M B : Type}

/-- A report, as `sock_mgr` handles it; `parse` stands for `utils.str_2_table`. A message
that cannot be unpacked raises an error and has no effect. -/
def event (parse : Bytes → App.Params A) : Output → Option (App.Event A M)
  | .report (.open fd) => some (.open fd)
  | .report (.close fd) => some (.close fd)
  | .report (.error fd) => some (.error fd)
  | .report (.warning fd _) => some (.warning fd)
  | .report (.data fd msg) =>
    (RobotNet.unpackHs2 msg).map fun (id, text) => .data fd id (parse text)
  | _ => none

/-- The events that the reports of a gate bring about. -/
def events (parse : Bytes → App.Params A) (s : Gate.State) : List (App.Event A M) :=
  s.out.filterMap (event parse)

/-- The gate has brought about the event. -/
def fromGate : App.Event A M → Bool
  | .open _ | .close _ | .error _ | .warning _ | .data _ _ _ => true
  | _ => false

/-- What has been told of a socket. -/
inductive Stage : Type where
  /-- nothing -/
  | before
  /-- it is open -/
  | connected
  /-- it is closed or has failed -/
  | past
  deriving DecidableEq

/-- What has been told of the socket `fd` after one more event. -/
def Stage.next (fd : ℕ) (p : Stage) : App.Event A M → Option Stage
  | .open id => if id = fd then if p = .before then some .connected else none else some p
  | .close id | .error id =>
    if id = fd then if p = .connected then some .past else none else some p
  | .warning id | .data id _ _ =>
    if id = fd then if p = .connected then some p else none else some p
  | _ => some p

/-! ## The gate -/

/-- The gate takes every client, and is told of the end of clients only. -/
def Plain (s : Gate.State) : Gate.Event → Prop
  | .message (.accept _) => s.clientNumber < s.maxclient
  | .message (.close fd) | .message (.error fd) | .message (.warning fd _) => s.connection fd ≠ none
  | _ => True

/-- The tables of the gate say what it has told of a socket. -/
def Told (s : Gate.State) (fd : ℕ) : Stage → Prop
  | .before => s.connection fd = none ∧ (s.life fd = .unused ∨ s.socket = some fd)
  | .connected => s.connection fd ≠ none
  | .past => s.connection fd = none ∧ s.life fd ≠ .unused

theorem told_connected {s : Gate.State} {fd : ℕ} (hfd : s.connection fd ≠ none) {p : Stage}
    (hp : Told s fd p) : p = .connected := by
  cases p with
  | before | past => exact absurd hp.1 hfd
  | connected => rfl

theorem told_before {s : Gate.State} (hI : Inv s) {fd : ℕ} (hfd : s.life fd = .unused) {p : Stage}
    (hp : Told s fd p) : p = .before := by
  cases p with
  | before => rfl
  | connected => exact absurd (hI.clients.not_client hfd) hp
  | past => exact absurd hfd hp.2

/-- The outputs `os` tell what the tables say then. -/
structure Tells (parse : Bytes → App.Params A) (M : Type) (s s' : Gate.State)
    (os : List Output) : Prop where
  out : s'.out = s.out ++ os
  next : ∀ fd p, Told s fd p → ∃ p',
    (os.filterMap (event (M := M) parse)).foldlM (Stage.next fd) p = some p' ∧ Told s' fd p'

theorem Tells.quiet {parse : Bytes → App.Params A} {s s' : Gate.State} {os : List Output}
    (hout : s'.out = s.out ++ os) (hos : os.filterMap (event (M := M) parse) = [])
    (htold : ∀ fd p, Told s fd p → Told s' fd p) : Tells parse M s s' os :=
  ⟨hout, fun fd p hp => ⟨p, by rw [hos]; rfl, htold fd p hp⟩⟩

/-- One output about the socket `fd` that is an event. -/
theorem Tells.single {parse : Bytes → App.Params A} {s s' : Gate.State} {fd : ℕ} {o : Output}
    {e : App.Event A M} (hout : s'.out = s.out ++ [o]) (he : event parse o = some e)
    (hother : ∀ fd' p, fd' ≠ fd → Told s fd' p → Stage.next fd' p e = some p ∧ Told s' fd' p)
    (hself : ∀ p, Told s fd p → ∃ p', Stage.next fd p e = some p' ∧ Told s' fd p') :
    Tells parse M s s' [o] := by
  refine ⟨hout, fun fd' p hp => ?_⟩
  have hlist : [o].filterMap (event (M := M) parse) = [e] := by
    rw [List.filterMap_cons_some he, List.filterMap_nil]
  rw [hlist, List.foldlM_cons]
  rcases eq_or_ne fd' fd with rfl | hne
  · obtain ⟨p', hp', htold⟩ := hself p hp
    exact ⟨p', by rw [hp']; rfl, htold⟩
  · obtain ⟨hp', htold⟩ := hother fd' p hne hp
    exact ⟨p, by rw [hp']; rfl, htold⟩

theorem event_eq_some {parse : Bytes → App.Params A} {o : Output} {e : App.Event A M}
    (h : event parse o = some e) : ∃ r, o = .report r := by
  cases o with
  | report r => exact ⟨r, rfl⟩
  | redirect _ _ _ _ | drop _ _ | raised _ _ | unknown _ | start _ | nodelay _ | shut _ => cases h

/-- The packages of a socket tell nothing new. -/
theorem foldlM_outcome (parse : Bytes → App.Params A) (s : Gate.State) (fd : ℕ)
    (packs : List Bytes) {fd' : ℕ} {p : Stage} (hp : Told s fd' p) :
    ((packs.map (s.outcome fd)).filterMap (event (M := M) parse)).foldlM (Stage.next fd') p =
      some p := by
  have hnext (pack : Bytes) (e : App.Event A M) (he : event parse (s.outcome fd pack) = some e) :
      Stage.next fd' p e = some p := by
    obtain ⟨r, hr⟩ := event_eq_some he
    obtain ⟨hclient, rfl⟩ := outcome_eq_report hr
    rw [hr] at he
    obtain ⟨⟨id, text⟩, -, rfl⟩ := Option.map_eq_some_iff.mp he
    rcases eq_or_ne fd fd' with rfl | hne
    · have hconnected : s.connection fd ≠ none := hclient ▸ Option.some_ne_none true
      obtain rfl := told_connected hconnected hp
      exact (if_pos rfl).trans (if_pos rfl)
    · exact if_neg hne
  induction packs with
  | nil => rfl
  | cons pack packs ih =>
    rw [List.map_cons, List.filterMap_cons]
    rcases he : event (M := M) parse (s.outcome fd pack) with _ | e
    · exact ih
    · dsimp only
      rw [List.foldlM_cons, hnext pack e he]
      exact ih

theorem tells_step (parse : Bytes → App.Params A) {s s' : Gate.State} {e : Gate.Event}
    (hI : Inv s) (hC : Plain s e) (h : Gate.step s e = some s') :
    ∃ os, Tells parse M s s' os := by
  have hother {α : Type} (f : ℕ → α) {fd fd' : ℕ} (a : α) (hne : fd' ≠ fd) :
      Function.update f fd a fd' = f fd' := Function.update_of_ne hne ..
  -- `Plain` rules out what the base app has no stage for: an end of the listener, an end of a
  -- socket without a connection, and a full gate
  cases Gate.step_effect hI.kept.distinct hI.kept.waiting h with
  | @data fd buffer => exact ⟨_, rfl, fun fd' p hp => ⟨p, foldlM_outcome parse s fd _ hp, hp⟩⟩
  | nothing => exact ⟨[], Tells.quiet (List.append_nil _).symm rfl fun _ _ hp => hp⟩
  | @warning fd size =>
    refine ⟨_, Tells.single rfl rfl (fun fd' p hne hp => ⟨if_neg hne.symm, hp⟩) fun p hp => ?_⟩
    obtain rfl := told_connected hC hp
    exact ⟨.connected, (if_pos rfl).trans (if_pos rfl), hp⟩
  | @closing fd hfd => exact ⟨[.shut fd], Tells.quiet rfl rfl fun _ _ hp => hp⟩
  | @unbound fd hfd => exact absurd (hI.clients.socket fd hfd).1 hC
  | @failed fd hfd => exact absurd (hI.clients.socket fd hfd).1 hC
  | @gone fd e r he hfd hused =>
    have hclient : s.connection fd ≠ none := by
      rcases he with ⟨rfl, -⟩ | ⟨rfl, -⟩
      · exact hC
      · exact hC
    -- the handlers of `close` and of `error` are the same, so are the two cases
    have hover : Told { s.gone fd r with life := Function.update s.life fd .past } fd .past := by
      refine ⟨Function.update_self .., ?_⟩
      dsimp only
      rw [Function.update_self]
      exact fun h => Life.noConfusion h
    have hthere (fd' : ℕ) (p : Stage) (hne : fd' ≠ fd) (hp : Told s fd' p) :
        Told { s.gone fd r with life := Function.update s.life fd .past } fd' p := by
      cases p with
      | before | connected | past => simpa only [Told, State.gone, hother _ _ hne] using hp
    have hnext (e : App.Event A M) (he : e = .close fd ∨ e = .error fd) (p : Stage)
        (hp : Told s fd p) : Stage.next fd p e = some .past := by
      obtain rfl := told_connected hclient hp
      rcases he with rfl | rfl <;> exact (if_pos rfl).trans (if_pos rfl)
    rcases he with ⟨-, rfl⟩ | ⟨-, rfl⟩
    · exact ⟨_, Tells.single rfl rfl
        (fun fd' p hne hp => ⟨if_neg hne.symm, hthere fd' p hne hp⟩)
        fun p hp => ⟨.past, hnext _ (.inl rfl) p hp, hover⟩⟩
    · exact ⟨_, Tells.single rfl rfl
        (fun fd' p hne hp => ⟨if_neg hne.symm, hthere fd' p hne hp⟩)
        fun p hp => ⟨.past, hnext _ (.inr rfl) p hp, hover⟩⟩
  | @refused fd hfd hfull => exact absurd hC (not_lt_of_ge hfull)
  | @taken fd hfd hless =>
    have hwelcome : (s.welcome fd).filterMap (event (M := M) parse) = [.open fd] := by
      rw [State.welcome]
      split_ifs <;> rfl
    refine ⟨_, rfl, fun fd' p hp => ?_⟩
    rw [hwelcome, List.foldlM_cons]
    rcases eq_or_ne fd' fd with rfl | hne
    · obtain rfl := told_before hI hfd hp
      have hnext : Stage.next fd' .before (.open fd' : App.Event A M) = some .connected :=
        (if_pos rfl).trans (if_pos rfl)
      refine ⟨.connected, by rw [hnext]; rfl, ?_⟩
      dsimp only [Told]
      rw [Function.update_self]
      exact Option.some_ne_none true
    · have hnext : Stage.next fd' p (.open fd : App.Event A M) = some p := if_neg hne.symm
      refine ⟨p, by rw [hnext]; rfl, ?_⟩
      cases p with
      | before | connected | past => simpa only [Told, hother _ _ hne] using hp
  | @unknown fd e he hfd =>
    exact ⟨[.unknown fd], Tells.quiet rfl rfl fun _ _ hp => hp⟩
  | @remembered fd e c he hfd =>
    refine ⟨_, Tells.quiet rfl ?_ fun _ p hp => ?_⟩
    · split_ifs <;> rfl
    · cases p with
      | before | connected | past => exact hp
  -- a kick only shuts the socket: the base app hears nothing of it here
  | @kicked fd hfd =>
    refine ⟨[.shut fd], Tells.quiet rfl rfl fun fd' p hp => ?_⟩
    have hclient : s.connection fd ≠ none := hfd ▸ Option.some_ne_none true
    rcases eq_or_ne fd' fd with rfl | hne
    · obtain rfl := told_connected hclient hp
      dsimp only [Told]
      rw [Function.update_self]
      exact Option.some_ne_none false
    · cases p with
      | before | connected | past => simpa only [Told, hother _ _ hne] using hp

/-- In a plain run the reports tell of each socket what the tables say. -/
theorem told_events (parse : Bytes → App.Params A) (M : Type) {socket maxclient : ℕ}
    {nodelay : Bool} {es : List Gate.Event} {s : Gate.State}
    (h : Machine.run Gate.step (Gate.State.opened socket maxclient nodelay) es = some s)
    (hC : Machine.Guarded Gate.step Plain (Gate.State.opened socket maxclient nodelay) es)
    (fd : ℕ) :
    ∃ p, (events (M := M) parse s).foldlM (Stage.next fd) .before = some p ∧ Told s fd p := by
  have hstep : ∀ s e s', (Inv s ∧ ∃ p, (events (M := M) parse s).foldlM (Stage.next fd) .before =
      some p ∧ Told s fd p) → Plain s e → Gate.step s e = some s' →
      Inv s' ∧ ∃ p, (events (M := M) parse s').foldlM (Stage.next fd) .before = some p ∧
        Told s' fd p := by
    rintro s e s' ⟨hI, p, hp, htold⟩ hplain he
    obtain ⟨os, hos⟩ := tells_step (M := M) parse hI hplain he
    obtain ⟨p', hp', htold'⟩ := hos.next fd p htold
    refine ⟨hI.step he, p', ?_, htold'⟩
    rw [events, hos.out, List.filterMap_append, List.foldlM_append, ← events, hp]
    exact hp'
  have hbegin : Told (Gate.State.opened socket maxclient nodelay) fd .before := by
    refine ⟨rfl, ?_⟩
    rcases eq_or_ne fd socket with rfl | hne
    · exact .inr rfl
    · refine .inl ?_
      dsimp only [Gate.State.opened]
      rw [Function.update_of_ne hne]
  exact ((Machine.always_of_guarded hstep (fun _ hs => hs)
    ⟨inv_opened socket maxclient nodelay, .before, rfl, hbegin⟩ hC).last h).2

/-! ## The base app -/

/-- A base app knows of a socket what has been told. -/
structure Knows (s : App.State A B) (gs : List (App.Event A M)) : Prop where
  nodup : s.seen.connected.Nodup
  stage : ∀ fd p, gs.foldlM (Stage.next fd) .before = some p →
    (fd ∈ s.seen.connected ↔ p = .connected) ∧ (fd ∈ s.seen.gone ↔ p = .past)

theorem foldlM_concat {fd : ℕ} {gs : List (App.Event A M)} {e : App.Event A M} {p : Stage}
    (h : (gs ++ [e]).foldlM (Stage.next fd) .before = some p) :
    ∃ q, gs.foldlM (Stage.next fd) .before = some q ∧ Stage.next fd q e = some p := by
  rw [List.foldlM_append] at h
  obtain ⟨q, hq, hnext⟩ := Option.bind_eq_some_iff.mp h
  rw [List.foldlM_cons] at hnext
  obtain ⟨p', hp', hnil⟩ := Option.bind_eq_some_iff.mp hnext
  exact ⟨q, hq, hp'.trans hnil⟩

/-- An event that opens or ends nothing leaves the lists of sockets alone. -/
theorem seen_step [DecidableEq A] {c : App.Codec A M B} {s s' : App.State A B} {e : App.Event A M}
    (h : App.step c s e = some s')
    (he : ∀ fd, e ≠ .open fd ∧ e ≠ .close fd ∧ e ≠ .error fd) :
    s'.seen.connected = s.seen.connected ∧ s'.seen.gone = s.seen.gone := by
  have heffect := App.step_effect h
  have hconnected : s'.seen.connected = s'.tables.connected := rfl
  have hgone : s'.seen.gone = s'.tables.gone := rfl
  rw [hconnected, hgone]
  generalize s'.tables = t at heffect ⊢
  cases heffect with
  | opened fd => exact absurd rfl (he fd).1
  | ended fd e hend =>
    rcases hend with rfl | rfl
    · exact absurd rfl (he fd).2.1
    · exact absurd rfl (he fd).2.2
  | quiet | warned | begun | added | dropped => exact ⟨rfl, rfl⟩

theorem Knows.quiet [DecidableEq A] {c : App.Codec A M B} {s s' : App.State A B}
    {e : App.Event A M} {gs : List (App.Event A M)} (hs : Knows s gs)
    (h : App.step c s e = some s') (he : ∀ fd, e ≠ .open fd ∧ e ≠ .close fd ∧ e ≠ .error fd)
    {gs' : List (App.Event A M)} (hgs : ∀ fd p, gs'.foldlM (Stage.next fd) .before = some p →
      gs.foldlM (Stage.next fd) .before = some p) : Knows s' gs' := by
  obtain ⟨hconnected, hgone⟩ := seen_step h he
  refine ⟨hconnected ▸ hs.nodup, fun fd p hp => ?_⟩
  rw [hconnected, hgone]
  exact hs.stage fd p (hgs fd p hp)

theorem Knows.ended {s s' : App.State A B} {gs : List (App.Event A M)} (hs : Knows s gs) {fd : ℕ}
    {e : App.Event A M} (he : e = .close fd ∨ e = .error fd)
    (hconnected : s'.seen.connected = s.seen.connected.erase fd)
    (hgone : s'.seen.gone = fd :: s.seen.gone) : Knows s' (gs ++ [e]) := by
  refine ⟨hconnected ▸ hs.nodup.erase fd, fun fd' p hp => ?_⟩
  obtain ⟨q, hq, hnext⟩ := foldlM_concat hp
  obtain ⟨hin, hout⟩ := hs.stage fd' q hq
  have hstage : (if fd = fd' then if q = .connected then some .past else none else some q) =
      some p := by
    rcases he with rfl | rfl <;> exact hnext
  rw [hconnected, hgone, hs.nodup.mem_erase_iff, List.mem_cons]
  split_ifs at hstage with hfd hq
  · obtain rfl := hfd
    obtain rfl := Option.some.inj hstage
    simp
  · obtain rfl := Option.some.inj hstage
    have hne : fd' ≠ fd := fun h => hfd h.symm
    exact ⟨(and_iff_right hne).trans hin, (or_iff_right hne).trans hout⟩

theorem Knows.step [DecidableEq A] {c : App.Codec A M B} {s s' : App.State A B}
    {e : App.Event A M} {gs : List (App.Event A M)} (hs : Knows s gs)
    (h : App.step c s e = some s') : Knows s' (gs ++ [e].filter fromGate) := by
  cases e with
  | «open» fd =>
    rw [App.step] at h
    split_ifs at h with hfd
    obtain rfl := Option.some.inj h
    obtain ⟨hnew, hgone⟩ := not_or.mp hfd
    refine ⟨List.nodup_append.mpr ⟨hs.nodup, List.nodup_singleton fd, fun a ha b hb heq => ?_⟩,
      fun fd' p hp => ?_⟩
    · rw [List.mem_singleton.mp hb] at heq
      exact hnew (heq ▸ ha)
    · obtain ⟨q, hq, hnext⟩ := foldlM_concat hp
      obtain ⟨hin, hout⟩ := hs.stage fd' q hq
      dsimp only [Stage.next] at hnext ⊢
      rw [List.mem_append, List.mem_singleton]
      split_ifs at hnext with heq hbefore
      · obtain rfl := heq
        obtain rfl := Option.some.inj hnext
        exact ⟨by simp, iff_of_false hgone (by decide)⟩
      · obtain rfl := Option.some.inj hnext
        exact ⟨(or_iff_left fun h => heq h.symm).trans hin, hout⟩
  | close fd =>
    rw [App.step] at h
    split_ifs at h with hfd
    obtain rfl := Option.some.inj h
    exact hs.ended (.inl rfl) (congrArg App.Tables.connected (s.tables_ended fd))
      (congrArg App.Tables.gone (s.tables_ended fd))
  | error fd =>
    rw [App.step] at h
    split_ifs at h with hfd
    obtain rfl := Option.some.inj h
    exact hs.ended (.inr rfl) (congrArg App.Tables.connected (s.tables_ended fd))
      (congrArg App.Tables.gone (s.tables_ended fd))
  | warning fd | data fd _ _ =>
    refine hs.quiet h (fun _ => ⟨by simp, by simp, by simp⟩) fun fd' p hp => ?_
    obtain ⟨q, hq, hnext⟩ := foldlM_concat hp
    dsimp only [Stage.next] at hnext
    split_ifs at hnext
    · exact hq.trans hnext
    · exact hq.trans hnext
  | accepted _ _ | loaded _ _ | saved _ _ | returned _ _ | roomBegin _ | sendtoClient _ _ _ =>
    refine hs.quiet h (fun _ => ⟨by simp, by simp, by simp⟩) fun fd' p hp => ?_
    rwa [List.filter_cons_of_neg Bool.false_ne_true, List.filter_nil, List.append_nil] at hp

theorem run_knows [DecidableEq A] {c : App.Codec A M B} {gs : List (App.Event A M)}
    {s : App.State A B} (h : Machine.run (App.step c) App.State.init gs = some s) :
    Knows s (gs.filter fromGate) := by
  refine Machine.run_history (I := fun gs s => Knows s (gs.filter fromGate))
    (fun gs s e s' hs he => ?_) ⟨List.nodup_nil, fun fd p hp => ?_⟩ h
  · rw [List.filter_append]
    exact hs.step he
  · obtain rfl := Option.some.inj hp
    exact ⟨iff_of_false List.not_mem_nil (by decide), iff_of_false List.not_mem_nil (by decide)⟩

/-- What the stage of a socket allows is not blocked. -/
theorem step_isSome [DecidableEq A] (c : App.Codec A M B) {s : App.State A B}
    {gs : List (App.Event A M)} (hs : Knows s gs) {e : App.Event A M} (he : fromGate e = true)
    (hnext : ∀ fd, ∃ p, (gs ++ [e]).foldlM (Stage.next fd) .before = some p) :
    (App.step c s e).isSome := by
  cases e with
  | «open» fd =>
    obtain ⟨p, hp⟩ := hnext fd
    obtain ⟨q, hq, hnext⟩ := foldlM_concat hp
    obtain ⟨hin, hout⟩ := hs.stage fd q hq
    dsimp only [Stage.next] at hnext
    split_ifs at hnext with heq hbefore
    · rw [hbefore] at hin hout
      rw [App.step, if_neg (not_or.mpr ⟨fun h => Stage.noConfusion (hin.mp h),
        fun h => Stage.noConfusion (hout.mp h)⟩)]
      rfl
    · exact absurd rfl heq
  | close fd | error fd | warning fd | data fd _ _ =>
    obtain ⟨p, hp⟩ := hnext fd
    obtain ⟨q, hq, hnext⟩ := foldlM_concat hp
    dsimp only [Stage.next] at hnext
    split_ifs at hnext with heq hconnected
    · rw [App.step, if_pos ((hs.stage fd q hq).1.mpr hconnected)]
      rfl
    · exact absurd rfl heq
  | accepted _ _ | loaded _ _ | saved _ _ | returned _ _ | roomBegin _ | sendtoClient _ _ _ =>
    cases he

end SlgServer.GateApp
