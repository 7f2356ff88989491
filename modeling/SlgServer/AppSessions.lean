import SlgServer.AppSteps
import Mathlib.Data.List.Nodup

/-!
# Sessions and accounts

`player_tbl` and `fd_2_player` should describe one correspondence, between the
accounts logged in and sockets that are open and authed. Ending a connection, or
a warning about one, clears `authed_fd` only, and a login overwrites one entry in
each table and leaves the other ends of the old entries behind.
`sessions_correspond` has the exact condition on the steps of a run.

`authed_finds_player` is about the window in which a socket is authed and has no
player yet.
-/

namespace SlgServer.App

open Machine

variable {A M B : Type}

/-! ## The correspondence -/

/-- The tables describe one correspondence between accounts and sockets. -/
structure Correspond (t : Tables A) : Prop where
  /-- the player of an account has a socket that is open and authed, and is its
  player -/
  account : ∀ a r, t.playerTbl a = some r → ∃ fd, t.players[r]? = some ⟨fd, some a⟩ ∧
    fd ∈ t.connected ∧ t.authedFd fd = true ∧ t.fd2Player fd = some r
  /-- the player of a socket was created for it and is the player of its account -/
  socket : ∀ fd r, t.fd2Player fd = some r → ∃ a, t.players[r]? = some ⟨fd, some a⟩ ∧
    t.playerTbl a = some r

/-- A login for the account can end on the socket: the socket is open and authed,
it has no player of another account, and the account no player on another
socket. -/
structure Fits (t : Tables A) (fd : ℕ) (account : A) : Prop where
  /-- the socket is open -/
  connected : fd ∈ t.connected
  /-- the socket is authed -/
  authed : t.authedFd fd = true
  /-- its player, if it has one, is of this account -/
  sameAccount : ∀ r, t.fd2Player fd = some r → t.players[r]? = some ⟨fd, some account⟩
  /-- the player of the account, if it has one, is on this socket -/
  sameSocket : ∀ r, t.playerTbl account = some r → t.players[r]? = some ⟨fd, some account⟩

/-- The step ends no connection of a player, nor is it a warning about one, and a
login that ends fits the tables. -/
def Careful (s : State A B) (e : Event A M) : Prop :=
  (∀ fd, e.Leaves fd → s.fd2Player fd = none) ∧
    ∀ k, e.Ends k → ∀ l, s.logins[k]? = some l → ∀ fd account,
      s.players[l.obj]? = some ⟨fd, some account⟩ → Fits s.tables fd account

/-! ## Sockets that leave and logins that begin -/

/-- An object in the tables keeps its number when another is made. -/
theorem getElem?_begun {t : Tables A} {r : ℕ} {p q : Player A} (h : t.players[r]? = some p) :
    (t.players ++ [q])[r]? = some p := by
  obtain ⟨hlt, -⟩ := List.getElem?_eq_some_iff.mp h
  rw [List.getElem?_append_left hlt, h]

/-- An object has one socket and one account. -/
theorem eq_of_player {t : Tables A} {r fd fd' : ℕ} {a a' : A}
    (h : t.players[r]? = some ⟨fd, some a⟩) (h' : t.players[r]? = some ⟨fd', some a'⟩) :
    fd = fd' ∧ a = a' := by
  have hsame := h.symm.trans h'
  simpa using hsame

/-- A login that waits has its object among those that do. -/
theorem waiting_of_login {s : State A B} {k : ℕ} {l : Login} (hl : s.logins[k]? = some l) :
    s.tables.waiting[k]? = some l.obj := by
  rw [State.tables, List.getElem?_map, hl]
  rfl

theorem correspond_init : Correspond (State.init : State A B).tables where
  account := by simp [State.init, State.tables]
  socket := by simp [State.init, State.tables]

/-- Taking a socket away keeps the correspondence iff it has no player. -/
theorem correspond_leave {t t' : Tables A} {fd : ℕ} (h : Correspond t)
    (hplayerTbl : t'.playerTbl = t.playerTbl) (hfd2Player : t'.fd2Player = t.fd2Player)
    (hplayers : t'.players = t.players)
    (hauthed : t'.authedFd = Function.update t.authedFd fd false)
    (hconn : ∀ fd', fd' ≠ fd → fd' ∈ t.connected → fd' ∈ t'.connected) :
    Correspond t' ↔ t.fd2Player fd = none := by
  refine ⟨fun h' => ?_, fun hnone => ?_⟩
  · rcases hr : t.fd2Player fd with _ | r
    · rfl
    · -- the player of the socket is the player of an account, whose socket is authed
      obtain ⟨a, hp, ha⟩ := h.socket fd r hr
      obtain ⟨fd', hp', -, hauth, -⟩ := h'.account a r (by rw [hplayerTbl, ha])
      rw [hplayers] at hp'
      obtain ⟨rfl, -⟩ := eq_of_player hp hp'
      simp [hauthed] at hauth
  · refine ⟨fun a r hr => ?_, fun fd' r hr => ?_⟩
    · rw [hplayerTbl] at hr
      obtain ⟨fd', hp, hin, hauth, hback⟩ := h.account a r hr
      have hne : fd' ≠ fd := by
        rintro rfl
        rw [hnone] at hback
        cases hback
      refine ⟨fd', by rw [hplayers, hp], hconn fd' hne hin, ?_, by rw [hfd2Player, hback]⟩
      rw [hauthed, Function.update_of_ne hne, hauth]
    · rw [hfd2Player] at hr
      obtain ⟨a, hp, ha⟩ := h.socket fd' r hr
      exact ⟨a, by rw [hplayers, hp], by rw [hplayerTbl, ha]⟩

/-- A login that begins keeps it. -/
theorem Correspond.begun {t : Tables A} (h : Correspond t) (fd : ℕ) (account : Option A) :
    Correspond (t.begun fd account) := by
  refine ⟨fun a r hr => ?_, fun fd' r hr => ?_⟩
  · obtain ⟨fd', hp, hin, hauth, hback⟩ := h.account a r hr
    refine ⟨fd', getElem?_begun hp, hin, ?_, hback⟩
    simp only [Tables.begun, Function.update_apply]
    split_ifs
    · rfl
    · exact hauth
  · obtain ⟨a, hp, ha⟩ := h.socket fd' r hr
    exact ⟨a, getElem?_begun hp, ha⟩

/-! ## Invariants of the tables -/

/-- What holds of the tables in any case. -/
structure Sound [DecidableEq A] (t : Tables A) : Prop where
  /-- logins wait for objects of their own -/
  waiting_nodup : t.waiting.Nodup
  /-- which exist -/
  waiting_lt : ∀ r ∈ t.waiting, r < t.players.length
  /-- and are not in the tables -/
  waiting_fresh : ∀ r ∈ t.waiting, (∀ a, t.playerTbl a ≠ some r) ∧ ∀ fd, t.fd2Player fd ≠ some r
  /-- an account has a player of its name, on the socket of its last login -/
  playerTbl : ∀ a r, t.playerTbl a = some r → ∃ fd, t.players[r]? = some ⟨fd, some a⟩ ∧
    t.logins.find? (fun l => l.2 = a) = some (fd, a)
  /-- a socket has a player that was created for it -/
  fd2Player : ∀ fd r, t.fd2Player fd = some r → ∃ a, t.players[r]? = some ⟨fd, some a⟩
  /-- a socket has a player iff a login on it has ended -/
  loggedIn : ∀ fd, t.fd2Player fd ≠ none ↔ ∃ a, (fd, a) ∈ t.logins
  /-- only open sockets are authed -/
  authed : ∀ fd, t.authedFd fd = true → fd ∈ t.connected
  /-- a socket is connected once -/
  connected_nodup : t.connected.Nodup

theorem sound_init [DecidableEq A] : Sound (State.init : State A B).tables where
  waiting_nodup := List.nodup_nil
  waiting_lt := by simp [State.init, State.tables]
  waiting_fresh := by simp [State.init, State.tables]
  playerTbl := by simp [State.init, State.tables]
  fd2Player := by simp [State.init, State.tables]
  loggedIn := by simp [State.init, State.tables]
  authed := by simp [State.init, State.tables]
  connected_nodup := List.nodup_nil

variable [DecidableEq A]

/-- Closing or warning keeps the invariants. -/
theorem Sound.unauthed {t : Tables A} (h : Sound t) (fd : ℕ) : Sound (t.unauthed fd) := by
  refine { h with authed := fun fd' hauth => ?_ }
  rw [Tables.unauthed] at hauth
  simp only [Function.update_apply] at hauth
  split_ifs at hauth
  exact h.authed fd' hauth

theorem Sound.ended {t : Tables A} (h : Sound t) (fd : ℕ) : Sound (t.ended fd) := by
  refine { h with
    connected_nodup := h.connected_nodup.erase fd
    authed := fun fd' hauth => ?_ }
  rw [Tables.ended, Tables.unauthed] at hauth
  simp only [Function.update_apply] at hauth
  split_ifs at hauth with hne
  exact (List.mem_erase_of_ne hne).mpr (h.authed fd' hauth)

theorem Sound.opened {t : Tables A} (h : Sound t) {fd : ℕ} (hnew : fd ∉ t.connected) :
    Sound (t.opened fd) :=
  { h with
    connected_nodup := h.connected_nodup.append (List.nodup_singleton fd) (by simpa using hnew)
    authed := fun fd' hauth => List.mem_append_left _ (h.authed fd' hauth) }

theorem Sound.begun {t : Tables A} (h : Sound t) {fd : ℕ} (hfd : fd ∈ t.connected)
    (account : Option A) : Sound (t.begun fd account) where
  waiting_nodup := by
    refine h.waiting_nodup.append (List.nodup_singleton _) ?_
    simp only [List.disjoint_singleton]
    intro hmem
    exact absurd (h.waiting_lt _ hmem) (Nat.lt_irrefl _)
  waiting_lt r hr := by
    simp only [Tables.begun, List.mem_append, List.mem_singleton, List.length_append,
      List.length_singleton] at hr ⊢
    rcases hr with hr | rfl
    · exact Nat.lt_succ_of_lt (h.waiting_lt r hr)
    · exact Nat.lt_succ_self _
  waiting_fresh r hr := by
    simp only [Tables.begun, List.mem_append, List.mem_singleton] at hr
    rcases hr with hr | rfl
    · exact h.waiting_fresh r hr
    · -- the tables hold objects that exist already
      refine ⟨fun a hmem => ?_, fun fd' hmem => ?_⟩
      · obtain ⟨fd', hp, -⟩ := h.playerTbl a _ hmem
        simp at hp
      · obtain ⟨a, hp⟩ := h.fd2Player fd' _ hmem
        simp at hp
  playerTbl a r hr := by
    obtain ⟨fd', hp, hlast⟩ := h.playerTbl a r hr
    exact ⟨fd', getElem?_begun hp, hlast⟩
  fd2Player fd' r hr := by
    obtain ⟨a, hp⟩ := h.fd2Player fd' r hr
    exact ⟨a, getElem?_begun hp⟩
  loggedIn := h.loggedIn
  connected_nodup := h.connected_nodup
  authed fd' hauth := by
    simp only [Tables.begun, Function.update_apply] at hauth
    split_ifs at hauth with heq
    · rw [heq]
      exact hfd
    · exact h.authed fd' hauth

theorem Sound.dropped {t : Tables A} (h : Sound t) (k : ℕ) : Sound (t.dropped k) :=
  { h with
    waiting_nodup := h.waiting_nodup.eraseIdx k
    waiting_lt := fun r hr => h.waiting_lt r (List.mem_of_mem_eraseIdx hr)
    waiting_fresh := fun r hr => h.waiting_fresh r (List.mem_of_mem_eraseIdx hr) }

theorem Sound.added {t : Tables A} (h : Sound t) {k obj fd : ℕ} {account : A}
    (hk : t.waiting[k]? = some obj) (hp : t.players[obj]? = some ⟨fd, some account⟩) :
    Sound (t.added k obj fd account) where
  waiting_nodup := (h.dropped k).waiting_nodup
  waiting_lt := (h.dropped k).waiting_lt
  waiting_fresh r hr := by
    -- the object of the login waits at `k` only
    have hne : r ≠ obj := by
      rintro rfl
      obtain ⟨i, hi, hget⟩ := List.mem_eraseIdx_iff_getElem?.mp hr
      obtain ⟨hlt, -⟩ := List.getElem?_eq_some_iff.mp hget
      exact hi ((List.getElem?_inj hlt h.waiting_nodup).mp (hget.trans hk.symm))
    obtain ⟨hacc, hfd⟩ := h.waiting_fresh r (List.mem_of_mem_eraseIdx hr)
    refine ⟨fun a => ?_, fun fd' => ?_⟩
    · simp only [Tables.added, Function.update_apply]
      split_ifs
      · simpa using Ne.symm hne
      · exact hacc a
    · simp only [Tables.added, Function.update_apply]
      split_ifs
      · simpa using Ne.symm hne
      · exact hfd fd'
  playerTbl a r hr := by
    simp only [Tables.added, Function.update_apply] at hr ⊢
    by_cases ha : a = account
    · obtain rfl : obj = r := by simpa [ha] using hr
      exact ⟨fd, by rw [ha]; exact hp, by simp [ha]⟩
    · obtain ⟨fd', hp', hlast⟩ := h.playerTbl a r (by simpa [ha] using hr)
      exact ⟨fd', hp', by simpa [Ne.symm ha] using hlast⟩
  fd2Player fd' r hr := by
    simp only [Tables.added, Function.update_apply] at hr ⊢
    by_cases hfd : fd' = fd
    · obtain rfl : obj = r := by simpa [hfd] using hr
      exact ⟨account, by rw [hfd]; exact hp⟩
    · exact h.fd2Player fd' r (by simpa [hfd] using hr)
  loggedIn fd' := by
    simp only [Tables.added, Function.update_apply, List.mem_cons, Prod.mk.injEq]
    by_cases hfd : fd' = fd
    · simp [hfd]
    · simpa [hfd] using h.loggedIn fd'
  connected_nodup := h.connected_nodup
  authed := h.authed

/-- **Every event keeps the invariants.** -/
theorem sound_step {c : Codec A M B} {s s' : State A B} {e : Event A M} (h : Sound s.tables)
    (hs : step c s e = some s') : Sound s'.tables := by
  generalize ht : s'.tables = t
  have heffect := step_effect hs
  rw [ht] at heffect
  cases heffect with
  | quiet => exact h
  | opened fd hnew => exact h.opened hnew
  | ended fd => exact h.ended fd
  | warned fd => exact h.unauthed fd
  | begun fd protoId params hfd => exact h.begun hfd params.account
  | added k _ _ l hl fd account hp => exact h.added (waiting_of_login hl) hp
  | dropped k => exact h.dropped k

/-! ## Logins that end -/

/-- A login that ends keeps it iff it fits. -/
theorem correspond_added {t : Tables A} {k obj fd : ℕ} {account : A} (h : Correspond t)
    (hs : Sound t) (hk : t.waiting[k]? = some obj)
    (hp : t.players[obj]? = some ⟨fd, some account⟩) :
    Correspond (t.added k obj fd account) ↔ Fits t fd account := by
  obtain ⟨hfreshAcc, hfreshFd⟩ := hs.waiting_fresh obj (List.mem_of_getElem? hk)
  refine ⟨fun h' => ?_, ?_⟩
  · obtain ⟨fd', hp', hin, hauth, -⟩ := h'.account account obj (by simp [Tables.added])
    obtain ⟨rfl, -⟩ := eq_of_player hp hp'
    refine ⟨hin, hauth, fun r hr => ?_, fun r hr => ?_⟩
    · -- the entry of another account would point at a socket that is not its own
      obtain ⟨a, hpa, ha⟩ := h.socket fd r hr
      by_cases hne : a = account
      · rw [hpa, hne]
      · obtain ⟨fd', hp', -, -, hback⟩ := h'.account a r (by simp [Tables.added, hne, ha])
        rw [(eq_of_player hp' hpa).1] at hback
        obtain rfl : obj = r := by simpa [Tables.added] using hback
        exact absurd hr (hfreshFd fd)
    · obtain ⟨fd', hp', -, -, hback⟩ := h.account account r hr
      by_cases hne : fd' = fd
      · rw [hp', hne]
      · obtain ⟨a, hpa, ha⟩ := h'.socket fd' r (by simp [Tables.added, hne, hback])
        rw [← (eq_of_player hp' hpa).2] at ha
        obtain rfl : obj = r := by simpa [Tables.added] using ha
        exact absurd hr (hfreshAcc account)
  · rintro ⟨hin, hauth, hacc, hsock⟩
    refine ⟨fun a r hr => ?_, fun fd' r hr => ?_⟩
    · by_cases ha : a = account
      · obtain rfl : obj = r := by simpa [Tables.added, ha] using hr
        exact ⟨fd, by rw [ha]; exact hp, hin, hauth, by simp [Tables.added]⟩
      · obtain ⟨fd', hp', hin', hauth', hback⟩ :=
          h.account a r (by simpa [Tables.added, ha] using hr)
        have hne : fd' ≠ fd := by
          rintro rfl
          exact ha (eq_of_player hp' (hacc r hback)).2
        exact ⟨fd', hp', hin', hauth', by simp [Tables.added, hne, hback]⟩
    · by_cases hfd : fd' = fd
      · obtain rfl : obj = r := by simpa [Tables.added, hfd] using hr
        exact ⟨account, by rw [hfd]; exact hp, by simp [Tables.added]⟩
      · obtain ⟨a, hp', ha⟩ := h.socket fd' r (by simpa [Tables.added, hfd] using hr)
        have hne : a ≠ account := by
          rintro rfl
          exact hfd (eq_of_player hp' (hsock r ha)).1
        exact ⟨a, hp', by simp [Tables.added, hne, ha]⟩

/-- **One step** keeps the correspondence iff it is careful. -/
theorem correspond_step {c : Codec A M B} {s s' : State A B} {e : Event A M} (hs : Sound s.tables)
    (h : Correspond s.tables) (hstep : step c s e = some s') :
    Correspond s'.tables ↔ Careful s e := by
  generalize ht : s'.tables = t
  have heffect := step_effect hstep
  rw [ht] at heffect
  cases heffect with
  | quiet _ hends hleaves =>
    exact iff_of_true h ⟨fun fd hl => absurd hl (hleaves fd), fun k hk => absurd hk (hends k)⟩
  | opened fd =>
    refine iff_of_true ⟨fun a r hr => ?_, h.socket⟩ (by simp [Careful, Event.Leaves, Event.Ends])
    obtain ⟨fd', hp, hin, hauth, hback⟩ := h.account a r hr
    exact ⟨fd', hp, List.mem_append_left _ hin, hauth, hback⟩
  | ended fd _ he =>
    have hleave : Correspond (s.tables.ended fd) ↔ s.fd2Player fd = none :=
      correspond_leave h rfl rfl rfl rfl fun fd' hne hin => (List.mem_erase_of_ne hne).mpr hin
    rw [hleave]
    rcases he with rfl | rfl <;> simp [Careful, Event.Leaves, Event.Ends]
  | warned fd =>
    have hleave : Correspond (s.tables.unauthed fd) ↔ s.fd2Player fd = none :=
      correspond_leave h rfl rfl rfl rfl fun fd' _ hin => hin
    rw [hleave]
    simp [Careful, Event.Leaves, Event.Ends]
  | begun fd protoId params =>
    exact iff_of_true (h.begun fd params.account) (by simp [Careful, Event.Leaves, Event.Ends])
  | added k _ he l hl fd account hp =>
    rw [correspond_added h hs (waiting_of_login hl) hp]
    refine ⟨fun hfits => ?_, ?_⟩
    · refine ⟨fun fd' hl => absurd hl he.not_leaves, fun k' hk' l' hl' fd' account' hp' => ?_⟩
      obtain rfl := he.unique hk'
      obtain rfl : l = l' := Option.some.inj (hl.symm.trans hl')
      cases hp.symm.trans hp'
      exact hfits
    · exact fun hcareful => hcareful.2 k he l hl fd account hp
  | dropped k _ hleaves _ l hl he =>
    refine iff_of_true ⟨h.account, h.socket⟩ ⟨fun fd hl => absurd hl (hleaves fd), ?_⟩
    intro k' hk' l' hl' fd account hp
    obtain ⟨rfl, hnone⟩ := he k' hk'
    obtain rfl : l = l' := Option.some.inj (hl.symm.trans hl')
    exact absurd hp (hnone fd account)

/-! ## Runs -/

/-- The socket of the last login that ended for an account. -/
def State.lastLogin (s : State A B) (account : A) : Option ℕ :=
  (s.seen.logins.find? fun l => l.2 = account).map Prod.fst

/-- Sessions and accounts correspond one to one, so that a message for an account is
written to the open socket that last logged in as it, and a socket that is not
connected has left no entry behind. -/
structure SessionsOk (c : Codec A M B) (s : State A B) : Prop where
  /-- the tables correspond -/
  correspond : Correspond s.tables
  /-- where messages go -/
  delivered : ∀ account protoName msg,
    (s.sendtoClient c (some account) protoName msg).written = s.written ∨
      ∃ fd bytes, (s.sendtoClient c (some account) protoName msg).written =
          s.written ++ [(fd, bytes)] ∧
        fd ∈ s.seen.connected ∧ s.lastLogin account = some fd
  /-- what is left of other sockets -/
  cleared : ∀ fd, fd ∉ s.seen.connected → s.authedFd fd = false ∧ s.fd2Player fd = none ∧
    ∀ a r p, s.playerTbl a = some r → s.players[r]? = some p → p.fd ≠ fd

/-- Where messages go and what closed sockets leave follows from the correspondence. -/
theorem Correspond.sessionsOk {c : Codec A M B} {s : State A B} (hs : Sound s.tables)
    (h : Correspond s.tables) : SessionsOk c s where
  correspond := h
  delivered account protoName msg := by
    rcases hr : s.playerTbl account with _ | r
    · exact .inl (by simp [State.sendtoClient, hr])
    · obtain ⟨fd, hp, hin, -, -⟩ := h.account account r hr
      obtain ⟨fd', hp', hlast⟩ := hs.playerTbl account r hr
      have hp : s.players[r]? = some ⟨fd, some account⟩ := hp
      cases hp.symm.trans hp'
      refine .inr ⟨fd, c.pack (c.nameToId protoName) (.number (c.nameToId protoName)), ?_, hin, ?_⟩
      · simp [State.sendtoClient, hr, hp, State.send, State.write]
      · have hlast : s.seen.logins.find? (fun l => l.2 = account) = some (fd, account) := hlast
        rw [State.lastLogin, hlast]
        rfl
  cleared fd hfd := by
    refine ⟨?_, ?_, fun a r p hr hp => ?_⟩
    · by_contra hauth
      exact hfd (hs.authed fd (by simpa [State.tables] using hauth))
    · rcases hr : s.fd2Player fd with _ | r
      · rfl
      · obtain ⟨a, hp, ha⟩ := h.socket fd r hr
        obtain ⟨fd', hp', hin, -⟩ := h.account a r ha
        cases hp.symm.trans hp'
        exact absurd hin hfd
    · obtain ⟨fd', hp', hin, -⟩ := h.account a r hr
      cases hp.symm.trans hp'
      rintro rfl
      exact hfd hin

/-- **Sessions and accounts.** In every run of a base app the tables correspond in
every state, those with a login under way included, iff every step is careful; and
in runs of careful steps sessions and accounts correspond one to one whenever no
login is under way. -/
theorem sessions_correspond {c : Codec A M B} {s : State A B} {es : List (Event A M)}
    (h : run (step c) State.init es = some s) :
    (Always (step c) (fun s => Correspond s.tables) State.init es ↔
        Guarded (step c) Careful State.init es) ∧
      (Guarded (step c) Careful State.init es →
        Always (step c) (fun s => s.logins = [] → SessionsOk c s) State.init es) := by
  refine ⟨?_, ?_⟩
  · exact always_iff_guarded (I := fun s => Sound s.tables)
      (fun s e s' hI hs => sound_step hI hs)
      (fun s e s' hI hP hs => correspond_step hI hP hs) sound_init correspond_init h
  · refine always_of_guarded (I := fun s => Sound s.tables ∧ Correspond s.tables)
      (fun s e s' hI hC hs => ⟨sound_step hI.1 hs, (correspond_step hI.1 hI.2 hs).mpr hC⟩)
      (fun s hI _ => hI.2.sessionsOk hI.1) ⟨sound_init, correspond_init⟩

/-- A login of account `7` on socket `3`, whose player is in the database. -/
def oneLogin : List (Event ℕ Unit) :=
  [.open 3, .accepted 0 true, .data 3 1 ⟨some "token", some 7, none, none⟩,
    .loaded 0 (.found ⟨"Hero", 0⟩)]

/-- After this login account and socket correspond. -/
theorem sessions_correspond_oneLogin :
    ∃ s, run (step (plainCodec ℕ Unit)) State.init oneLogin = some s ∧
      SessionsOk (plainCodec ℕ Unit) s := by
  obtain ⟨s, hs, hlogins⟩ : ∃ s, run (step (plainCodec ℕ Unit)) State.init oneLogin = some s ∧
      s.logins = [] := ⟨_, rfl, rfl⟩
  refine ⟨s, hs, ((sessions_correspond hs).2 ?_).last hs hlogins⟩
  refine guarded_cons rfl ?_ (guarded_cons rfl ?_ (guarded_cons rfl ?_ (guarded_cons rfl ?_
    trivial)))
  · simp [Careful, Event.Leaves, Event.Ends]
  · simp [Careful, Event.Leaves, Event.Ends]
  · simp [Careful, Event.Leaves, Event.Ends]
  · refine ⟨by simp [Event.Leaves], fun k hk l hl fd account hp => ?_⟩
    obtain rfl := hk.unique (.inl ⟨_, rfl⟩)
    cases hl
    cases hp
    refine ⟨List.mem_singleton_self 3, rfl, fun r hr => ?_, fun r hr => ?_⟩
    · cases hr
    · cases hr

/-- When the socket of this login is closed, the account keeps its player, whose
socket is gone. -/
theorem closed_socket_keeps_player :
    ∃ s, run (step (plainCodec ℕ Unit)) State.init (oneLogin ++ [.close 3]) = some s ∧
      s.logins = [] ∧ ¬ Correspond s.tables := by
  refine ⟨_, rfl, rfl, fun h => ?_⟩
  obtain ⟨fd, -, hin, -⟩ := h.account 7 0 rfl
  exact absurd hin List.not_mem_nil

/-! ## Room requests -/

/-- The message goes to a handler of `msg_handler/room`. -/
def RoomData (c : Codec A M B) (protoId : ℕ) : Prop :=
  c.idToName protoId = some "room.create_room" ∨ c.idToName protoId = some "room.join_room"

/-- A room request that is let through because its socket is authed finds a player. -/
def FindsPlayer (c : Codec A M B) (s : State A B) (e : Event A M) : Prop :=
  ∀ fd protoId params, e = .data fd protoId params → RoomData c protoId →
    s.authedFd fd = true → s.fd2Player fd ≠ none

/-- A room request on an authed socket comes after a login on this socket has ended,
with the player loaded or saved. -/
def AfterLogin (c : Codec A M B) (s : State A B) (e : Event A M) : Prop :=
  ∀ fd protoId params, e = .data fd protoId params → RoomData c protoId →
    s.authedFd fd = true → ∃ account, (fd, account) ∈ s.seen.logins

/-- **Authed sockets and players.** In every run of a base app the room requests let
through find their players iff each comes after a login on its socket has ended. -/
theorem authed_finds_player {c : Codec A M B} {s : State A B} {es : List (Event A M)}
    (h : run (step c) State.init es = some s) :
    Guarded (step c) (FindsPlayer c) State.init es ↔
      Guarded (step c) (AfterLogin c) State.init es := by
  have hstep : ∀ s e s', Sound s.tables → step c s e = some s' → Sound s'.tables :=
    fun s e s' hI hs => sound_step hI hs
  refine ⟨?_, ?_⟩
  · refine guarded_mono (I := fun s => Sound s.tables) (fun s e s' hI _ hs => hstep s e s' hI hs)
      (fun s e s' hI hfinds _ => ?_) sound_init h
    intro fd protoId params he hroom hauth
    exact (hI.loggedIn fd).mp (hfinds fd protoId params he hroom hauth)
  · refine guarded_mono (I := fun s => Sound s.tables) (fun s e s' hI _ hs => hstep s e s' hI hs)
      (fun s e s' hI hafter _ => ?_) sound_init h
    intro fd protoId params he hroom hauth
    exact (hI.loggedIn fd).mpr (hafter fd protoId params he hroom hauth)

/-- A room request after the login finds its player. -/
theorem authed_finds_player_oneLogin :
    Guarded (step (plainCodec ℕ Unit)) (FindsPlayer (plainCodec ℕ Unit)) State.init
      (oneLogin ++ [.data 3 2 ⟨none, none, some 1, none⟩]) := by
  refine (authed_finds_player (c := plainCodec ℕ Unit) (s := _) rfl).mpr ?_
  refine guarded_cons rfl ?_ (guarded_cons rfl ?_ (guarded_cons rfl ?_ (guarded_cons rfl ?_
    (guarded_cons rfl ?_ trivial))))
  · simp [AfterLogin]
  · simp [AfterLogin]
  · rintro _ _ _ ⟨⟩ hroom -
    simp [RoomData, plainCodec] at hroom
  · simp [AfterLogin]
  · rintro _ _ _ ⟨⟩ - -
    exact ⟨7, List.mem_singleton_self _⟩

/-- A room request while the player is being loaded is let through and finds none. -/
theorem authed_without_player :
    ¬ Guarded (step (plainCodec ℕ Unit)) (FindsPlayer (plainCodec ℕ Unit)) State.init
      [.open 3, .accepted 0 true, .data 3 1 ⟨some "token", some 7, none, none⟩,
        .data 3 2 ⟨none, none, some 1, none⟩] := by
  intro h
  exact ((h.2 _ rfl).2 _ rfl).2 _ rfl |>.1 3 2 _ rfl (.inl rfl) rfl rfl

end SlgServer.App
