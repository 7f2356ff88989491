import SlgServer.App
import Mathlib.Data.List.InsertIdx

/-!
# What an event does to the tables of a base app

Most events write to sockets, or move the counter, and leave the tables alone.
`step_effect` says once what each event does to them; the invariants of the
tables are then read off case by case.
-/

namespace SlgServer.App

variable {A M B : Type}

/-- The tables, the player objects with the logins that wait, and the record of
sockets and logins. -/
@[ext] structure Tables (A : Type) : Type where
  /-- `authed_fd` -/
  authedFd : ℕ → Bool
  /-- `player_tbl` -/
  playerTbl : A → Option ℕ
  /-- `fd_2_player` -/
  fd2Player : ℕ → Option ℕ
  /-- the player objects -/
  players : List (Player A)
  /-- the objects of the logins that wait -/
  waiting : List ℕ
  /-- the sockets that are connected -/
  connected : List ℕ
  /-- the sockets that are gone -/
  gone : List ℕ
  /-- the logins that ended -/
  logins : List (ℕ × A)

/-- The tables in a state. -/
def State.tables (s : State A B) : Tables A where
  authedFd := s.authedFd
  playerTbl := s.playerTbl
  fd2Player := s.fd2Player
  players := s.players
  waiting := s.logins.map Login.obj
  connected := s.seen.connected
  gone := s.seen.gone
  logins := s.seen.logins

/-- A new connection. -/
def Tables.opened (t : Tables A) (fd : ℕ) : Tables A :=
  { t with connected := t.connected ++ [fd] }

/-- The socket is not authed any more. -/
def Tables.unauthed (t : Tables A) (fd : ℕ) : Tables A :=
  { t with authedFd := Function.update t.authedFd fd false }

/-- The connection has ended. -/
def Tables.ended (t : Tables A) (fd : ℕ) : Tables A :=
  { t.unauthed fd with connected := t.connected.erase fd, gone := fd :: t.gone }

/-- A login has begun: the socket is authed, and a player object made. -/
def Tables.begun (t : Tables A) (fd : ℕ) (account : Option A) : Tables A :=
  { t with
    authedFd := Function.update t.authedFd fd true
    players := t.players ++ [⟨fd, account⟩]
    waiting := t.waiting ++ [t.players.length] }

/-- A login waits no longer. -/
def Tables.dropped (t : Tables A) (k : ℕ) : Tables A := { t with waiting := t.waiting.eraseIdx k }

/-- A login has ended: the player is in the two tables of `player_mgr`. -/
def Tables.added [DecidableEq A] (t : Tables A) (k obj fd : ℕ) (account : A) : Tables A :=
  { t.dropped k with
    playerTbl := Function.update t.playerTbl account (some obj)
    fd2Player := Function.update t.fd2Player fd (some obj)
    logins := (fd, account) :: t.logins }

/-- The database has answered the login number `k` so that it can end. -/
def Event.Ends (e : Event A M) (k : ℕ) : Prop :=
  (∃ obj, e = .loaded k (.found obj)) ∨ e = .saved k true

theorem Event.Ends.unique {e : Event A M} {k k' : ℕ} (h : e.Ends k) (h' : e.Ends k') : k = k' := by
  rcases h with ⟨obj, rfl⟩ | rfl <;> rcases h' with ⟨obj', h'⟩ | h' <;> cases h' <;> rfl

/-- The gate reports something after which the socket is not authed. -/
def Event.Leaves (e : Event A M) (fd : ℕ) : Prop :=
  e = .close fd ∨ e = .error fd ∨ e = .warning fd

theorem Event.Ends.not_leaves {e : Event A M} {k fd : ℕ} (h : e.Ends k) : ¬ e.Leaves fd := by
  rcases h with ⟨obj, rfl⟩ | rfl <;> simp [Event.Leaves]

theorem Event.Ends.not_data {e : Event A M} {k : ℕ} (h : e.Ends k) (fd protoId : ℕ)
    (params : Params A) : e ≠ .data fd protoId params := by
  rcases h with ⟨obj, rfl⟩ | rfl <;> simp

/-- The message is a login that carries the token. -/
def LoginData (c : Codec A M B) (protoId : ℕ) (params : Params A) : Prop :=
  c.idToName protoId = some "login.login_baseapp" ∧ params.token = some "token"

/-- **What an event does to the tables.** -/
inductive Effect [DecidableEq A] (c : Codec A M B) (s : State A B) :
    Event A M → Tables A → Prop where
  /-- nothing: an answer, a write to a socket, a room request, a wrong token -/
  | quiet (e : Event A M) (hends : ∀ k, ¬ e.Ends k) (hleaves : ∀ fd, ¬ e.Leaves fd)
      (hdata : ∀ fd protoId params, e = .data fd protoId params → ¬ LoginData c protoId params) :
      Effect c s e s.tables
  /-- a connection -/
  | opened (fd : ℕ) (hnew : fd ∉ s.seen.connected) (hgone : fd ∉ s.seen.gone) :
      Effect c s (.open fd) (s.tables.opened fd)
  /-- the end of a connection -/
  | ended (fd : ℕ) (e : Event A M) (he : e = .close fd ∨ e = .error fd)
      (hfd : fd ∈ s.seen.connected) : Effect c s e (s.tables.ended fd)
  /-- a warning -/
  | warned (fd : ℕ) (hfd : fd ∈ s.seen.connected) :
      Effect c s (.warning fd) (s.tables.unauthed fd)
  /-- a login begins -/
  | begun (fd protoId : ℕ) (params : Params A) (hfd : fd ∈ s.seen.connected)
      (hlogin : LoginData c protoId params) :
      Effect c s (.data fd protoId params) (s.tables.begun fd params.account)
  /-- a login ends -/
  | added (k : ℕ) (e : Event A M) (he : e.Ends k) (l : Login) (hl : s.logins[k]? = some l)
      (fd : ℕ) (account : A) (hp : s.players[l.obj]? = some ⟨fd, some account⟩) :
      Effect c s e (s.tables.added k l.obj fd account)
  /-- a login fails -/
  | dropped (k : ℕ) (e : Event A M) (hleaves : ∀ fd, ¬ e.Leaves fd)
      (hdata : ∀ fd protoId params, e ≠ .data fd protoId params) (l : Login)
      (hl : s.logins[k]? = some l)
      (he : ∀ k', e.Ends k' → k' = k ∧ ∀ fd account, s.players[l.obj]? ≠ some ⟨fd, some account⟩) :
      Effect c s e (s.tables.dropped k)

/-! ## The handlers -/

@[simp] theorem State.tables_write (s : State A B) (fd : ℕ) (bytes : B) :
    (s.write fd bytes).tables = s.tables := rfl

@[simp] theorem State.tables_decClients (s : State A B) : s.decClients.tables = s.tables := by
  rw [State.decClients]
  split_ifs <;> rfl

theorem State.tables_closeConn (s : State A B) (fd : ℕ) :
    (s.closeConn fd).tables = s.tables.unauthed fd := by
  rw [State.closeConn, State.tables_decClients]
  rfl

theorem State.tables_ended (s : State A B) (fd : ℕ) : (s.ended fd).tables = s.tables.ended fd := by
  rw [State.ended, State.tables_closeConn]
  rfl

theorem State.tables_warning (s : State A B) (fd : ℕ) :
    (s.warning fd).tables = s.tables.unauthed fd := by
  rw [State.warning, State.tables_closeConn]
  rfl

theorem State.tables_sendtoClient (c : Codec A M B) (s : State A B) (account : Option A)
    (protoName : String) (msg : Table A M) :
    (s.sendtoClient c account protoName msg).tables = s.tables := by
  rw [State.sendtoClient]
  split <;> rfl

theorem State.tables_roomRequest (s : State A B) (fd protoId : ℕ) (join : Option (Option ℕ)) :
    (s.roomRequest fd protoId join).tables = s.tables := by
  rw [State.roomRequest]
  split <;> rfl

theorem State.tables_auth (c : Codec A M B) (s : State A B) (fd protoId : ℕ) (msg : Params A) :
    (s.auth c fd protoId msg).tables =
      if msg.token = some "token" then s.tables.begun fd msg.account else s.tables := by
  rw [State.auth]
  by_cases htoken : msg.token = some "token"
  · rw [if_neg (by simpa using htoken), if_pos htoken]
    simp [State.tables, Tables.begun, State.authFd]
  · rw [if_pos htoken, if_neg htoken, State.tables_write]

/-- **A message** begins a login or leaves the tables alone. -/
theorem State.tables_data (c : Codec A M B) (s : State A B) (fd protoId : ℕ) (params : Params A) :
    (LoginData c protoId params ∧
        (s.data c fd protoId params).tables = s.tables.begun fd params.account) ∨
      (¬ LoginData c protoId params ∧ (s.data c fd protoId params).tables = s.tables) := by
  by_cases hname : c.idToName protoId = some "login.login_baseapp"
  · have hdata : s.data c fd protoId params = s.auth c fd protoId params := by
      simp [State.data, State.dispatch, hname]
    rw [hdata, State.tables_auth]
    by_cases htoken : params.token = some "token"
    · rw [if_pos htoken]
      exact .inl ⟨⟨hname, htoken⟩, rfl⟩
    · rw [if_neg htoken]
      exact .inr ⟨fun h => htoken h.2, rfl⟩
  · refine .inr ⟨fun h => hname h.1, ?_⟩
    rw [State.data]
    split_ifs
    · rw [State.dispatch]
      split
      · exact absurd ‹_› hname
      · exact s.tables_roomRequest fd protoId none
      · exact s.tables_roomRequest fd protoId (some params.roomId)
      · rfl
    · rfl

/-- Replacing an entry by one that looks the same leaves the look of a list as it is. -/
theorem map_set_eq {α β : Type} {f : α → β} {l : List α} {k : ℕ} {x y : α}
    (hx : l[k]? = some x) (hy : f y = f x) : (l.set k y).map f = l.map f := by
  obtain ⟨hk, rfl⟩ := List.getElem?_eq_some_iff.mp hx
  have hk' : k < (l.map f).length := by simpa using hk
  have hget : f l[k] = (l.map f)[k] := (List.getElem_map f).symm
  rw [List.map_set, hy, hget, List.set_getElem_self]

/-- A login that is taken out waits no longer. -/
theorem State.tables_eraseIdx (s : State A B) (k : ℕ) :
    ({ s with logins := s.logins.eraseIdx k } : State A B).tables = s.tables.dropped k := by
  simp [State.tables, Tables.dropped, List.eraseIdx_map]

variable [DecidableEq A]

/-- **The end of a login** adds the player, unless it has no account. -/
theorem State.tables_loggedIn (c : Codec A M B) (s : State A B) (k : ℕ) (l : Login) (obj : Record) :
    (∃ fd account, s.players[l.obj]? = some ⟨fd, some account⟩ ∧
        (State.loggedIn c { s with logins := s.logins.eraseIdx k } l obj).tables =
          s.tables.added k l.obj fd account) ∨
      ((∀ fd account, s.players[l.obj]? ≠ some ⟨fd, some account⟩) ∧
        (State.loggedIn c { s with logins := s.logins.eraseIdx k } l obj).tables =
          s.tables.dropped k) := by
  rcases hp : s.players[l.obj]? with _ | ⟨fd, _ | account⟩
  · refine .inr ⟨by simp, ?_⟩
    simp [State.loggedIn, State.add, hp, s.tables_eraseIdx k]
  · refine .inr ⟨by simp, ?_⟩
    simp [State.loggedIn, State.add, hp, s.tables_eraseIdx k]
  · refine .inl ⟨fd, account, rfl, ?_⟩
    simp [State.loggedIn, State.add, hp, State.tables, Tables.added, Tables.dropped,
      List.eraseIdx_map, State.write]

/-! ## One event -/

/-- A login that can end does so, or fails for want of an account. -/
theorem effect_loggedIn {c : Codec A M B} {s : State A B} {e : Event A M} {k : ℕ} {l : Login}
    (he : e.Ends k) (hl : s.logins[k]? = some l) (obj : Record) :
    Effect c s e (State.loggedIn c { s with logins := s.logins.eraseIdx k } l obj).tables := by
  rcases s.tables_loggedIn c k l obj with ⟨fd, account, hp, htables⟩ | ⟨hp, htables⟩
  · rw [htables]
    exact .added k e he l hl fd account hp
  · rw [htables]
    exact .dropped k e (fun _ => he.not_leaves) he.not_data l hl fun k' hk' => ⟨hk'.unique he, hp⟩

/-- **Each event has one of these effects.** -/
theorem step_effect {c : Codec A M B} {s s' : State A B} {e : Event A M}
    (h : step c s e = some s') : Effect c s e s'.tables := by
  cases e with
  | «open» fd =>
    rw [step] at h
    split_ifs at h with hfd
    obtain ⟨hnew, hgone⟩ := not_or.mp hfd
    cases h
    exact .opened fd hnew hgone
  | accepted k ok =>
    rw [step] at h
    split_ifs at h with hk hok <;> cases h <;>
      exact .quiet _ (by simp [Event.Ends]) (by simp [Event.Leaves]) (by simp)
  | close fd =>
    rw [step] at h
    split_ifs at h with hfd
    cases h
    rw [State.tables_ended]
    exact .ended fd _ (.inl rfl) hfd
  | error fd =>
    rw [step] at h
    split_ifs at h with hfd
    cases h
    rw [State.tables_ended]
    exact .ended fd _ (.inr rfl) hfd
  | warning fd =>
    rw [step] at h
    split_ifs at h with hfd
    cases h
    rw [State.tables_warning]
    exact .warned fd hfd
  | data fd protoId params =>
    rw [step] at h
    split_ifs at h with hfd
    cases h
    rcases s.tables_data c fd protoId params with ⟨hlogin, htables⟩ | ⟨hlogin, htables⟩
    · rw [htables]
      exact .begun fd protoId params hfd hlogin
    · rw [htables]
      refine .quiet _ (by simp [Event.Ends]) (by simp [Event.Leaves]) ?_
      rintro fd' protoId' params' ⟨⟩
      exact hlogin
  | loaded k answer =>
    obtain ⟨l, hl, rfl⟩ := step_loaded h
    cases answer with
    | found obj => exact effect_loggedIn (.inl ⟨obj, rfl⟩) hl obj
    | absent time =>
      -- the login goes on waiting, with the same object
      have hset : (s.logins.set k { l with stage := .saving (createDb time) }).map Login.obj =
          s.logins.map Login.obj := map_set_eq hl rfl
      have htables : (s.loaded c k l (.absent time)).tables = s.tables := by
        simp [State.loaded, State.tables, hset]
      rw [htables]
      exact .quiet _ (by simp [Event.Ends]) (by simp [Event.Leaves]) (by simp)
    | raised =>
      rw [State.loaded, State.tables_eraseIdx]
      exact .dropped k _ (by simp [Event.Leaves]) (by simp) l hl (by simp [Event.Ends])
  | saved k ok =>
    obtain ⟨l, obj, hl, rfl⟩ := step_saved h
    cases ok with
    | false =>
      rw [if_neg (by decide), State.tables_eraseIdx]
      exact .dropped k _ (by simp [Event.Leaves]) (by simp) l hl (by simp [Event.Ends])
    | true =>
      rw [if_pos rfl]
      exact effect_loggedIn (.inr rfl) hl obj
  | returned k answer =>
    rcases step_returned h with ⟨fd, bytes, rfl⟩ | rfl <;>
      exact .quiet _ (by simp [Event.Ends]) (by simp [Event.Leaves]) (by simp)
  | roomBegin account =>
    cases h
    rw [State.roomBegin, State.tables_sendtoClient]
    exact .quiet _ (by simp [Event.Ends]) (by simp [Event.Leaves]) (by simp)
  | sendtoClient account protoName msg =>
    cases h
    rw [State.tables_sendtoClient]
    exact .quiet _ (by simp [Event.Ends]) (by simp [Event.Leaves]) (by simp)

end SlgServer.App
