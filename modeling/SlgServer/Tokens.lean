import SlgServer.AccountMgr
import SlgServer.AppSteps

/-!
# Tokens (`service/login`, `service/base_app_mgr`, `service/base_app`)

A client logs in to the login service, is answered with the address of a base app and
a token, and logs in there with the token. The token should carry the verdict of the
login service; but `base_app_mgr` hands out one and the same word, whoever asks, and
that word is all a base app looks at (`session_verified_iff`).
-/

namespace SlgServer

open Machine

/-! ## `base_app_mgr` -/

/-- `get_base_app_addr`, from the ports of the base apps, in the order of visit, and
what they answer to `get_clients`. -/
def getBaseAppAddr : List (ℕ × ℕ) → Login.Address
  | [] => .full "No more base app to connect !"
  | (port, clients) :: rest =>
    if clients < 1000 then .found "192.168.18.107" port "token" else getBaseAppAddr rest

/-- **There is one token**, for all accounts and all times. -/
theorem token_of_getBaseAppAddr {loads : List (ℕ × ℕ)} {ip token : String} {port : ℕ}
    (h : getBaseAppAddr loads = .found ip port token) : token = "token" := by
  induction loads with
  | nil => cases h
  | cons load rest ih =>
    obtain ⟨port', clients⟩ := load
    rw [getBaseAppAddr] at h
    split_ifs at h
    · cases h
      rfl
    · exact ih h

/-! ## The services together -/

/-- The login service, the base apps, and the clients' logins with the right password and
registrations that the login service has answered: with an address, or that there is no
base app. -/
structure Services (A P B : Type) : Type where
  /-- the login service -/
  login : Login.State A P
  /-- the base apps -/
  apps : ℕ → App.State A B
  /-- client and account of the answers -/
  granted : List (ℕ × A)

/-- What happens in the services. The answers of `base_app_mgr` to the login service
are determined by the loads that the base apps report. -/
inductive ServiceEvent (A P M : Type) : Type where
  /-- a message for the login service -/
  | loginData (fd protoId : ℕ) (params : Login.Params A P)
  /-- the database has stored an account, or raises -/
  | inserted (k : ℕ) (ok : Bool)
  /-- `base_app_mgr` answers the handler number `k` of the login service, or raises -/
  | addressed (k : ℕ) (loads : Option (List (ℕ × ℕ)))
  /-- an event of base app `i` -/
  | app (i : ℕ) (e : App.Event A M)

variable {A P M B : Type} [DecidableEq A]

/-- The services after their start. -/
def Services.start (docs : List (A × P)) : Services A P B :=
  ⟨Login.State.init docs, fun _ => App.State.init, []⟩

variable [DecidableEq P]

/-- One event; `loginClient` and `appClient` say which client is behind a socket. -/
def serviceStep (c : App.Codec A M B) (loginClient : ℕ → ℕ) (s : Services A P B) :
    ServiceEvent A P M → Option (Services A P B)
  | .loginData fd protoId params =>
    (Login.step c.idToName s.login (.data fd protoId params)).map fun l => { s with login := l }
  | .inserted k ok =>
    (Login.step c.idToName s.login (.inserted k ok)).map fun l => { s with login := l }
  | .addressed k loads =>
    match s.login.waiting[k]? with
    | none => none
    | some w =>
      (Login.step c.idToName s.login (.addressed k (loads.map getBaseAppAddr))).map fun l =>
        { s with
          login := l
          granted := if loads.isSome then (loginClient w.fd, w.account) :: s.granted
            else s.granted }
  | .app i e =>
    (App.step c (s.apps i) e).map fun a => { s with apps := Function.update s.apps i a }

/-- An event is one of the login service, after which what was granted still is, or one
of a base app. -/
theorem serviceStep_cases {c : App.Codec A M B} {loginClient : ℕ → ℕ} {s s' : Services A P B}
    {e : ServiceEvent A P M} (h : serviceStep c loginClient s e = some s') :
    (s'.apps = s.apps ∧ s.granted ⊆ s'.granted ∧ ∀ i e', e ≠ .app i e') ∨
      ∃ i e' a, e = .app i e' ∧ App.step c (s.apps i) e' = some a ∧
        s' = { s with apps := Function.update s.apps i a } := by
  cases e with
  | loginData fd protoId params =>
    cases h
    exact .inl ⟨rfl, List.Subset.refl _, by simp⟩
  | inserted k ok =>
    obtain ⟨l, -, rfl⟩ := Option.map_eq_some_iff.mp h
    exact .inl ⟨rfl, List.Subset.refl _, by simp⟩
  | addressed k loads =>
    rw [serviceStep] at h
    rcases hw : s.login.waiting[k]? with _ | w
    · simp [hw] at h
    · simp only [hw] at h
      obtain ⟨l, -, rfl⟩ := Option.map_eq_some_iff.mp h
      refine .inl ⟨rfl, ?_, by simp⟩
      simp only
      split_ifs
      · exact List.subset_cons_self _ _
      · exact List.Subset.refl _
  | app i e =>
    obtain ⟨a, ha, rfl⟩ := Option.map_eq_some_iff.mp h
    exact .inr ⟨i, e, a, rfl, ha, rfl⟩

/-- The events of one base app. -/
def ServiceEvent.ofApp (i : ℕ) : ServiceEvent A P M → List (App.Event A M)
  | .app j e => if j = i then [e] else []
  | _ => []

/-- **Each base app runs as it does alone**, so that what is true in every run of a base
app is true of each of them. -/
theorem run_app {c : App.Codec A M B} {loginClient : ℕ → ℕ} {docs : List (A × P)}
    {s : Services A P B} {es : List (ServiceEvent A P M)}
    (h : run (serviceStep c loginClient) (Services.start docs) es = some s) (i : ℕ) :
    ∃ ds, run (App.step c) App.State.init ds = some (s.apps i) := by
  have hsim : ∀ (s : Services A P B) e s', serviceStep c loginClient s e = some s' →
      run (App.step c) (s.apps i) (e.ofApp i) = some (s'.apps i) := by
    intro s e s' hs
    rcases serviceStep_cases hs with ⟨happs, -, hlogin⟩ | ⟨j, e', a, rfl, ha, rfl⟩
    · have hnone : e.ofApp i = [] := by
        cases e with
        | app j e' => exact absurd rfl (hlogin j e')
        | _ => rfl
      rw [hnone, happs, run_nil]
    · rw [ServiceEvent.ofApp]
      split_ifs with hj
      · subst hj
        simp [run_cons, ha]
      · simp [Function.update_of_ne (Ne.symm hj)]
  exact run_simulation (f := fun s : Services A P B => s.apps i) (g := fun _ e => e.ofApp i) hsim h

/-! ## Sessions -/

variable (c : App.Codec A M B) (loginClient : ℕ → ℕ) (appClient : ℕ → ℕ → ℕ)

/-- A base app accepts a login for an account only if the login service has answered
the client's login for it, or its registration: no player is made for it otherwise. -/
def AcceptsVerified (s : Services A P B) (e : ServiceEvent A P M) : Prop :=
  ∀ i fd protoId params account, e = .app i (.data fd protoId params) →
    ((s.apps i).data c fd protoId params).players = (s.apps i).players ++ [⟨fd, some account⟩] →
      (appClient i fd, account) ∈ s.granted

/-- A login for an account with the right token comes from a client whose login for the
account, or registration, the login service has answered. -/
def TokenVerified (s : Services A P B) (e : ServiceEvent A P M) : Prop :=
  ∀ i fd protoId params account, e = .app i (.data fd protoId params) →
    App.LoginData c protoId params → params.account = some account →
      (appClient i fd, account) ∈ s.granted

/-- The players of the base apps, those that wait for the database included, are of
clients whose login for the account, or registration, was answered; and an authed
socket has had a player. -/
structure Verified (s : Services A P B) : Prop where
  /-- players are of clients who may have them -/
  players : ∀ i p account, p ∈ (s.apps i).players → p.account = some account →
    (appClient i p.fd, account) ∈ s.granted
  /-- a socket that is authed has a player, of whatever account -/
  authed : ∀ i fd, (s.apps i).authedFd fd = true → ∃ p ∈ (s.apps i).players, p.fd = fd

variable {c appClient}

omit [DecidableEq A] [DecidableEq P] in
/-- **One message**: a base app accepts what carries the token, and nothing else. -/
theorem acceptsVerified_iff {s : Services A P B} {e : ServiceEvent A P M} :
    AcceptsVerified c appClient s e ↔ TokenVerified c appClient s e := by
  refine ⟨?_, ?_⟩
  · rintro h i fd protoId params account rfl hlogin haccount
    refine h i fd protoId params account rfl ?_
    rcases (s.apps i).tables_data c fd protoId params with ⟨-, htables⟩ | ⟨hnot, -⟩
    · have hplayers := congrArg App.Tables.players htables
      rw [← haccount]
      exact hplayers
    · exact absurd hlogin hnot
  · rintro h i fd protoId params account rfl hplayers
    rcases (s.apps i).tables_data c fd protoId params with ⟨hlogin, htables⟩ | ⟨-, htables⟩
    · have hmade : ((s.apps i).data c fd protoId params).players =
          (s.apps i).players ++ [⟨fd, params.account⟩] := congrArg App.Tables.players htables
      rw [hplayers] at hmade
      have haccount : params.account = some account := by simpa using hmade.symm
      exact h i fd protoId params account rfl hlogin haccount
    · -- no player was made
      have hsame : ((s.apps i).data c fd protoId params).players = (s.apps i).players :=
        congrArg App.Tables.players htables
      rw [hsame] at hplayers
      simp at hplayers

/-- What an event of a base app adds to its players and its authed sockets. -/
theorem app_step_players {s s' : App.State A B} {e : App.Event A M}
    (h : App.step c s e = some s') :
    (s'.players = s.players ∧ ∀ fd, s'.authedFd fd = true → s.authedFd fd = true) ∨
      ∃ fd protoId params, e = .data fd protoId params ∧ App.LoginData c protoId params ∧
        s'.players = s.players ++ [⟨fd, params.account⟩] ∧
          ∀ fd', s'.authedFd fd' = true → s.authedFd fd' = true ∨ fd' = fd := by
  change (s'.tables.players = s.players ∧
      ∀ fd, s'.tables.authedFd fd = true → s.authedFd fd = true) ∨
    ∃ fd protoId params, e = .data fd protoId params ∧ App.LoginData c protoId params ∧
      s'.tables.players = s.players ++ [⟨fd, params.account⟩] ∧
        ∀ fd', s'.tables.authedFd fd' = true → s.authedFd fd' = true ∨ fd' = fd
  generalize ht : s'.tables = t
  have heffect := App.step_effect h
  rw [ht] at heffect
  have hclear : ∀ fd fd', Function.update s.authedFd fd false fd' = true →
      s.authedFd fd' = true := by
    intro fd fd' hauth
    rw [Function.update_apply] at hauth
    split_ifs at hauth
    exact hauth
  cases heffect with
  | quiet => exact .inl ⟨rfl, fun _ h => h⟩
  | opened fd => exact .inl ⟨rfl, fun _ h => h⟩
  | ended fd => exact .inl ⟨rfl, hclear fd⟩
  | warned fd => exact .inl ⟨rfl, hclear fd⟩
  | begun fd protoId params _ hlogin =>
    refine .inr ⟨fd, protoId, params, rfl, hlogin, rfl, fun fd' hauth => ?_⟩
    simp only [App.Tables.begun, Function.update_apply] at hauth
    split_ifs at hauth with hfd
    · exact .inr hfd
    · exact .inl hauth
  | added k => exact .inl ⟨rfl, fun _ h => h⟩
  | dropped k => exact .inl ⟨rfl, fun _ h => h⟩

/-- **One step** keeps the sessions verified if its token is. -/
theorem verified_step {s s' : Services A P B} {e : ServiceEvent A P M}
    (h : Verified appClient s) (htoken : TokenVerified c appClient s e)
    (hs : serviceStep c loginClient s e = some s') : Verified appClient s' := by
  rcases serviceStep_cases hs with ⟨happs, hgranted, -⟩ | ⟨i, e, a, rfl, ha, rfl⟩
  · refine ⟨fun i p account hp haccount => ?_, fun i => ?_⟩
    · rw [happs] at hp
      exact hgranted (h.players i p account hp haccount)
    · rw [happs]
      exact h.authed i
  · refine ⟨fun j p account hp haccount => ?_, fun j fd hauth => ?_⟩
    · by_cases hj : j = i
      · subst hj
        simp only [Function.update_self] at hp
        rcases app_step_players ha with ⟨hplayers, -⟩ |
          ⟨fd, protoId, params, rfl, hlogin, hplayers, -⟩
        · rw [hplayers] at hp
          exact h.players j p account hp haccount
        · rw [hplayers, List.mem_append, List.mem_singleton] at hp
          rcases hp with hp | rfl
          · exact h.players j p account hp haccount
          · exact htoken j fd protoId params account rfl hlogin haccount
      · simp only [Function.update_of_ne hj] at hp
        exact h.players j p account hp haccount
    · by_cases hj : j = i
      · subst hj
        simp only [Function.update_self] at hauth ⊢
        rcases app_step_players ha with ⟨hplayers, hauthed⟩ |
          ⟨fd', protoId, params, rfl, hlogin, hplayers, hauthed⟩
        · rw [hplayers]
          exact h.authed j fd (hauthed fd hauth)
        · rw [hplayers]
          rcases hauthed fd hauth with hold | rfl
          · obtain ⟨p, hp, hfd⟩ := h.authed j fd hold
            exact ⟨p, List.mem_append_left _ hp, hfd⟩
          · exact ⟨_, List.mem_append_right _ (List.mem_singleton_self _), rfl⟩
      · simp only [Function.update_of_ne hj] at hauth ⊢
        exact h.authed j fd hauth

/-! ## Runs -/

/-- **A session and its account.** In every run of the services, with any clients, the
base apps accept logins of verified clients only iff all logins that carry the token
come from such clients; and then in every state the players are of such clients, and
there is one for each authed socket. -/
theorem session_verified_iff (docs : List (A × P)) (es : List (ServiceEvent A P M)) :
    (Guarded (serviceStep c loginClient) (AcceptsVerified c appClient)
          (Services.start docs) es ↔
        Guarded (serviceStep c loginClient) (TokenVerified c appClient)
          (Services.start docs) es) ∧
      (Guarded (serviceStep c loginClient) (TokenVerified c appClient)
          (Services.start docs) es →
        Always (serviceStep c loginClient) (Verified appClient) (Services.start docs) es) := by
  have hsame : AcceptsVerified (P := P) c appClient = TokenVerified c appClient := by
    funext s e
    exact propext acceptsVerified_iff
  refine ⟨by rw [hsame], ?_⟩
  refine always_of_guarded (I := Verified appClient)
    (fun s e s' hI hC hs => verified_step loginClient hI hC hs) (fun _ h => h) ?_
  constructor <;> simp [Services.start, App.State.init]

/-- The client logs in as `7` with the right password, and then on base app `1`. -/
def verifiedLogin : List (ServiceEvent ℕ ℕ Unit) :=
  [.loginData 3 4 ⟨some 7, 70⟩, .addressed 0 (some [(16801, 0)]), .app 1 (.open 4),
    .app 1 (.accepted 0 true), .app 1 (.data 4 1 ⟨some "token", some 7, none, none⟩)]

/-- The session is verified. -/
theorem session_verified_iff_verifiedLogin :
    Always (serviceStep (App.plainCodec ℕ Unit) id) (Verified fun _ _ => 3)
      (Services.start [(7, 70)]) verifiedLogin := by
  refine (session_verified_iff id [(7, 70)] verifiedLogin).2 ?_
  refine guarded_cons rfl ?_ (guarded_cons rfl ?_ (guarded_cons rfl ?_ (guarded_cons rfl ?_
    (guarded_cons rfl ?_ trivial))))
  · simp [TokenVerified]
  · simp [TokenVerified]
  · simp [TokenVerified]
  · simp [TokenVerified]
  · rintro _ _ _ _ account ⟨⟩ - haccount
    cases haccount
    exact List.mem_singleton_self _

/-- A base app accepts a login with the token from a client that has never been to the
login service. -/
theorem stranger_accepted :
    ¬ Guarded (serviceStep (App.plainCodec ℕ Unit) id)
      (AcceptsVerified (P := ℕ) (App.plainCodec ℕ Unit) fun _ _ => 3) (Services.start [(7, 70)])
      [.app 1 (.open 4), .app 1 (.accepted 0 true),
        .app 1 (.data 4 1 ⟨some "token", some 7, none, none⟩)] := by
  intro h
  exact absurd (((h.2 _ rfl).2 _ rfl).1 1 4 1 _ 7 rfl rfl) List.not_mem_nil

end SlgServer
