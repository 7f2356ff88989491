import SlgServer.Machine
import Mathlib.Data.List.Nodup
import Mathlib.Data.List.Perm.Basic

/-!
# Accounts (`service/login`)

`account_mgr` holds the accounts in a table that `load_all` fills. `register` looks
the name up, enters the account, and then waits for the database; `login` and
`register` wait for `base_app_mgr` before they answer. Other messages are handled
meanwhile. The gate's reports change nothing in this service.

`register_once`: names go to the first who registers them, with a password that
stays.
-/

namespace SlgServer.Login

open Machine

/-! ## The state -/

/-- What the handlers read of the table a client sends; `P` has a value for no
password. -/
structure Params (A P : Type) : Type where
  /-- `msg.account` -/
  account : Option A
  /-- `msg.passwd` -/
  passwd : P

/-- What `base_app_mgr` answers to `get_base_app_addr`. -/
inductive Address : Type where
  /-- a base app, and the token for it -/
  | found (ip : String) (port : ℕ) (token : String)
  /-- there is none -/
  | full (errmsg : String)
  deriving DecidableEq

/-- The tables that are sent to clients. -/
inductive Reply : Type where
  /-- `{errmsg = ...}` -/
  | errmsg (text : Option String)
  /-- `{}` -/
  | empty
  /-- the answer of `base_app_mgr` -/
  | address (r : Address)
  deriving DecidableEq

/-- What a handler waits for. -/
inductive Stage : Type where
  /-- `mongo:insert`, in `register` -/
  | inserting
  /-- `base_app_mgr` -/
  | asking
  deriving DecidableEq

/-- A handler that waits. -/
structure Waiting (A : Type) : Type where
  /-- the socket -/
  fd : ℕ
  /-- the id of the request, with which the answer is sent -/
  protoId : ℕ
  /-- the account -/
  account : A
  /-- what it waits for -/
  stage : Stage
  deriving DecidableEq

/-- The state of the service, and a record of what it asked of the database. -/
structure State (A P : Type) : Type where
  /-- `account_mgr.account_tbl`: the passwords -/
  accountTbl : A → Option P
  /-- the handlers that wait -/
  waiting : List (Waiting A)
  /-- what was written: socket, id and table -/
  written : List (ℕ × ℕ × Reply)
  /-- what the collection `account` has received -/
  inserts : List (A × P)
  /-- the accounts for which `account_mgr:register` has returned true -/
  registered : List A

section Handlers

variable {A P : Type} [DecidableEq A]

/-- `load_all`, from the documents of the collection. -/
def loadAll (docs : List (A × P)) : A → Option P :=
  docs.foldl (fun tbl obj => Function.update tbl obj.1 (some obj.2)) fun _ => none

/-- The table holds of each name the password of its last document. -/
theorem loadAll_eq_lookup (docs : List (A × P)) (a : A) :
    loadAll docs a = docs.reverse.lookup a := by
  induction docs using List.reverseRecOn with
  | nil => rfl
  | append_singleton docs obj ih =>
    rw [loadAll, List.foldl_concat, List.reverse_concat, List.lookup_cons, ← ih]
    by_cases ha : a = obj.1
    · subst ha
      rw [Function.update_self, beq_self_eq_true]
    · rw [Function.update_of_ne ha, beq_eq_false_iff_ne.mpr ha]
      rfl

/-- The service after `init`. -/
def State.init (docs : List (A × P)) : State A P := ⟨loadAll docs, [], [], [], []⟩

omit [DecidableEq A] in
/-- `socket.write`. -/
def State.write (s : State A P) (fd protoId : ℕ) (ret : Reply) : State A P :=
  { s with written := s.written ++ [(fd, protoId, ret)] }

/-! ## `account_mgr` -/

omit [DecidableEq A] in
/-- `verify`. -/
def State.verify [DecidableEq P] (s : State A P) (account : Option A) (passwd : P) :
    Bool × Option String :=
  match account.bind s.accountTbl with
  | none => (false, some "account not exist")
  | some p => if p ≠ passwd then (false, some "wrong password") else (true, none)

/-- `register`, up to the answer of the database; `none` if the account exists. -/
def State.register (s : State A P) (account : A) (passwd : P) : Option (State A P) :=
  if (s.accountTbl account).isSome then none
  else some { s with
    accountTbl := Function.update s.accountTbl account (some passwd)
    inserts := s.inserts ++ [(account, passwd)] }

/-! ## `sock_mgr` -/

omit [DecidableEq A] in
/-- `login`, up to the answer of `base_app_mgr`. -/
def State.login [DecidableEq P] (s : State A P) (fd protoId : ℕ) (msg : Params A P) : State A P :=
  match s.verify msg.account msg.passwd, msg.account with
  | (true, _), some account =>
    { s with waiting := s.waiting ++ [⟨fd, protoId, account, .asking⟩] }
  | (_, errmsg), _ => s.write fd protoId (.errmsg errmsg)

/-- The handler of `login.register`, up to the answer of the database. Without an
account `account_tbl[nil]` raises. -/
def State.registerMsg (s : State A P) (fd protoId : ℕ) (msg : Params A P) : State A P :=
  if (msg.account.bind s.accountTbl).isSome then
    s.write fd protoId (.errmsg (some "account exist"))
  else
    match msg.account with
    | none => s
    | some account =>
      match s.register account msg.passwd with
      | none => s.write fd protoId .empty
      | some s => { s with waiting := s.waiting ++ [⟨fd, protoId, account, .inserting⟩] }

/-- `dispatch`, with the name of the message. -/
def State.dispatch [DecidableEq P] (idToName : ℕ → Option String) (s : State A P)
    (fd protoId : ℕ) (params : Params A P) : State A P :=
  match idToName protoId with
  | some "login.login" => s.login fd protoId params
  | some "login.register" => s.registerMsg fd protoId params
  | _ => s

/-! ## Events -/

/-- What starts or resumes a handler. -/
inductive Event (A P : Type) : Type where
  /-- the gate hands over a message -/
  | data (fd protoId : ℕ) (params : Params A P)
  /-- the database has stored the account of the handler number `k`, or raises -/
  | inserted (k : ℕ) (ok : Bool)
  /-- `base_app_mgr` answers the handler number `k`, or raises -/
  | addressed (k : ℕ) (answer : Option Address)

/-- One event. -/
def step [DecidableEq P] (idToName : ℕ → Option String) (s : State A P) :
    Event A P → Option (State A P)
  | .data fd protoId params => some (s.dispatch idToName fd protoId params)
  | .inserted k ok =>
    match s.waiting[k]? with
    | some w =>
      if w.stage = .inserting then
        if ok then some { s with
          waiting := s.waiting.set k { w with stage := .asking }
          registered := w.account :: s.registered }
        else some { s with waiting := s.waiting.eraseIdx k }
      else none
    | none => none
  | .addressed k answer =>
    match s.waiting[k]? with
    | some w =>
      if w.stage = .asking then
        let s := { s with waiting := s.waiting.eraseIdx k }
        match answer with
        | some r => some (s.write w.fd w.protoId (.address r))
        | none => some s
      else none
    | none => none

end Handlers

variable {A P : Type} [DecidableEq A] [DecidableEq P]

/-! ## What an event does to the accounts -/

/-- How many handlers wait for the insert of an account. -/
def State.inserting (s : State A P) (account : A) : ℕ :=
  s.waiting.countP fun w => decide (w.account = account ∧ w.stage = .inserting)

/-- **What an event does to the accounts.** -/
inductive Effect (s : State A P) : State A P → Prop where
  /-- nothing; handlers that wait for an insert may fail -/
  | quiet (s' : State A P) (htbl : s'.accountTbl = s.accountTbl) (hins : s'.inserts = s.inserts)
      (hreg : s'.registered = s.registered) (hwait : ∀ a, s'.inserting a ≤ s.inserting a) :
      Effect s s'
  /-- a new account is entered, and sent to the database -/
  | entered (s' : State A P) (account : A) (passwd : P) (hnew : s.accountTbl account = none)
      (htbl : s'.accountTbl = Function.update s.accountTbl account (some passwd))
      (hins : s'.inserts = s.inserts ++ [(account, passwd)]) (hreg : s'.registered = s.registered)
      (hwait : ∀ a, s'.inserting a = s.inserting a + if account = a then 1 else 0) : Effect s s'
  /-- the database has stored an account -/
  | stored (s' : State A P) (account : A) (htbl : s'.accountTbl = s.accountTbl)
      (hins : s'.inserts = s.inserts) (hreg : s'.registered = account :: s.registered)
      (hwait : ∀ a, s'.inserting a + (if account = a then 1 else 0) = s.inserting a) : Effect s s'

omit [DecidableEq P] in
/-- A handler that is dropped. -/
theorem inserting_eraseIdx {s : State A P} {k : ℕ} {w : Waiting A} (hw : s.waiting[k]? = some w)
    (a : A) :
    ((s.waiting.eraseIdx k).countP fun w => decide (w.account = a ∧ w.stage = .inserting)) +
        (if w.account = a ∧ w.stage = .inserting then 1 else 0) = s.inserting a := by
  obtain ⟨hlt, rfl⟩ := List.getElem?_eq_some_iff.mp hw
  rw [State.inserting, ← (List.getElem_cons_eraseIdx_perm hlt).countP_eq, List.countP_cons]
  simp

/-- **What a message does to the accounts:** it enters one, or nothing. -/
theorem dispatch_cases (idToName : ℕ → Option String) (s : State A P) (fd protoId : ℕ)
    (params : Params A P) {s' : State A P} (h : s.dispatch idToName fd protoId params = s') :
    (s'.accountTbl = s.accountTbl ∧ s'.inserts = s.inserts ∧ s'.registered = s.registered ∧
      ∀ a, s'.inserting a = s.inserting a) ∨
    ∃ account, s.accountTbl account = none ∧
      s'.accountTbl = Function.update s.accountTbl account (some params.passwd) ∧
      s'.inserts = s.inserts ++ [(account, params.passwd)] ∧ s'.registered = s.registered ∧
      ∀ a, s'.inserting a = s.inserting a + if account = a then 1 else 0 := by
  subst h
  rw [State.dispatch]
  split
  · rw [State.login]
    split
    · exact .inl ⟨rfl, rfl, rfl, fun a => by simp [State.inserting]⟩
    · exact .inl ⟨rfl, rfl, rfl, fun _ => rfl⟩
  · rw [State.registerMsg]
    split_ifs
    · exact .inl ⟨rfl, rfl, rfl, fun _ => rfl⟩
    · rcases params.account with _ | account
      · exact .inl ⟨rfl, rfl, rfl, fun _ => rfl⟩
      · simp only [State.register]
        split_ifs with hknown
        · exact .inl ⟨rfl, rfl, rfl, fun _ => rfl⟩
        · refine .inr ⟨account, by simpa using hknown, rfl, rfl, rfl, fun a => ?_⟩
          simp [State.inserting, List.countP_append, List.countP_singleton]
  · exact .inl ⟨rfl, rfl, rfl, fun _ => rfl⟩

/-- **What the database's answer does:** a handler stops waiting for it, and its account is
registered unless the insert raised. -/
theorem step_inserted {idToName : ℕ → Option String} {s s' : State A P} {k : ℕ} {ok : Bool}
    (h : step idToName s (.inserted k ok) = some s') :
    ∃ account, s'.accountTbl = s.accountTbl ∧ s'.inserts = s.inserts ∧
      s'.registered = (if ok then account :: s.registered else s.registered) ∧
      ∀ a, s'.inserting a + (if account = a then 1 else 0) = s.inserting a := by
  rw [step] at h
  rcases hw : s.waiting[k]? with _ | w
  · simp [hw] at h
  · simp only [hw] at h
    split_ifs at h with hstage hok <;> cases h
    · refine ⟨w.account, rfl, rfl, (if_pos hok).symm, fun a => ?_⟩
      have herase := inserting_eraseIdx hw a
      obtain ⟨hlt, -⟩ := List.getElem?_eq_some_iff.mp hw
      rw [State.inserting,
        (List.set_perm_cons_eraseIdx hlt { w with stage := .asking }).countP_eq, List.countP_cons]
      simpa [hstage] using herase
    · refine ⟨w.account, rfl, rfl, (if_neg hok).symm, fun a => ?_⟩
      have herase := inserting_eraseIdx hw a
      simp only [hstage, and_true] at herase
      exact herase

/-- What the answer of `base_app_mgr` does to the accounts: nothing. -/
theorem step_addressed {idToName : ℕ → Option String} {s s' : State A P} {k : ℕ}
    {answer : Option Address} (h : step idToName s (.addressed k answer) = some s') :
    s'.accountTbl = s.accountTbl ∧ s'.inserts = s.inserts ∧ s'.registered = s.registered ∧
      ∀ a, s'.inserting a = s.inserting a := by
  rw [step] at h
  rcases hw : s.waiting[k]? with _ | w
  · simp [hw] at h
  · simp only [hw] at h
    split_ifs at h with hstage
    have herase : ∀ a, (s.waiting.eraseIdx k).countP
        (fun w => decide (w.account = a ∧ w.stage = .inserting)) = s.inserting a := by
      intro a
      simpa [hstage] using inserting_eraseIdx hw a
    cases answer <;> cases h <;> exact ⟨rfl, rfl, rfl, herase⟩

/-- **Each event has one of these effects.** -/
theorem step_effect {idToName : ℕ → Option String} {s s' : State A P} {e : Event A P}
    (h : step idToName s e = some s') : Effect s s' := by
  cases e with
  | data fd protoId params =>
    rcases dispatch_cases idToName s fd protoId params (Option.some.inj h) with
      ⟨htbl, hins, hreg, hwait⟩ | ⟨account, hnew, htbl, hins, hreg, hwait⟩
    · exact .quiet _ htbl hins hreg fun a => Nat.le_of_eq (hwait a)
    · exact .entered _ account params.passwd hnew htbl hins hreg hwait
  | inserted k ok =>
    obtain ⟨account, htbl, hins, hreg, hwait⟩ := step_inserted h
    cases ok with
    | true => exact .stored _ account htbl hins hreg hwait
    | false => exact .quiet _ htbl hins hreg fun a => Nat.le.intro (hwait a)
  | addressed k answer =>
    obtain ⟨htbl, hins, hreg, hwait⟩ := step_addressed h
    exact .quiet _ htbl hins hreg fun a => Nat.le_of_eq (hwait a)

/-! ## Registrations -/

/-- The names in the table are those loaded and those entered since, each once. -/
structure Sound (docs : List (A × P)) (s : State A P) : Prop where
  /-- the table holds what was loaded or entered -/
  accountTbl : ∀ a p, s.accountTbl a = some p ↔ loadAll docs a = some p ∨ (a, p) ∈ s.inserts
  /-- a name is entered once -/
  inserts_nodup : (s.inserts.map Prod.fst).Nodup
  /-- and only if it was not loaded -/
  inserts_new : ∀ a p, (a, p) ∈ s.inserts → loadAll docs a = none
  /-- a registration that has succeeded, or waits for the database, has its insert -/
  registered : ∀ a, s.registered.count a + s.inserting a ≤ (s.inserts.map Prod.fst).count a

omit [DecidableEq P] in
theorem sound_init (docs : List (A × P)) : Sound docs (State.init docs) where
  accountTbl := by simp [State.init]
  inserts_nodup := List.nodup_nil
  inserts_new := by simp [State.init]
  registered := by simp [State.init, State.inserting]

omit [DecidableEq P] in
/-- The table and the inserts being the same, no more registrations may have succeeded
or wait. -/
theorem Sound.same {docs : List (A × P)} {s s' : State A P} (h : Sound docs s)
    (htbl : s'.accountTbl = s.accountTbl) (hins : s'.inserts = s.inserts)
    (hle : ∀ a, s'.registered.count a + s'.inserting a ≤ s.registered.count a + s.inserting a) :
    Sound docs s' where
  accountTbl := by
    rw [htbl, hins]
    exact h.accountTbl
  inserts_nodup := by
    rw [hins]
    exact h.inserts_nodup
  inserts_new := by
    rw [hins]
    exact h.inserts_new
  registered a := by
    rw [hins]
    exact Nat.le_trans (hle a) (h.registered a)

omit [DecidableEq P] in
theorem Sound.effect {docs : List (A × P)} {s s' : State A P} (h : Sound docs s)
    (heffect : Effect s s') : Sound docs s' := by
  cases heffect with
  | quiet htbl hins hreg hwait =>
    refine h.same htbl hins fun a => ?_
    rw [hreg]
    exact Nat.add_le_add_left (hwait a) _
  | entered account passwd hnew htbl hins hreg hwait =>
    -- a name that is not in the table was neither loaded nor entered
    have hfresh : ∀ p, loadAll docs account ≠ some p ∧ (account, p) ∉ s.inserts := by
      intro p
      have := (not_congr (h.accountTbl account p)).mp (by simp [hnew])
      exact not_or.mp this
    refine ⟨fun a p => ?_, ?_, fun a p hmem => ?_, fun a => ?_⟩
    · rw [htbl, hins, List.mem_append, List.mem_singleton, Prod.mk.injEq]
      by_cases ha : a = account
      · rw [ha, Function.update_self]
        have := hfresh p
        simp [this.1, this.2, eq_comm]
      · rw [Function.update_of_ne ha, h.accountTbl]
        simp [ha]
    · rw [hins, List.map_append]
      refine h.inserts_nodup.append (List.nodup_singleton _) ?_
      simpa using fun p => (hfresh p).2
    · rw [hins, List.mem_append, List.mem_singleton] at hmem
      rcases hmem with hmem | hmem
      · exact h.inserts_new a p hmem
      · obtain ⟨rfl, rfl⟩ := Prod.mk.inj hmem
        exact Option.eq_none_iff_forall_ne_some.mpr fun p => (hfresh p).1
    · have := h.registered a
      rw [hreg, hwait, hins, List.map_append, List.count_append]
      by_cases ha : account = a <;> simp [ha] <;> omega
  | stored account htbl hins hreg hwait =>
    refine h.same htbl hins fun a => ?_
    have := hwait a
    rw [hreg, List.count_cons]
    by_cases ha : account = a <;> simp [ha] at * <;> omega

omit [DecidableEq P] in
/-- A password once in the table stays. -/
theorem Effect.keeps {s s' : State A P} (heffect : Effect s s') {a : A} {p : P}
    (h : s.accountTbl a = some p) : s'.accountTbl a = some p := by
  cases heffect with
  | quiet htbl => rw [htbl, h]
  | entered account passwd hnew htbl =>
    have hne : a ≠ account := by
      rintro rfl
      rw [hnew] at h
      cases h
    rw [htbl, Function.update_of_ne hne, h]
  | stored account htbl => rw [htbl, h]

/-- Names go to the first who registers them. A registration has entered the name once its insert
is sent (`inserts`), and has succeeded once the database has answered it (`registered`); if the
insert raises, then it has entered the name for all that. -/
structure RegisteredOnce (docs : List (A × P)) (s : State A P) : Prop where
  /-- for a name at most one registration succeeds -/
  succeeds : ∀ a, s.registered.count a ≤ 1
  /-- and only if the name was not loaded -/
  notLoaded : ∀ a ∈ s.registered, loadAll docs a = none
  /-- the collection receives at most one insert for a name -/
  inserts : ∀ a, (s.inserts.map Prod.fst).count a ≤ 1
  /-- nor does it receive one for a name that was loaded -/
  insertsNew : ∀ a p, (a, p) ∈ s.inserts → loadAll docs a = none
  /-- an account is verified by the password it was loaded or entered with -/
  verify : ∀ a p, s.verify (some a) p = (true, none) ↔
    loadAll docs a = some p ∨ (a, p) ∈ s.inserts

theorem Sound.registeredOnce {docs : List (A × P)} {s : State A P} (h : Sound docs s) :
    RegisteredOnce docs s where
  succeeds a := by
    have := h.registered a
    have := List.nodup_iff_count_le_one.mp h.inserts_nodup a
    omega
  notLoaded a ha := by
    have hpos := List.count_pos_iff.mpr ha
    have := h.registered a
    obtain ⟨⟨a', p⟩, hmem, rfl⟩ := List.mem_map.mp (List.count_pos_iff.mp
      (show 0 < (s.inserts.map Prod.fst).count a by omega))
    exact h.inserts_new a' p hmem
  inserts := List.nodup_iff_count_le_one.mp h.inserts_nodup
  insertsNew := h.inserts_new
  verify a p := by
    rw [← h.accountTbl, State.verify, Option.bind_some]
    rcases s.accountTbl a with _ | p'
    · simp
    · by_cases hp : p' = p <;> simp [hp]

/-- **Registration is first-come and permanent.** In every run of the login service,
from any table that was loaded, names go to the first who registers them, and a
password once in the table never changes. -/
theorem register_once {idToName : ℕ → Option String} {docs : List (A × P)} {s : State A P}
    {es : List (Event A P)} (h : run (step idToName) (State.init docs) es = some s) :
    RegisteredOnce docs s ∧ ∀ es' t, run (step idToName) s es' = some t →
      ∀ a p, s.accountTbl a = some p → t.accountTbl a = some p := by
  refine ⟨?_, fun es' t ht a p ha => ?_⟩
  · have hsound : Sound docs s := run_induction (I := Sound docs)
      (fun _ _ _ hI hs => hI.effect (step_effect hs)) (sound_init docs) h
    exact hsound.registeredOnce
  · exact run_induction (I := fun s => s.accountTbl a = some p)
      (fun _ _ _ hI hs => (step_effect hs).keeps hI) ha ht

/-- The names of the two messages. -/
def loginNames : ℕ → Option String
  | 1 => some "login.login"
  | 2 => some "login.register"
  | _ => none

/-- Two clients register the name `7`, and one logs in while the first insert waits. -/
def twoRegisters : List (Event ℕ ℕ) :=
  [.data 3 2 ⟨some 7, 70⟩, .data 4 2 ⟨some 7, 71⟩, .data 5 1 ⟨some 7, 70⟩, .inserted 0 true,
    .addressed 1 (some (.full "No more base app to connect !")), .addressed 0 none]

/-- The name goes to the first. -/
theorem register_once_twoRegisters :
    ∃ s, run (step loginNames) (State.init [(1, 10)]) twoRegisters = some s ∧
      RegisteredOnce [(1, 10)] s ∧ s.registered = [7] ∧ s.inserts = [(7, 70)] := by
  obtain ⟨s, hs, hreg, hins⟩ : ∃ s, run (step loginNames) (State.init [(1, 10)]) twoRegisters =
      some s ∧ s.registered = [7] ∧ s.inserts = [(7, 70)] := ⟨_, rfl, rfl, rfl⟩
  exact ⟨s, hs, (register_once hs).1, hreg, hins⟩

end SlgServer.Login
