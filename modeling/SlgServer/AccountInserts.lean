import SlgServer.AccountMgr

/-!
# Registrations whose insert raises (`service/login`)

`account_mgr:register` enters the account before it calls `mongo:insert`, and nothing
takes the entry back when the call raises. `load_all` reads the collection, so the
account is gone after the next start of the service.

`accounts_exact_iff`: the table is what was loaded and inserted as long as no insert raises.
-/

namespace SlgServer.Login

open Machine

variable {A P : Type} [DecidableEq A] [DecidableEq P] {idToName : ℕ → Option String}

/-- How many inserts of an account were issued and have not raised: those the
database has stored, and those it has yet to answer. -/
def State.issued (s : State A P) (account : A) : ℕ :=
  s.registered.count account + s.inserting account

/-- The accounts in the table are those loaded, and those whose insert was issued and
has not raised. -/
def Exact (docs : List (A × P)) (s : State A P) : Prop :=
  ∀ a, (s.accountTbl a).isSome = true ↔ (loadAll docs a).isSome = true ∨ 0 < s.issued a

/-- `mongo:insert` raises in the handler number `k`. -/
def Event.Raises : Event A P → Prop
  | .inserted _ ok => ok = false
  | _ => False

/-! ## What an event does to the inserts -/

omit [DecidableEq P] in
/-- In a sound state the table is exact iff no insert has raised. -/
theorem Sound.exact_iff {docs : List (A × P)} {s : State A P} (h : Sound docs s) :
    Exact docs s ↔ ∀ a, s.issued a = (s.inserts.map Prod.fst).count a := by
  have htbl : ∀ a, (s.accountTbl a).isSome = true ↔
      (loadAll docs a).isSome = true ∨ a ∈ s.inserts.map Prod.fst := by
    intro a
    simp only [Option.isSome_iff_exists, h.accountTbl, List.mem_map, Prod.exists, exists_or,
      exists_and_right, exists_eq_right]
  refine forall_congr' fun a => ?_
  rw [htbl]
  have hle : s.issued a ≤ (s.inserts.map Prod.fst).count a := h.registered a
  have hone := List.nodup_iff_count_le_one.mp h.inserts_nodup a
  by_cases hmem : a ∈ s.inserts.map Prod.fst
  · have hpos := List.count_pos_iff.mpr hmem
    have hnew : (loadAll docs a).isSome = false := by
      obtain ⟨⟨a', p⟩, hin, rfl⟩ := List.mem_map.mp hmem
      rw [h.inserts_new a' p hin, Option.isSome_none]
    simp only [hmem, hnew, Bool.false_eq_true, or_true, false_or, true_iff]
    omega
  · have hzero := List.count_eq_zero_of_not_mem hmem
    have hnone : ¬ 0 < s.issued a := by omega
    simp only [hmem, hnone, or_false, true_iff]
    omega

/-- Without an error no insert that was issued is lost. -/
theorem issued_le {s s' : State A P} {e : Event A P} (h : step idToName s e = some s')
    (he : ¬ e.Raises) (a : A) : s.issued a ≤ s'.issued a := by
  rw [State.issued, State.issued]
  cases e with
  | data fd protoId params =>
    rcases dispatch_cases idToName s fd protoId params (Option.some.inj h) with
      ⟨-, -, hreg, hwait⟩ | ⟨account, -, -, -, hreg, hwait⟩
    · exact Nat.le_of_eq (by rw [hreg, hwait])
    · rw [hreg, hwait, ← Nat.add_assoc]
      exact Nat.le_add_right _ _
  | inserted k ok =>
    obtain rfl : ok = true := by simpa [Event.Raises] using he
    -- the handler waits for the insert no longer, but its account is registered
    obtain ⟨account, -, -, hreg, hwait⟩ := step_inserted h
    have hstored := hwait a
    rw [hreg, if_pos rfl, List.count_cons]
    simp only [beq_iff_eq]
    omega
  | addressed k answer =>
    obtain ⟨-, -, hreg, hwait⟩ := step_addressed h
    exact Nat.le_of_eq (by rw [hreg, hwait])

/-- An error loses an insert. -/
theorem issued_of_raises {s s' : State A P} {e : Event A P} (h : step idToName s e = some s')
    (he : e.Raises) : s'.inserts = s.inserts ∧ ∃ a, s'.issued a + 1 = s.issued a := by
  cases e with
  | data => exact he.elim
  | addressed => exact he.elim
  | inserted k ok =>
    obtain rfl : ok = false := he
    obtain ⟨account, -, hins, hreg, hwait⟩ := step_inserted h
    have hlost := hwait account
    refine ⟨hins, account, ?_⟩
    rw [if_neg (by decide)] at hreg
    rw [if_pos rfl] at hlost
    rw [State.issued, State.issued, hreg, ← hlost, Nat.add_assoc]

/-- Without an error the table stays exact. -/
theorem issued_eq {s s' : State A P} {e : Event A P} (h : step idToName s e = some s')
    (he : ¬ e.Raises) (a : A) : s'.issued a + (s.inserts.map Prod.fst).count a =
      s.issued a + (s'.inserts.map Prod.fst).count a := by
  have hle := issued_le h he a
  simp only [State.issued] at hle ⊢
  cases step_effect h with
  | quiet htbl hins hreg hwait =>
    have := hwait a
    rw [hreg] at hle ⊢
    rw [hins]
    omega
  | entered account passwd hnew htbl hins hreg hwait =>
    have := hwait a
    rw [hreg, hins, List.map_append, List.count_append]
    by_cases ha : account = a <;> simp [ha] at * <;> omega
  | stored account htbl hins hreg hwait =>
    have := hwait a
    rw [hins, hreg, List.count_cons]
    by_cases ha : account = a <;> simp [ha] at * <;> omega

/-! ## Runs -/

/-- **The table is exact as long as no insert raises.** In a run of the login service
the accounts in the table are, all along, those loaded and those whose insert was
issued and has not raised, iff no insert of the run raises. For an insert that raises
leaves its account in the table, where it can be verified and cannot be registered
again. -/
theorem accounts_exact_iff {docs : List (A × P)} {s : State A P} {es : List (Event A P)}
    (h : run (step idToName) (State.init docs) es = some s) :
    (Always (step idToName) (Exact docs) (State.init docs) es ↔
        Guarded (step idToName) (fun _ e => ¬ e.Raises) (State.init docs) es) ∧
      ∀ (t : State A P) (fd protoId : ℕ) (account : A) (passwd : P),
        idToName protoId = some "login.register" → t.accountTbl account = none →
        ∃ t', run (step idToName) t [.data fd protoId ⟨some account, passwd⟩,
            .inserted t.waiting.length false] = some t' ∧
          t'.accountTbl ≠ t.accountTbl ∧ t'.verify (some account) passwd = (true, none) ∧
          ∀ passwd', t'.register account passwd' = none := by
  refine ⟨?_, fun t fd protoId account passwd hname hnew => ?_⟩
  · have hinit : Sound docs (State.init docs) := sound_init docs
    refine always_iff_guarded (I := Sound docs) (fun _ _ _ hs h => hs.effect (step_effect h))
      (fun s e s' hs hexact h => ?_) hinit (hinit.exact_iff.mpr fun _ => rfl) h
    rw [(hs.effect (step_effect h)).exact_iff]
    have hissued := hs.exact_iff.mp hexact
    by_cases he : e.Raises
    · obtain ⟨hins, a, ha⟩ := issued_of_raises h he
      refine iff_of_false (fun hall => ?_) (not_not.mpr he)
      have := hall a
      rw [hins, ← hissued a] at this
      omega
    · refine iff_of_true (fun a => ?_) he
      have := issued_eq h he a
      have := hissued a
      omega
  · refine ⟨{ t with
      accountTbl := Function.update t.accountTbl account (some passwd)
      inserts := t.inserts ++ [(account, passwd)] }, ?_, fun heq => ?_, ?_, fun passwd' => ?_⟩
    · have hdrop : ∀ w, (t.waiting ++ [w]).eraseIdx t.waiting.length = t.waiting := by
        intro w
        rw [List.eraseIdx_append_of_length_le (Nat.le_refl _), Nat.sub_self]
        simp
      simp [run_cons, step, State.dispatch, hname, State.registerMsg, State.register, hnew, hdrop]
    · have hentry := congrFun heq account
      simp [hnew] at hentry
    · simp [State.verify]
    · simp [State.register]

/-- One client registers the name `7`, and the database raises. -/
def failedRegister : List (Event ℕ ℕ) := [.data 3 2 ⟨some 7, 70⟩, .inserted 0 false]

/-- No insert raises when two clients register the name `7`, but one does in
`failedRegister`. -/
theorem accounts_exact_iff_failedRegister :
    Always (step loginNames) (Exact [(1, 10)]) (State.init [(1, 10)]) twoRegisters ∧
      ¬ Always (step loginNames) (Exact []) (State.init []) failedRegister := by
  obtain ⟨s, hs⟩ : ∃ s, run (step loginNames) (State.init [(1, 10)]) twoRegisters = some s :=
    ⟨_, rfl⟩
  obtain ⟨t, ht⟩ : ∃ t, run (step loginNames) (State.init []) failedRegister = some t := ⟨_, rfl⟩
  refine ⟨(accounts_exact_iff hs).1.mpr ?_, fun h => ?_⟩
  · simp [Guarded, twoRegisters, Event.Raises]
  · have hguard := ((accounts_exact_iff ht).1.mp h).2 _ rfl
    exact hguard.1 rfl

/-- The name is in the table, though no insert of it has succeeded or is on its way, and
can be verified. -/
theorem failed_insert_stays :
    ∃ s, run (step loginNames) (State.init []) failedRegister = some s ∧ ¬ Exact [] s ∧
      s.accountTbl 7 = some 70 ∧ s.verify (some 7) 70 = (true, none) := by
  refine ⟨_, rfl, fun h => ?_, rfl, rfl⟩
  rcases (h 7).mp rfl with hload | hissued
  · cases hload
  · exact absurd hissued (by decide)

end SlgServer.Login
