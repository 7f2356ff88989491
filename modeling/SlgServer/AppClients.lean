import SlgServer.App
import Mathlib.Data.List.Nodup
import Mathlib.Data.List.Perm.Subperm

/-!
# The load counter

`sock_mgr.clients` should be the number of connected sockets. It is one too small
for a warning that finds it above zero and for an `accept` that fails although the
close was counted, and one too large for a close that finds it at zero, before
`accept` has answered. `clients_exact` says when these cancel out.
-/

namespace SlgServer.App

open Machine

variable {A M B : Type} [DecidableEq A]

/-! ## What an event does to the counter -/

/-- The counter, the `open` handlers that wait, and the record it is compared with. -/
structure Counts : Type where
  /-- `clients` -/
  clients : ℕ
  /-- the sockets whose `open` waits for `accept` -/
  opening : List ℕ
  /-- the sockets that are connected -/
  connected : List ℕ
  /-- closes and errors that found the counter at zero -/
  unmatched : ℕ
  /-- `accept` calls that failed -/
  refused : ℕ
  /-- warnings that found the counter above zero -/
  warned : ℕ

/-- The counts in a state. -/
def State.counts (s : State A B) : Counts where
  clients := s.clients
  opening := s.opening
  connected := s.seen.connected
  unmatched := s.seen.unmatched
  refused := s.seen.refused
  warned := s.seen.warned

/-- The counts after a close or an error. -/
def Counts.ended (n : Counts) (fd : ℕ) : Counts :=
  { n with
    clients := n.clients - 1
    connected := n.connected.erase fd
    unmatched := n.unmatched + if n.clients = 0 then 1 else 0 }

/-- The counts after a warning. -/
def Counts.warning (n : Counts) : Counts :=
  { n with
    clients := n.clients - 1
    warned := n.warned + if n.clients = 0 then 0 else 1 }

/-- **What an event does to the counts.** -/
inductive CountEffect (s : State A B) : Event A M → Counts → Prop where
  /-- nothing -/
  | quiet (e : Event A M) : CountEffect s e s.counts
  /-- a connection, whose `accept` is called -/
  | opened (fd : ℕ) (hnew : fd ∉ s.seen.connected) :
      CountEffect s (.open fd) { s.counts with
        opening := s.opening ++ [fd], connected := s.seen.connected ++ [fd] }
  /-- `accept` returns -/
  | accepted (k : ℕ) (hk : k < s.opening.length) :
      CountEffect s (.accepted k true) { s.counts with
        clients := s.clients + 1, opening := s.opening.eraseIdx k }
  /-- `accept` fails, and `open` raises -/
  | refused (k : ℕ) (hk : k < s.opening.length) :
      CountEffect s (.accepted k false) { s.counts with
        opening := s.opening.eraseIdx k, refused := s.seen.refused + 1 }
  /-- the end of a connection -/
  | ended (fd : ℕ) (e : Event A M) (he : e = .close fd ∨ e = .error fd)
      (hfd : fd ∈ s.seen.connected) : CountEffect s e (s.counts.ended fd)
  /-- a warning -/
  | warned (fd : ℕ) : CountEffect s (.warning fd) s.counts.warning

omit [DecidableEq A] in
theorem State.counts_closeConn (s : State A B) (fd : ℕ) :
    (s.closeConn fd).counts = { s.counts with clients := s.clients - 1 } := by
  rw [State.closeConn, State.decClients]
  split_ifs with h
  · rfl
  · have hzero : s.clients = 0 := by simpa using h
    simp [State.counts, hzero]

omit [DecidableEq A] in
theorem State.counts_data (c : Codec A M B) (s : State A B) (fd protoId : ℕ) (params : Params A) :
    (s.data c fd protoId params).counts = s.counts := by
  have hroom : ∀ join, (s.roomRequest fd protoId join).counts = s.counts := by
    intro join
    rw [State.roomRequest]
    split <;> rfl
  rw [State.data]
  split_ifs
  · rw [State.dispatch]
    split
    · rw [State.auth]
      split_ifs <;> rfl
    · exact hroom none
    · exact hroom (some params.roomId)
    · rfl
  · rfl

omit [DecidableEq A] in
theorem State.counts_sendtoClient (c : Codec A M B) (s : State A B) (account : Option A)
    (protoName : String) (msg : Table A M) :
    (s.sendtoClient c account protoName msg).counts = s.counts := by
  rw [State.sendtoClient]
  split <;> rfl

theorem State.counts_loggedIn (c : Codec A M B) (s : State A B) (l : Login) (obj : Record) :
    (s.loggedIn c l obj).counts = s.counts := by
  rcases hp : s.players[l.obj]? with _ | ⟨fd, _ | account⟩ <;>
    simp [State.loggedIn, State.add, hp, State.counts, State.write]

/-- **Each event has one of these effects.** -/
theorem count_effect {c : Codec A M B} {s s' : State A B} {e : Event A M}
    (h : step c s e = some s') : CountEffect s e s'.counts := by
  have hquiet : s'.counts = s.counts → CountEffect s e s'.counts := by
    intro heq
    rw [heq]
    exact .quiet e
  cases e with
  | «open» fd =>
    rw [step] at h
    split_ifs at h with hfd
    cases h
    exact .opened fd (not_or.mp hfd).1
  | accepted k ok =>
    rw [step] at h
    split_ifs at h with hk hok
    · cases h
      rw [hok]
      exact .accepted k hk
    · cases h
      rw [Bool.eq_false_iff.mpr hok]
      exact .refused k hk
  | close fd =>
    rw [step] at h
    split_ifs at h with hfd
    cases h
    rw [State.ended, State.counts_closeConn]
    exact .ended fd _ (.inl rfl) hfd
  | error fd =>
    rw [step] at h
    split_ifs at h with hfd
    cases h
    rw [State.ended, State.counts_closeConn]
    exact .ended fd _ (.inr rfl) hfd
  | warning fd =>
    rw [step] at h
    split_ifs at h with hfd
    cases h
    rw [State.warning, State.counts_closeConn]
    exact .warned fd
  | data fd protoId params =>
    rw [step] at h
    split_ifs at h with hfd
    cases h
    exact hquiet (s.counts_data c fd protoId params)
  | loaded k answer =>
    obtain ⟨l, -, rfl⟩ := step_loaded h
    apply hquiet
    cases answer with
    | found obj =>
      rw [State.loaded, State.counts_loggedIn]
      rfl
    | absent time => rfl
    | raised => rfl
  | saved k ok =>
    obtain ⟨l, obj, -, rfl⟩ := step_saved h
    apply hquiet
    split_ifs
    · rw [State.counts_loggedIn]
      rfl
    · rfl
  | returned k answer =>
    rcases step_returned h with ⟨fd, bytes, rfl⟩ | rfl <;> exact hquiet rfl
  | roomBegin account =>
    cases h
    exact hquiet (s.counts_sendtoClient c account _ _)
  | sendtoClient account protoName msg =>
    cases h
    exact hquiet (s.counts_sendtoClient c account protoName msg)

/-! ## Accounting -/

/-- What the counter leaves out is what was counted wrongly. -/
def Counts.Accounted (n : Counts) : Prop :=
  n.clients + n.opening.length + n.refused + n.warned = n.connected.length + n.unmatched

theorem accounted_step {c : Codec A M B} {s s' : State A B} {e : Event A M}
    (h : s.counts.Accounted) (hs : step c s e = some s') : s'.counts.Accounted := by
  generalize hn : s'.counts = n
  have heffect := count_effect hs
  rw [hn] at heffect
  simp only [Counts.Accounted, State.counts] at h
  cases heffect with
  | quiet => exact h
  | opened fd hnew =>
    simp only [Counts.Accounted, State.counts, List.length_append, List.length_singleton]
    omega
  | accepted k hk =>
    simp only [Counts.Accounted, State.counts, List.length_eraseIdx_of_lt hk]
    omega
  | refused k hk =>
    simp only [Counts.Accounted, State.counts, List.length_eraseIdx_of_lt hk]
    omega
  | ended fd _ _ hfd =>
    have hpos := List.length_pos_of_mem hfd
    by_cases hzero : s.clients = 0 <;>
      simp only [Counts.Accounted, Counts.ended, State.counts, List.length_erase_of_mem hfd, hzero,
        if_true, if_false] <;> omega
  | warned fd =>
    by_cases hzero : s.clients = 0 <;>
      simp only [Counts.Accounted, Counts.warning, State.counts, hzero, if_true, if_false] <;> omega

/-- While no `open` waits, the counter is the number of connected sockets. -/
def Exact (s : State A B) : Prop := s.opening = [] → s.clients = s.seen.connected.length

/-- While no `open` waits, as many closes and errors have found the counter at zero as
`accept` calls have failed and warnings have found it above zero. -/
def Balanced (s : State A B) : Prop :=
  s.opening = [] → s.seen.unmatched = s.seen.refused + s.seen.warned

omit [DecidableEq A] in
theorem exact_iff_balanced {s : State A B} (h : s.counts.Accounted) : Exact s ↔ Balanced s := by
  simp only [Counts.Accounted, State.counts] at h
  refine forall_congr' fun hnone => ?_
  rw [hnone, List.length_nil] at h
  omega

/-! ## Clean runs -/

/-- No warning, no `accept` that fails, and no close or error of a socket whose `open`
waits. -/
def Clean (s : State A B) (e : Event A M) : Prop :=
  (∀ fd, e ≠ .warning fd) ∧ (∀ k, e ≠ .accepted k false) ∧
    ∀ fd, e = .close fd ∨ e = .error fd → fd ∉ s.opening

/-- In clean runs nothing is counted wrongly, and the sockets whose `open` waits are
connected. -/
structure Counts.Tidy (n : Counts) : Prop where
  /-- what is not waiting is counted -/
  accounted : n.Accounted
  /-- no close found the counter at zero -/
  unmatched : n.unmatched = 0
  /-- no `accept` failed -/
  refused : n.refused = 0
  /-- there was no warning -/
  warned : n.warned = 0
  /-- a socket waits once -/
  opening_nodup : n.opening.Nodup
  /-- and is connected -/
  opening_subset : n.opening ⊆ n.connected

omit [DecidableEq A] in
/-- A connected socket that does not wait has been counted. -/
theorem Counts.Tidy.clients_pos {n : Counts} (h : n.Tidy) {fd : ℕ} (hfd : fd ∈ n.connected)
    (hwait : fd ∉ n.opening) : 0 < n.clients := by
  have hcons : (fd :: n.opening).Nodup := List.nodup_cons.mpr ⟨hwait, h.opening_nodup⟩
  have hsub : fd :: n.opening ⊆ n.connected := List.cons_subset.mpr ⟨hfd, h.opening_subset⟩
  have hle := (List.subperm_of_subset hcons hsub).length_le
  have hsum := h.accounted
  have hzero := h.unmatched
  have hzero' := h.refused
  have hzero'' := h.warned
  rw [Counts.Accounted] at hsum
  rw [List.length_cons] at hle
  omega

theorem tidy_step {c : Codec A M B} {s s' : State A B} {e : Event A M} (h : s.counts.Tidy)
    (hclean : Clean s e) (hs : step c s e = some s') : s'.counts.Tidy := by
  have haccounted := accounted_step h.accounted hs
  obtain ⟨hwarning, hrefused, hclose⟩ := hclean
  generalize hn : s'.counts = n
  have heffect := count_effect hs
  rw [hn] at heffect haccounted
  cases heffect with
  | quiet => exact h
  | opened fd hnew =>
    have hfresh : fd ∉ s.opening := fun hmem => hnew (h.opening_subset hmem)
    exact ⟨haccounted, h.unmatched, h.refused, h.warned,
      h.opening_nodup.append (List.nodup_singleton fd) (by simpa [State.counts] using hfresh),
      List.append_subset.mpr ⟨List.subset_append_of_subset_left _ h.opening_subset,
        List.subset_append_right _ _⟩⟩
  | accepted k hk =>
    exact ⟨haccounted, h.unmatched, h.refused, h.warned, h.opening_nodup.eraseIdx k,
      fun fd hfd => h.opening_subset (List.mem_of_mem_eraseIdx hfd)⟩
  | refused k hk => exact absurd rfl (hrefused k)
  | ended fd _ he hfd =>
    have hwait := hclose fd he
    have hpos : s.clients ≠ 0 := Nat.pos_iff_ne_zero.mp (h.clients_pos hfd hwait)
    refine ⟨haccounted, ?_, h.refused, h.warned, h.opening_nodup, fun fd' hfd' => ?_⟩
    · have hzero := h.unmatched
      simpa [Counts.ended, State.counts, hpos] using hzero
    · have hne : fd' ≠ fd := by
        rintro rfl
        exact hwait hfd'
      exact (List.mem_erase_of_ne hne).mpr (h.opening_subset hfd')
  | warned fd => exact absurd rfl (hwarning fd)

/-! ## Runs -/

omit [DecidableEq A] in
theorem tidy_init : (State.init : State A B).counts.Tidy :=
  ⟨rfl, rfl, rfl, rfl, List.nodup_nil, List.nil_subset _⟩

/-- **The load counter.** In every run the counter is the number of connected sockets
whenever no `open` waits iff whenever none waits the closes and errors that found it
at zero are as many as the `accept` calls that failed and the warnings that found it
above zero. So it is in runs without warnings and failures in which no socket is
closed while its `open` waits. -/
theorem clients_exact {c : Codec A M B} (es : List (Event A M)) :
    (Always (step c) Exact State.init es ↔ Always (step c) Balanced State.init es) ∧
      (Guarded (step c) Clean State.init es → Always (step c) Exact State.init es) := by
  have hstep : ∀ s e s', s.counts.Accounted → step c s e = some s' → s'.counts.Accounted :=
    fun s e s' hI hs => accounted_step hI hs
  have hinit : (State.init : State A B).counts.Accounted := tidy_init.accounted
  refine ⟨⟨?_, ?_⟩, ?_⟩
  · exact always_mono hstep (fun s hI h => (exact_iff_balanced hI).mp h) hinit
  · exact always_mono hstep (fun s hI h => (exact_iff_balanced hI).mpr h) hinit
  · refine always_of_guarded (I := fun s => s.counts.Tidy)
      (fun s e s' hI hC hs => tidy_step hI hC hs) (fun s hI => ?_) tidy_init
    refine (exact_iff_balanced hI.accounted).mpr fun _ => ?_
    have hunmatched : s.seen.unmatched = 0 := hI.unmatched
    have hrefused : s.seen.refused = 0 := hI.refused
    have hwarned : s.seen.warned = 0 := hI.warned
    omega

/-- Two sockets come, and both go. -/
def openAndClose : List (Event ℕ Unit) :=
  [.open 3, .open 4, .accepted 1 true, .accepted 0 true, .close 4, .error 3]

/-- Sockets that are accepted are counted until they are closed. -/
theorem clients_exact_openAndClose :
    Always (step (plainCodec ℕ Unit)) Exact State.init openAndClose := by
  refine (clients_exact openAndClose).2 ?_
  have hclean {s : State ℕ (ℕ × Value ℕ Unit)} (e : Event ℕ Unit) (hs : s.opening = [])
      (hwarning : ∀ fd, e ≠ .warning fd) (haccepted : ∀ k, e ≠ .accepted k false) : Clean s e :=
    ⟨hwarning, haccepted, fun fd _ => hs ▸ List.not_mem_nil⟩
  refine guarded_cons rfl ?_ (guarded_cons rfl ?_ (guarded_cons rfl ?_ (guarded_cons rfl ?_
    (guarded_cons rfl ?_ (guarded_cons rfl ?_ trivial)))))
  · simp [Clean]
  · simp [Clean]
  · simp [Clean]
  · simp [Clean]
  · exact hclean (.close 4) rfl (by simp) (by simp)
  · exact hclean (.error 3) rfl (by simp) (by simp)

/-- A warning about the only socket leaves the counter at zero. -/
theorem warning_drops_client :
    ∃ s, run (step (plainCodec ℕ Unit)) State.init [.open 3, .accepted 0 true, .warning 3] =
        some s ∧
      s.opening = [] ∧ s.clients = 0 ∧ s.seen.connected = [3] :=
  ⟨_, rfl, rfl, rfl, rfl⟩

end SlgServer.App
