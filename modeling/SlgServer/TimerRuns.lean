import SlgServer.Machine
import SlgServer.TimerSlots
import Mathlib.Data.List.Range

/-!
# Every timeout in time

The wheel is a way to keep a list of timeouts sorted by the tick at which they are due. What
it holds at a tick is every timeout that was ever added and is due later, each in the list
that `place` names, and every list in the order in which its timeouts were added (`Holds`).
So the list that `timer_execute` takes at a tick is that of the timeouts due at this very
tick, in the order in which they were added.

* `fires_on_time`: whatever happens in whatever order, each timeout is sent at the tick at
  which it is due, once, and after those that were added earlier for the same tick.
* `catches_up`: the timer thread never stops before it has sent all that is due.
-/

namespace SlgServer.Timer

open Machine

/-! ## What the wheel holds -/

/-- The node in which a timeout waits. -/
def Timeout.node (b : Timeout) : Node := ⟨b.handle, b.session, UInt32.ofNat b.due⟩

/-- The nodes of all timeouts that are due at the tick `first` or later. -/
def waiting (added : List Timeout) (first : ℕ) : List Node :=
  (added.filter fun b => first ≤ b.due).map Timeout.node

/-- The timeouts due at the tick `d`, in the order in which they were added. -/
def dueAt (added : List Timeout) (d : ℕ) : List Timeout := added.filter fun b => b.due = d

/-- The list in which a node lies at the tick `now`. -/
abbrev key (now : ℕ) (node : Node) : Slot := slotOf node.expire (UInt32.ofNat now)

/-- At the tick `now` the wheel holds what is due at the tick `first` or later. -/
structure Holds (T : Wheel) (added : List Timeout) (now first : ℕ) : Prop where
  time : T.time = UInt32.ofNat now
  lists : Buckets.Sorts (key now) (waiting added first) T.list
  due_lt : ∀ b ∈ added, b.due < now + 2 ^ 31

variable {T : Wheel} {added : List Timeout} {now first : ℕ}

theorem mem_waiting {node : Node} :
    node ∈ waiting added first ↔ ∃ b ∈ added, first ≤ b.due ∧ b.node = node := by
  simp only [waiting, List.mem_map, List.mem_filter, decide_eq_true_eq, and_assoc]

theorem key_node {b : Timeout} (hle : now ≤ b.due) (hfar : b.due < now + 2 ^ 31) :
    key now b.node = place b.due now :=
  slotOf_eq hle hfar

theorem foldl_addNode (T : Wheel) (l : List Node) :
    l.foldl Wheel.addNode T =
      { T with list := Buckets.putAll (fun node => slotOf node.expire T.time) T.list l } := by
  induction l generalizing T with
  | nil => rfl
  | cons node l ih =>
    rw [List.foldl_cons, ih]
    rfl

/-- `move_list`. -/
theorem moveList_eq (T : Wheel) (level idx : ℕ) :
    T.moveList level idx =
      { T with
        list := Buckets.putAll (fun node => slotOf node.expire T.time)
          (Function.update T.list (.level level idx) []) (T.list (.level level idx)) } :=
  foldl_addNode ..

/-- The list that `timer_execute` looks at at the tick `now`. -/
def dueSlot (now : ℕ) : Slot := .near (now % 2 ^ 8)

theorem timerShift_current (hT : T.time = UInt32.ofNat now) :
    T.timerShift.current = T.current := by
  rw [timerShift_eq hT, Wheel.moveDown]
  split
  · rfl
  · rw [moveList_eq]

theorem due_eq (hT : T.time = UInt32.ofNat now) : T.due = dueSlot now := by
  rw [Wheel.due, hT, near_eq, dueSlot]

/-- In the list that `timer_execute` looks at there is what is due now. -/
theorem place_eq_due_iff {due : ℕ} (hle : now ≤ due) :
    place due now = dueSlot now ↔ due = now := by
  constructor
  · intro h
    have hdepth : depth due now = 0 := by
      rw [← depth_place, h]
      rfl
    have hsame : due / 2 ^ 8 = now / 2 ^ 8 := by
      have hnot : ¬ 0 < depth due now := hdepth.le.not_gt
      rw [lt_depth_iff, not_and, not_not] at hnot
      exact hnot (by decide)
    rw [place, hdepth] at h
    have hmod : due % 2 ^ 8 = now % 2 ^ 8 := Slot.near.inj h
    rw [← Nat.div_add_mod due (2 ^ 8), hsame, hmod, Nat.div_add_mod]
  · rintro rfl
    have hdepth : depth due due = 0 :=
      Nat.eq_zero_of_not_pos fun hpos => (lt_depth_iff.mp hpos).2 rfl
    rw [place, hdepth, dueSlot]

theorem holds_init (current point : UInt64) : Holds (.init current point) [] 0 1 :=
  ⟨rfl, Buckets.sorts_nil _, fun _ hb => absurd hb List.not_mem_nil⟩

/-- `timer_add`. -/
theorem Holds.add (h : Holds T added now first) {b : Timeout} (hle : first ≤ b.due)
    (hfar : b.due < now + 2 ^ 31) : Holds (T.addNode b.node) (added ++ [b]) now first where
  time := h.time
  lists := by
    have hwaiting : waiting (added ++ [b]) first = waiting added first ++ [b.node] := by
      simp [waiting, hle]
    have hlist : (T.addNode b.node).list = Buckets.put T.list (key now b.node) b.node := by
      rw [key, ← h.time]
      rfl
    rw [hwaiting, hlist]
    exact h.lists.put b.node
  due_lt b' hb := by
    rcases List.mem_append.mp hb with hb | hb
    · exact h.due_lt b' hb
    · rwa [List.mem_singleton.mp hb]

/-- `timer_shift`. -/
theorem Holds.shift (h : Holds T added now (now + 1)) :
    Holds T.timerShift added (now + 1) (now + 1) := by
  have hnode : ∀ node ∈ waiting added (now + 1), ∃ b : Timeout, now < b.due ∧
      b.due < now + 2 ^ 31 ∧ key now node = place b.due now ∧
      key (now + 1) node = place b.due (now + 1) := by
    intro node hnode
    obtain ⟨b, hb, hle, rfl⟩ := mem_waiting.mp hnode
    have hfar := h.due_lt b hb
    exact ⟨b, hle, hfar, key_node (Nat.le_of_lt hle) hfar,
      key_node hle (Nat.lt_of_lt_of_le hfar (Nat.add_le_add_right (Nat.le_succ now) _))⟩
  have hdue : ∀ b ∈ added, b.due < now + 1 + 2 ^ 31 := fun b hb =>
    Nat.lt_of_lt_of_le (h.due_lt b hb) (Nat.add_le_add_right (Nat.le_succ now) _)
  rw [timerShift_eq h.time, Wheel.moveDown]
  have hmoved := moved.eq_def (now + 1)
  cases hover : runOver (now + 1) with
  | zero =>
    rw [hover] at hmoved
    refine ⟨rfl, h.lists.congr fun node hx => ?_, hdue⟩
    obtain ⟨b, hlt, hfar, hkey, hkey'⟩ := hnode node hx
    rw [hkey, hkey']
    exact place_stays hlt hfar (by simp [hmoved])
  | succ k =>
    rw [hover] at hmoved
    dsimp only at hmoved ⊢
    rw [moveList_eq]
    generalize Slot.level k ((now + 1) / 2 ^ bits k % 64) = slot at hmoved
    refine ⟨rfl, h.lists.move (fun node hx hne => ?_) (fun node hx heq => ?_)
      fun node hx heq node' hx' => ?_, hdue⟩
    · obtain ⟨b, hlt, hfar, hkey, hkey'⟩ := hnode node hx
      rw [hkey] at hne ⊢
      rw [hkey']
      exact place_stays hlt hfar fun hs => hne (Option.some.inj (hs.symm.trans hmoved))
    · obtain ⟨b, hlt, hfar, hkey, hkey'⟩ := hnode node hx
      have hdepth := depth_place_lt hlt hfar hmoved (hkey ▸ heq)
      exact fun hs => Nat.ne_of_lt hdepth (by rw [← hkey', hs])
    · obtain ⟨b, hlt, hfar, hkey, hkey'⟩ := hnode node hx
      obtain ⟨b', hlt', hfar', hkey₂, -⟩ := hnode node' hx'
      have hdepth := depth_place_lt hlt hfar hmoved (hkey ▸ heq)
      have hle := le_depth_place hlt' hmoved
      exact fun hs => Nat.not_lt_of_le hle (by rw [← hkey₂, hs, hkey']; exact hdepth)

/-- The list of the present tick is what is due now. -/
theorem Holds.list_due_now (h : Holds T added now now) :
    T.list T.due = (dueAt added now).map Timeout.node := by
  rw [h.lists, due_eq h.time, waiting, List.filter_map, List.filter_filter, dueAt]
  refine congrArg _ (List.filter_congr fun b hb => ?_)
  by_cases hle : now ≤ b.due
  · simp [hle, key_node hle (h.due_lt b hb), place_eq_due_iff hle]
  · have hne : b.due ≠ now := fun he => hle he.ge
    simp [hle, hne]

/-- `link_clear`: the rest is due later. -/
theorem Holds.clear (h : Holds T added now now) :
    Holds (T.linkClear T.due).2 added now (now + 1) where
  time := h.time
  lists := by
    have hrest : (waiting added now).filter (fun node => key now node ≠ T.due) =
        waiting added (now + 1) := by
      rw [waiting, waiting, List.filter_map, List.filter_filter, due_eq h.time]
      refine congrArg _ (List.filter_congr fun b hb => ?_)
      by_cases hle : now ≤ b.due
      · have hlt : now + 1 ≤ b.due ↔ b.due ≠ now := by
          rw [Nat.succ_le_iff, lt_iff_le_and_ne, and_iff_right hle, ne_comm]
        simp [hle, key_node hle (h.due_lt b hb), place_eq_due_iff hle, hlt]
      · have hlt : ¬ now + 1 ≤ b.due := fun hs => hle (Nat.le_of_succ_le hs)
        simp [hle, hlt]
    rw [← hrest]
    exact h.lists.clear T.due
  due_lt := h.due_lt

/-- After that the list of the present tick is empty, and stays so. -/
theorem Holds.list_due_eq_nil (h : Holds T added now (now + 1)) : T.list T.due = [] := by
  rw [h.lists, List.filter_eq_nil_iff, due_eq h.time]
  intro node hnode
  obtain ⟨b, hb, hle, rfl⟩ := mem_waiting.mp hnode
  have hle' : now ≤ b.due := Nat.le_of_succ_le hle
  rw [decide_eq_true_eq, key_node hle' (h.due_lt b hb), place_eq_due_iff hle']
  exact fun he => Nat.not_succ_le_self now (he ▸ hle)

/-! ## Steps -/

/-- What is sent at all ticks up to `now`. -/
def dueUpTo (added : List Timeout) (now : ℕ) : List Timeout :=
  (List.range' 1 now).flatMap (dueAt added)

theorem dueUpTo_succ (added : List Timeout) (now : ℕ) :
    dueUpTo added (now + 1) = dueUpTo added now ++ dueAt added (now + 1) := by
  rw [dueUpTo, List.range'_concat, List.flatMap_append, List.flatMap_singleton, dueUpTo,
    Nat.add_comm 1, Nat.one_mul]

/-- A timeout that is due later does not count yet. -/
theorem dueUpTo_append (added : List Timeout) {b : Timeout} (h : now < b.due) :
    dueUpTo (added ++ [b]) now = dueUpTo added now := by
  refine List.flatMap_congr fun d hd => ?_
  have hne : b.due ≠ d := by
    have := (List.mem_range'_1.mp hd).2
    omega
  simp [dueAt, List.filter_append, hne]

/-- The messages for nodes that are sent at the tick at which they are due. -/
theorem map_message_dueAt {s : State} :
    ((dueAt s.added s.ticks).map Timeout.node).map s.message = dueAt s.added s.ticks := by
  rw [List.map_map]
  refine (List.map_congr_left fun b hb => ?_).trans (List.map_id _)
  have hdue : b.due = s.ticks := of_decide_eq_true (List.mem_filter.mp hb).2
  simp only [Function.comp_apply, State.message, Timeout.node, ← hdue, id]

/-- The state of the timer between any two steps. -/
structure Inv (current : UInt64) (s : State) : Prop where
  holds : Holds s.T s.added s.ticks (s.ticks + 1)
  /-- before the shift there is never anything to send -/
  not_early : ∀ l, s.thread ≠ .early l
  sent : s.sent ++ s.thread.current.map s.message = dueUpTo s.added s.ticks
  current : s.T.current = current + UInt64.ofNat (s.ticks + s.left)

variable {current point : UInt64} {s t : State} {e : Event}

theorem inv_init : Inv current (.init current point) where
  holds := holds_init current point
  not_early _ := Thread.noConfusion
  sent := rfl
  current := (UInt64.add_zero current).symm

/-- `skynet_timeout`. -/
theorem Inv.skynetTimeout (h : Inv current s) (handle : UInt32) (time session : Int32)
    (found : Bool) : Inv current (s.skynetTimeout handle time session found).1 := by
  rw [State.skynetTimeout]
  by_cases hneg : time ≤ 0
  · rw [if_pos hneg]
    exact ⟨h.holds, h.not_early, h.sent, h.current⟩
  · rw [if_neg hneg]
    have hpos : 0 < time := Int32.not_le.mp hneg
    have hnat : 0 < time.toNatClampNeg := by
      rw [← Int32.toNat_toInt, Int.lt_toNat]
      exact Int32.lt_iff_toInt_lt.mp hpos
    have hword : time.toUInt32 + s.T.time = UInt32.ofNat (s.ticks + time.toNatClampNeg) := by
      rw [UInt32.ofNat_add, ← h.holds.time, UInt32.add_comm,
        ← Int32.toNat_toUInt32_of_le (Int32.le_of_lt hpos), UInt32.ofNat_toNat]
    have hnode : (⟨handle, session, time.toUInt32 + s.T.time⟩ : Node) =
        Timeout.node ⟨s.ticks + time.toNatClampNeg, handle, session⟩ := by
      rw [hword, Timeout.node]
    have hdue : s.ticks < s.ticks + time.toNatClampNeg := Nat.lt_add_of_pos_right hnat
    refine ⟨?_, h.not_early, h.sent.trans (dueUpTo_append _ hdue).symm, h.current⟩
    have hadd : s.T.timerAdd handle session time =
        s.T.addNode (Timeout.node ⟨s.ticks + time.toNatClampNeg, handle, session⟩) :=
      congrArg s.T.addNode hnode
    dsimp only
    rw [hadd]
    exact h.holds.add hdue (Nat.add_lt_add_left (Int32.toNatClampNeg_lt time) _)

/-- `skynet_updatetime`. -/
theorem Inv.skynetUpdatetime (h : Inv current s) (hleft : s.left = 0) (cp : UInt64) :
    Inv current (s.skynetUpdatetime cp) := by
  have hholds (T : Wheel) (hT : T.list = s.T.list) (htime : T.time = s.T.time) :
      Holds T s.added s.ticks (s.ticks + 1) :=
    ⟨htime.trans h.holds.time, hT ▸ h.holds.lists, h.holds.due_lt⟩
  rw [State.skynetUpdatetime]
  split_ifs
  · exact ⟨hholds _ rfl rfl, h.not_early, h.sent, h.current⟩
  · refine ⟨hholds _ rfl rfl, h.not_early, h.sent, ?_⟩
    dsimp only
    rw [h.current, hleft, Nat.add_zero, UInt64.ofNat_add, UInt64.ofNat_uInt32ToNat,
      UInt64.add_assoc]
  · exact h

theorem executeLate_of_nil (h : s.T.list s.T.due = []) :
    s.executeLate = { s with thread := .idle } := by
  rw [State.executeLate, Wheel.linkClear, h]

theorem executeLate_of_ne_nil (h : s.T.list s.T.due ≠ []) :
    s.executeLate =
      { s with T := (s.T.linkClear s.T.due).2, thread := .late (s.T.list s.T.due) } := by
  rw [State.executeLate, Wheel.linkClear]
  split
  · next hnil => exact absurd (congrArg Prod.fst hnil) h
  · next heq =>
    obtain ⟨rfl, rfl⟩ := Prod.mk.inj heq
    rfl

/-- Before the shift there is nothing to send, and so the shift comes at once. -/
theorem Inv.executeEarly_eq (h : Inv current s) : s.executeEarly = s.shift.executeLate := by
  rw [State.executeEarly, Wheel.linkClear, h.holds.list_due_eq_nil]

/-- The second `timer_execute` at a tick of which nothing is sent yet. -/
theorem inv_executeLate (hholds : Holds s.T s.added s.ticks s.ticks)
    (hsent : s.sent ++ dueAt s.added s.ticks = dueUpTo s.added s.ticks)
    (hcurrent : s.T.current = current + UInt64.ofNat (s.ticks + s.left)) :
    Inv current s.executeLate := by
  have hlist := hholds.list_due_now
  by_cases hnil : s.T.list s.T.due = []
  · have hdue : dueAt s.added s.ticks = [] := List.map_eq_nil_iff.mp (hlist.symm.trans hnil)
    have hkeep : Holds s.T s.added s.ticks (s.ticks + 1) := by
      have hclear := hholds.clear
      have hsame : (s.T.linkClear s.T.due).2 = s.T := by
        rw [Wheel.linkClear, ← hnil, Function.update_eq_self]
      rwa [hsame] at hclear
    rw [executeLate_of_nil hnil]
    rw [hdue] at hsent
    exact ⟨hkeep, fun _ => Thread.noConfusion, hsent, hcurrent⟩
  · rw [executeLate_of_ne_nil hnil]
    refine ⟨hholds.clear, fun _ => Thread.noConfusion, ?_, hcurrent⟩
    refine (congrArg (s.sent ++ ·) ?_).trans hsent
    rw [← map_message_dueAt, ← hlist]
    rfl

/-- `timer_update` up to where it gives the lock back. -/
theorem Inv.executeEarly (h : Inv current s) (hidle : s.thread = .idle) (hleft : s.left ≠ 0) :
    Inv current s.executeEarly := by
  rw [h.executeEarly_eq]
  refine inv_executeLate h.holds.shift ?_ ?_
  · have hsent := h.sent
    rw [hidle] at hsent
    rw [State.shift]
    dsimp only
    rw [dueUpTo_succ, ← hsent]
    simp [Thread.current]
  · have hcount : s.ticks + 1 + (s.left - 1) = s.ticks + s.left := by
      rw [Nat.add_assoc, Nat.add_sub_cancel' (Nat.one_le_iff_ne_zero.mpr hleft)]
    rw [State.shift]
    dsimp only
    rw [hcount, timerShift_current h.holds.time, h.current]

/-- Between two sends the list of the present tick is empty. -/
theorem Inv.executeLate_eq (h : Inv current s) : s.executeLate = { s with thread := .idle } :=
  executeLate_of_nil h.holds.list_due_eq_nil

/-- Every step keeps the invariant. -/
theorem Inv.step (h : Inv current s) (hstep : step s e = some t) : Inv current t := by
  cases e with
  | timeout handle time session found =>
    obtain rfl := Option.some.inj hstep
    exact h.skynetTimeout handle time session found
  | updatetime cp =>
    obtain ⟨⟨-, hleft⟩, heq⟩ := Option.ite_none_right_eq_some.mp hstep
    obtain rfl := Option.some.inj heq
    exact h.skynetUpdatetime hleft cp
  | goOn =>
    rw [Timer.step] at hstep
    split at hstep
    · next hidle =>
      obtain ⟨hleft, heq⟩ := Option.ite_none_left_eq_some.mp hstep
      obtain rfl := Option.some.inj heq
      exact h.executeEarly hidle hleft
    · next he => exact absurd he (h.not_early _)
    · next he => exact absurd he (h.not_early _)
    · next hlate =>
      obtain rfl := Option.some.inj hstep
      have hsent := h.sent
      rw [hlate] at hsent
      rw [h.executeLate_eq]
      exact ⟨h.holds, fun _ => Thread.noConfusion, hsent, h.current⟩
    · next node l hlate =>
      obtain rfl := Option.some.inj hstep
      have hsent := h.sent
      rw [hlate, Thread.current, List.map_cons, List.append_cons] at hsent
      exact ⟨h.holds, fun _ => Thread.noConfusion, hsent, h.current⟩

theorem inv_run {es : List Event} (hrun : run step (.init current point) es = some s) :
    Inv current s :=
  run_induction (fun _ _ _ h hstep => h.step hstep) inv_init hrun

/-- In every run, at every moment: what was sent, and what is taken out to be sent at this
tick, is what was asked for in time. For every tick so far these are all the timeouts that
are due at this tick, each once, in the order in which they were asked for, and it is sent at
this very tick. -/
theorem fires_on_time {current point : UInt64} {es : List Event} {s : State}
    (hrun : run step (.init current point) es = some s) :
    s.sent ++ s.thread.current.map s.message =
      (List.range' 1 s.ticks).flatMap fun d => s.added.filter fun b => b.due = d :=
  (inv_run hrun).sent

/-- Two timeouts, the second of which is due first, and three hundredths of a second. -/
def twoTimeouts : List Event :=
  [.timeout 1 2 10 true, .timeout 2 1 20 true, .updatetime 3] ++ List.replicate 7 .goOn

theorem fires_on_time_twoTimeouts :
    ∃ s, run step (.init 0 0) twoTimeouts = some s ∧ s.sent = [⟨1, 2, 20⟩, ⟨2, 1, 10⟩] ∧
      s.sent ++ s.thread.current.map s.message =
        (List.range' 1 s.ticks).flatMap fun d => s.added.filter fun b => b.due = d := by
  have h := Option.some_get (rfl : (run step (.init 0 0) twoTimeouts).isSome = true)
  exact ⟨_, h.symm, rfl, fires_on_time h.symm⟩

/-! ## The timer thread catches up -/

theorem run_goOn {s' : State} {n : ℕ} (hstep : step s .goOn = some s')
    (hrun : run step s' (List.replicate n .goOn) = some t) :
    run step s (List.replicate (n + 1) .goOn) = some t := by
  rw [List.replicate_succ, run_cons, hstep, Option.bind_some, hrun]

/-- `dispatch_list`. -/
theorem run_dispatch {l : List Node} (h : Inv current s) (hlate : s.thread = .late l) :
    run step s (List.replicate (l.length + 1) .goOn) =
      some { s with thread := .idle, sent := s.sent ++ l.map s.message } := by
  induction l generalizing s with
  | nil =>
    have hstep : step s .goOn = some s.executeLate := by rw [step, hlate]
    rw [h.executeLate_eq] at hstep
    exact run_goOn hstep (by simp)
  | cons node l ih =>
    have hstep : step s .goOn = some { s.dispatch node with thread := .late l } := by
      rw [step, hlate]
    rw [List.length_cons, run_goOn hstep (ih (h.step hstep) rfl)]
    simp [State.dispatch, State.message]

/-- One call of `timer_update`. -/
theorem run_update (h : Inv current s) (hidle : s.thread = .idle) (hleft : s.left ≠ 0) :
    ∃ n t, run step s (List.replicate n .goOn) = some t ∧ t.thread = .idle ∧
      t.left + 1 = s.left ∧ t.ticks = s.ticks + 1 ∧ t.added = s.added := by
  have hstep : step s .goOn = some s.executeEarly := by
    rw [step, hidle]
    exact if_neg hleft
  have hinv := h.step hstep
  have hpred : s.shift.left + 1 = s.left := Nat.succ_pred hleft
  rw [h.executeEarly_eq] at hstep hinv
  by_cases hnil : s.shift.T.list s.shift.T.due = []
  · refine ⟨1, { s.shift with thread := .idle }, ?_, rfl, hpred, rfl, rfl⟩
    rw [executeLate_of_nil hnil] at hstep
    rw [List.replicate_one, run_cons, hstep]
    rfl
  · rw [executeLate_of_ne_nil hnil] at hstep hinv
    have hrun := run_dispatch hinv rfl
    exact ⟨_, _, run_goOn hstep hrun, rfl, hpred, rfl, rfl⟩

/-- All calls of `timer_update` that are left. -/
theorem run_updates {left : ℕ} (h : Inv current s) (hidle : s.thread = .idle)
    (hleft : s.left = left) :
    ∃ n t, run step s (List.replicate n .goOn) = some t ∧ t.thread = .idle ∧ t.left = 0 ∧
      t.ticks = s.ticks + left ∧ t.added = s.added := by
  induction left generalizing s with
  | zero => exact ⟨0, s, rfl, hidle, hleft, rfl, rfl⟩
  | succ left ih =>
    have hne : s.left ≠ 0 := hleft ▸ Nat.succ_ne_zero left
    obtain ⟨n, t, hrun, hidle', hpred, hticks, hadded⟩ := run_update h hidle hne
    have hinv : Inv current t := run_induction (fun _ _ _ h hstep => h.step hstep) h hrun
    obtain ⟨m, u, hrun', hu, hzero, hticks', hadded'⟩ :=
      ih hinv hidle' (Nat.succ_inj.mp (hpred.trans hleft))
    refine ⟨n + m, u, ?_, hu, hzero, ?_, hadded'.trans hadded⟩
    · rw [List.replicate_add, run_append, hrun, Option.bind_some, hrun']
    · rw [hticks', hticks, Nat.add_assoc, Nat.add_comm 1]

/-- From wherever a run has come, the timer thread, going on by itself, comes to the end of
`skynet_updatetime`. Then it has made as many ticks as `skynet_now` has advanced, and has sent
exactly what was due at them. -/
theorem catches_up {current point : UInt64} {es : List Event} {s : State}
    (hrun : run step (.init current point) es = some s) :
    ∃ n t, run step s (List.replicate n .goOn) = some t ∧ t.thread = .idle ∧ t.left = 0 ∧
      t.ticks = s.ticks + s.left ∧ t.T.current = current + UInt64.ofNat t.ticks ∧
      t.sent = (List.range' 1 t.ticks).flatMap fun d => s.added.filter fun b => b.due = d := by
  have h := inv_run hrun
  obtain ⟨n, t, hn, hidle, hleft, hticks, hadded⟩ : ∃ n t,
      run step s (List.replicate n .goOn) = some t ∧ t.thread = .idle ∧ t.left = 0 ∧
        t.ticks = s.ticks + s.left ∧ t.added = s.added := by
    cases hthread : s.thread with
    | idle => exact run_updates h hthread rfl
    | early l => exact absurd hthread (h.not_early l)
    | late l =>
      have hrun' := run_dispatch h hthread
      have hinv := run_induction (I := Inv current) (fun _ _ _ h hstep => h.step hstep) h hrun'
      obtain ⟨m, t, hm, hrest⟩ := run_updates hinv rfl rfl
      exact ⟨_, t, by rw [List.replicate_add, run_append, hrun', Option.bind_some, hm], hrest⟩
  have hinv : Inv current t := run_induction (fun _ _ _ h hstep => h.step hstep) h hn
  refine ⟨n, t, hn, hidle, hleft, hticks, ?_, ?_⟩
  · rw [hinv.current, hleft, Nat.add_zero]
  · have hsent := hinv.sent
    rw [hidle] at hsent
    rw [← hadded]
    exact (List.append_nil _).symm.trans hsent

theorem catches_up_twoTimeouts :
    ∃ s, run step (.init 0 0) (twoTimeouts.take 5) = some s ∧
      ∃ n t, run step s (List.replicate n .goOn) = some t ∧
        t.sent = (List.range' 1 t.ticks).flatMap fun d => s.added.filter fun b => b.due = d := by
  have h := Option.some_get (rfl : (run step (.init 0 0) (twoTimeouts.take 5)).isSome = true)
  obtain ⟨n, t, hrun, -, -, -, -, hsent⟩ := catches_up h.symm
  exact ⟨_, h.symm, n, t, hrun, hsent⟩

end SlgServer.Timer
