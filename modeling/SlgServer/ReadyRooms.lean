import SlgServer.AreaMgr
import SlgServer.RoomQueue

/-!
# Ready rooms that get lost

`check_ready` waits for `area_mgr` inside its loop over `ready_tbl`, and puts a
new table in its place when the loop is over. A room that fills up meanwhile
goes into the table under iteration: whether the loop still comes by it is up to
`pairs`. If not, it is dropped with the table.

`noneLost_iff` has the exact condition under which no ready room gets lost, and
one on the requests alone: no room fills up while a call of `check_ready` waits
for the area of a room that has one.
-/

namespace SlgServer.RoomMgr

open State

variable {A G : Type}

/-- Every open room with four players that is still to be sent to its area is a
field of `ready_tbl`. -/
def NoneLost (s : State A G) : Prop :=
  ∀ id ref room, s.roomAt id = some (ref, room) → 4 ≤ room.playerList.length → ¬ s.Sent id →
    (id, ref) ∈ s.readyFields

/-- When a loop ends and a new table is put in place of `ready_tbl`, the open
rooms in `ready_tbl` have all been sent, the last one just now. -/
def LeavesNone (getArea : G → Option ℕ) (s : State A G) : Event A G → Prop
  | .getAreaRet k none => ∀ t room addr, s.ticks[k]? = some t → s.rooms t.room = some room →
      getArea room.gameId = some addr →
      ∀ f ∈ s.readyFields, s.roomTbl f.1 = some f.2 → f.2 = t.room ∨ s.Sent f.1
  | _ => True

/-- A room gets its fourth player only while every suspended `check_ready`
waits for an area that there is not. -/
def FillsUndisturbed (getArea : G → Option ℕ) (s : State A G) : Event A G → Prop
  | .joinRoom id _ => ∀ ref room, s.roomAt id = some (ref, room) → room.playerList.length = 3 →
      ∀ t ∈ s.ticks, ∀ x, s.rooms t.room = some x → getArea x.gameId = none
  | _ => True

theorem NoneLost.init : NoneLost (State.init : State A G) := by
  intro id ref room hroom
  cases hroom

variable [DecidableEq A] {getArea : G → Option ℕ}

/-- `ready_tbl` is replaced only at the end of a loop. -/
theorem Effect.readyTbl {s s' : State A G} {e : Event A G} (h : Effect getArea s e s') :
    (∃ k t room addr, e = .getAreaRet k none ∧ s.ticks[k]? = some t ∧
        s.rooms t.room = some room ∧ getArea room.gameId = some addr ∧
        MayYield (s.tables t.tbl) t.size t.seen none ∧
        s'.sent = s.sent ++ [(addr, room.pack)] ∧ s'.roomTbl = s.roomTbl ∧
        s'.readyTbl = s.readyTbl + 1 ∧ s'.readyFields = []) ∨
      s'.readyTbl = s.readyTbl := by
  cases h with
  | startLast k t room addr htick hroom harea hnext =>
    exact .inl ⟨k, t, room, addr, rfl, htick, hroom, harea, hnext, rfl, rfl, rfl,
      Function.update_self ..⟩
  | _ => exact .inr rfl

/-- An open room with four players that is still to be sent was one before the
step, or its fourth player has just joined. -/
theorem Effect.waiting {s s' : State A G} {e : Event A G} (hs : Sound s)
    (h : Effect getArea s e s') {id ref : ℕ} {room' : Room A G}
    (hroom' : s'.roomAt id = some (ref, room')) (hfour : 4 ≤ room'.playerList.length) :
    (∃ room, s.roomAt id = some (ref, room) ∧ 4 ≤ room.playerList.length) ∨
      (id, ref) ∈ s'.readyFields := by
  obtain ⟨room, hroom, heq⟩ | ⟨p, hone⟩ | ⟨p, room, rfl, hroom, hconcat⟩ :=
    h.openRoom hs.coherent hroom'
  · exact .inl ⟨room, hroom, heq ▸ hfour⟩
  · rw [hone] at hfour
    simp at hfour
  · rw [hconcat, List.length_append, List.length_singleton] at hfour
    have href := (roomAt_eq_some.mp hroom).2
    by_cases hlen : room.playerList.length = 3
    · right
      cases h with
      | joinUnknown _ _ hnone => rw [hroom] at hnone; cases hnone
      | join _ _ r x hx hne =>
        obtain ⟨rfl, rfl⟩ := Prod.mk.inj (Option.some.inj (hroom.symm.trans hx))
        exact absurd hlen hne
      | joinFill _ _ r x hx hthree =>
        obtain ⟨rfl, rfl⟩ := Prod.mk.inj (Option.some.inj (hroom.symm.trans hx))
        have hnot := hs.queued.not_mem_keys hs.coherent href hlen s.readyTbl
        simp only [State.readyFields, State.setRoom, Function.update_self]
        rw [ReadyTable.setField_eq_append hnot, hs.coherent.id_eq hroom]
        simp
    · exact .inl ⟨room, hroom, by omega⟩

/-- A step that does not replace `ready_tbl` has nothing to leave behind. -/
theorem Effect.leavesNone {s s' : State A G} {e : Event A G} (h : Effect getArea s e s')
    (hready : s'.readyTbl = s.readyTbl) : LeavesNone getArea s e := by
  cases h with
  | startRaise k next t room htick hroom harea =>
    cases next with
    | none =>
      intro t' room' addr htick' hroom' harea'
      obtain rfl := Option.some.inj (htick.symm.trans htick')
      obtain rfl := Option.some.inj (hroom.symm.trans hroom')
      rw [harea] at harea'
      cases harea'
    | some id => trivial
  | startLast => exact absurd hready (Nat.succ_ne_self _)
  | _ => trivial

/-- A step loses a ready room exactly if it drops a table with one in it. -/
theorem noneLost_step {s s' : State A G} {e : Event A G} (hs : Sound s) (hp : NoneLost s)
    (h : Effect getArea s e s') : NoneLost s' ↔ LeavesNone getArea s e := by
  obtain ⟨k, t, room, addr, rfl, htick, hroom, harea, -, hsent, htbl, -, hempty⟩ | hready :=
    h.readyTbl
  · -- the table is replaced: nothing may be left to be sent
    have hsent' := sent_concat hsent
    have hroomId : ∀ {f : ℕ × ℕ}, f ∈ s.readyFields → f.1 = room.id → f.2 = t.room := by
      intro f hf hid
      obtain ⟨x, hx, hxid, -⟩ := hs.queued.field _ f hf
      exact hs.coherent.unique _ _ room.id (by rw [idAt_of_rooms hx, hxid, hid])
        (idAt_of_rooms hroom)
    refine ⟨?_, fun hleaves id ref room' hroom' hfour hwait => ?_⟩
    · -- a field left behind unsent is a room that waits and that the new table lacks
      intro hp' t' room' addr' htick' hroom' _ f hf hopen
      obtain rfl := Option.some.inj (htick.symm.trans htick')
      obtain ⟨x, hx, -, hfour⟩ := hs.queued.field _ f hf
      obtain ⟨x', hx', hle⟩ := h.heapLe hs.coherent hx
      have hat : s'.roomAt f.1 = some (f.2, x') := roomAt_eq_some.mpr ⟨by rw [htbl, hopen], hx'⟩
      by_contra hnot
      have hwait : ¬ s'.Sent f.1 := by
        rw [hsent']
        rintro (hold | hid)
        · exact hnot (.inr hold)
        · exact hnot (.inl (hroomId hf hid))
      have hmem := hp' f.1 f.2 x' hat (Nat.le_trans hfour hle.players.length_le) hwait
      rw [hempty] at hmem
      cases hmem
    · rw [hsent'] at hwait
      obtain ⟨x, hx, hfour⟩ | hmem := h.waiting hs hroom' hfour
      · have hf := hp id ref x hx hfour fun hold => hwait (.inl hold)
        obtain ⟨hopen, href⟩ := roomAt_eq_some.mp hx
        obtain hlast | hold := hleaves t room addr htick hroom harea _ hf hopen
        · simp only at hlast
          subst hlast
          obtain rfl := Option.some.inj (href.symm.trans hroom)
          exact absurd (.inr (hs.coherent.id_eq hx).symm) hwait
        · exact absurd (.inl hold) hwait
      · exact hmem
  · have hkeep : NoneLost s' := by
      intro id ref room' hroom' hfour hwait
      obtain ⟨x, hx, hfour⟩ | hmem := h.waiting hs hroom' hfour
      · have hf := hp id ref x hx hfour fun hold => hwait (h.sent_mono hold)
        have hf' := h.mem_tables hs.coherent hs.queued hf
        rwa [State.readyFields, hready]
      · exact hmem
    exact iff_of_true hkeep (h.leavesNone hready)

/-! ## Rooms that fill up while no loop is on its way -/

/-- A call that waits for an area there is iterates `ready_tbl`, to which nothing
was added since the loop began, and has sent all rooms but the current one; or
`ready_tbl` is another table, and empty. -/
def Undisturbed (getArea : G → Option ℕ) (s : State A G) : Prop :=
  ∀ t ∈ s.ticks, ∀ x addr, s.rooms t.room = some x → getArea x.gameId = some addr →
    (t.tbl = s.readyTbl → t.size = s.readyFields.length ∧ ∀ id ∈ t.seen.tail, s.Sent id) ∧
      (t.tbl ≠ s.readyTbl → s.readyFields = [])

/-- A suspended call that was there before the step. -/
theorem Undisturbed.old {s s' : State A G} {e : Event A G} (hs : Sound s)
    (hu : Undisturbed getArea s) (hfills : FillsUndisturbed getArea s e)
    (h : Effect getArea s e s') {t : Tick} (ht : t ∈ s.ticks) {x : Room A G} {addr : ℕ}
    (hx : s.rooms t.room = some x) (harea : getArea x.gameId = some addr) :
    (t.tbl = s'.readyTbl → t.size = s'.readyFields.length ∧ ∀ id ∈ t.seen.tail, s'.Sent id) ∧
      (t.tbl ≠ s'.readyTbl → s'.readyFields = []) := by
  obtain ⟨hcurrent, hother⟩ := hu t ht x addr hx harea
  obtain ⟨_, _, _, _, -, -, -, -, -, -, -, hnext, hempty⟩ | hready := h.readyTbl
  · -- the table was replaced, so the call iterates an old one
    have hle := (hs.queued.tick t ht).1
    exact ⟨fun htbl => by omega, fun _ => hempty⟩
  · have hfields : s'.readyFields = s.readyFields := by
      obtain ⟨id, p, ref, room, rfl, hroom, hlen, -⟩ | htables := h.tables hs.coherent hs.queued
      · -- no room fills up now
        have hnone := hfills ref room hroom hlen t ht x hx
        rw [hnone] at harea
        cases harea
      · rw [State.readyFields, State.readyFields, htables, hready]
    rw [hready, hfields]
    refine ⟨fun htbl => ?_, hother⟩
    obtain ⟨hsize, htail⟩ := hcurrent htbl
    exact ⟨hsize, fun id hid => h.sent_mono (htail id hid)⟩

theorem Undisturbed.step {s s' : State A G} {e : Event A G} (hs : Sound s)
    (hu : Undisturbed getArea s) (hfills : FillsUndisturbed getArea s e)
    (h : Effect getArea s e s') : Undisturbed getArea s' := by
  intro t' ht' x' addr' hx' harea'
  obtain hold | ⟨htbl, hsize, id, rfl, hseen, -⟩ |
    ⟨k, t, id, room, addr, rfl, htick, hroom, harea, htbl, hsize, hseen, -, -⟩ := h.tick ht'
  · obtain ⟨id, rest, -, hf⟩ := (hs.queued.tick t' hold).2
    obtain ⟨x, hx, -, -⟩ := hs.queued.field _ _ hf
    obtain ⟨x'', hx'', hle⟩ := h.heapLe hs.coherent hx
    obtain rfl := Option.some.inj (hx'.symm.trans hx'')
    exact hu.old hs hfills h hold hx (by rw [← hle.gameId, harea'])
  · cases h with
    | tickStart =>
      refine ⟨fun _ => ⟨hsize, fun n hn => ?_⟩, fun hne => absurd htbl hne⟩
      rw [hseen] at hn
      cases hn
  · -- the call goes on: the room it was at is sent now
    have ht := List.mem_of_getElem? htick
    obtain ⟨hcurrent, hother⟩ := hu.old hs hfills h ht hroom harea
    rw [htbl, hsize, hseen]
    refine ⟨fun heq => ⟨(hcurrent heq).1, ?_⟩, hother⟩
    obtain ⟨last, rest, hlast, hf⟩ := (hs.queued.tick t ht).2
    obtain ⟨x, hx, hxid, -⟩ := hs.queued.field _ _ hf
    obtain rfl := Option.some.inj (hx.symm.trans hroom)
    intro n hn
    rw [List.tail_cons, hlast] at hn
    rcases List.mem_cons.mp hn with rfl | hn
    · refine ⟨(addr, x.pack), ?_, hxid⟩
      rw [h.started htick hroom harea]
      exact List.mem_append_right _ (List.mem_singleton_self _)
    · exact (hcurrent heq).2 n (by rw [hlast]; exact hn)

/-- A loop that nothing disturbs has sent all of its table when it ends. -/
theorem Undisturbed.leavesNone {s s' : State A G} {e : Event A G} (hs : Sound s)
    (hu : Undisturbed getArea s) (h : Effect getArea s e s') : LeavesNone getArea s e := by
  obtain ⟨k, t, room, addr, rfl, htick, hroom, harea, hnext, -⟩ | hready := h.readyTbl
  · intro t' room' addr' htick' _ _ f hf hopen
    obtain rfl := Option.some.inj (htick.symm.trans htick')
    have ht := List.mem_of_getElem? htick
    obtain ⟨hcurrent, hother⟩ := hu t ht room addr hroom harea
    by_cases htbl : t.tbl = s.readyTbl
    · obtain ⟨hsize, htail⟩ := hcurrent htbl
      -- `pairs` has yielded every key, so this field is the current one or was sent before
      rw [MayYield, htbl] at hnext
      have hseen := hnext hsize.symm f.1 (List.mem_map_of_mem hf)
      obtain ⟨id, rest, hrest, hfield⟩ := (hs.queued.tick t ht).2
      rw [hrest] at hseen
      rcases List.mem_cons.mp hseen with hid | hold
      · obtain ⟨x, hx, hxid, -⟩ := hs.queued.field _ _ hfield
        obtain ⟨y, hy, hyid, -⟩ := hs.queued.field _ f hf
        refine .inl (hs.coherent.unique _ _ f.1 (by rw [idAt_of_rooms hy, hyid]) ?_)
        rw [idAt_of_rooms hx, hxid, hid]
      · exact .inr (htail f.1 (by rw [hrest]; exact hold))
    · have hempty := hother htbl
      rw [hempty] at hf
      cases hf
  · exact h.leavesNone hready

/-- **When no ready room gets lost.** Throughout a run every ready room that is
still to be sent is in `ready_tbl`, iff the loops of the run leave none in the
tables they drop. That is so if no room of the run fills up while a call of
`check_ready` waits for an area there is. -/
theorem noneLost_iff {s : State A G} {es : List (Event A G)}
    (h : Machine.run (step getArea) State.init es = some s) :
    (Machine.Always (step getArea) NoneLost State.init es ↔
        Machine.Guarded (step getArea) (LeavesNone getArea) State.init es) ∧
      (Machine.Guarded (step getArea) (FillsUndisturbed getArea) State.init es →
        Machine.Always (step getArea) NoneLost State.init es) := by
  have hiff := Machine.always_iff_guarded (I := Sound) (C := LeavesNone getArea)
    (fun _ _ _ hs h => hs.step h)
    (fun _ _ _ hs hp h => noneLost_step hs hp (step_effect h)) Sound.init NoneLost.init h
  refine ⟨hiff, fun hfills => hiff.mpr ?_⟩
  have hinit : Undisturbed getArea (State.init : State A G) := by
    intro t ht
    cases ht
  refine Machine.guarded_mono (I := fun s => Sound s ∧ Undisturbed getArea s) ?_ ?_
    ⟨Sound.init, hinit⟩ h hfills
  · rintro s e s' ⟨hs, hu⟩ hfills h
    exact ⟨hs.step h, hu.step hs hfills (step_effect h)⟩
  · rintro s e s' ⟨hs, hu⟩ - h
    exact hu.leavesNone hs (step_effect h)

/-- Room `1` fills up while room `5` is being started, and `pairs` does not come
by it. -/
def fillDuringStart : List (Event ℕ (Option ℕ)) :=
  fillRoom 5 (some 1) ++ [.checkReady (some 5)] ++ fillRoom 1 (some 1) ++ [.getAreaRet 0 none]

theorem noneLost_fillDuringStart :
    Machine.Always (step (AreaMgr.init fun _ id => id).getArea) NoneLost State.init
        fillDuringStart ↔
      Machine.Guarded (step (AreaMgr.init fun _ id => id).getArea)
        (LeavesNone (AreaMgr.init fun _ id => id).getArea) State.init fillDuringStart :=
  (noneLost_iff (s := _) rfl).1

/-- Room `1` is open and full, was never sent, and is in no table that is
looked at again. -/
theorem filled_room_lost :
    ¬ ∀ (es : List (Event ℕ (Option ℕ))) (s : State ℕ (Option ℕ)),
      Machine.run (step (AreaMgr.init fun _ id => id).getArea) State.init es = some s →
      NoneLost s := by
  intro hall
  have hrun : ∃ s ref room,
      Machine.run (step (AreaMgr.init fun _ id => id).getArea) State.init fillDuringStart = some s ∧
      s.roomAt 1 = some (ref, room) ∧ room.playerList.length = 4 ∧
      s.sent.map (fun m => m.2.id) = [5] ∧ s.readyFields = [] :=
    ⟨_, _, _, rfl, rfl, rfl, rfl, rfl⟩
  obtain ⟨s, ref, room, hrun, hroom, hlen, hsent, hempty⟩ := hrun
  have hwait : ¬ s.Sent 1 := by
    rintro ⟨m, hm, hid⟩
    have hmem : m.2.id ∈ s.sent.map fun m => m.2.id := List.mem_map_of_mem hm
    rw [hsent, hid] at hmem
    simp at hmem
  have hmem := hall _ s hrun 1 ref room hroom (by omega) hwait
  rw [hempty] at hmem
  cases hmem

end SlgServer.RoomMgr
