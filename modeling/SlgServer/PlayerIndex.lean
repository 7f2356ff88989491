import SlgServer.AreaMgr
import SlgServer.RoomQueue

/-!
# The player index

`player_2_room` is written by `create` and cleared by `close`; `join` does not
touch it. So it agrees with the player lists of the open rooms exactly as long
as nobody creates a room while sitting in one, and nobody joins a room without
being in it already (`indexed_iff`).
-/

namespace SlgServer.RoomMgr

open State

variable {A G : Type}

/-- The room `id` is open and lists the account. -/
def State.Sits (s : State A G) (a : A) (id : ℕ) : Prop :=
  ∃ ref room, s.roomAt id = some (ref, room) ∧ a ∈ room.accounts

/-- The player index agrees with the rooms. -/
structure Indexed (s : State A G) : Prop where
  /-- an account is under a room id iff it sits in that room -/
  index : ∀ a id, s.player2Room a = some id ↔ s.Sits a id
  /-- `get_room_by_player` finds the open room an account sits in -/
  lookup : ∀ a room, s.getRoomByPlayer a = some room ↔
    ∃ id ref, s.roomAt id = some (ref, room) ∧ a ∈ room.accounts
  /-- and nothing if it sits in none -/
  lookup_none : ∀ a, s.getRoomByPlayer a = none ↔ ∀ id, ¬ s.Sits a id
  /-- no account sits in two open rooms -/
  one : ∀ a id id', s.Sits a id → s.Sits a id' → id = id'

/-- A room is created only by an account that sits in no open room, and an open
room joined only by an account that sits in it. -/
def StaysPut (s : State A G) : Event A G → Prop
  | .createRoom _ _ p => s.idMgr.tbl.len ≠ 0 → ∀ id, ¬ s.Sits p.account id
  | .joinRoom id p => s.roomAt id ≠ none → s.Sits p.account id
  | _ => True

theorem sits_of_roomAt {s : State A G} {a : A} {id ref : ℕ} {room : Room A G}
    (hroom : s.roomAt id = some (ref, room)) : s.Sits a id ↔ a ∈ room.accounts := by
  refine ⟨?_, fun ha => ?_⟩
  · rintro ⟨ref', room', hroom', ha⟩
    obtain ⟨-, rfl⟩ := Prod.mk.inj (Option.some.inj (hroom'.symm.trans hroom))
    exact ha
  · exact ⟨ref, room, hroom, ha⟩

/-- The rest follows from the first field. -/
theorem Indexed.of_index {s : State A G}
    (h : ∀ a id, s.player2Room a = some id ↔ s.Sits a id) : Indexed s := by
  have hlookup : ∀ a room, s.getRoomByPlayer a = some room ↔
      ∃ id ref, s.roomAt id = some (ref, room) ∧ a ∈ room.accounts := by
    intro a room
    rw [State.getRoomByPlayer, Option.bind_eq_some_iff]
    refine ⟨?_, ?_⟩
    · rintro ⟨id, hid, hroom⟩
      obtain ⟨⟨ref, room'⟩, hat, rfl⟩ := Option.map_eq_some_iff.mp hroom
      exact ⟨id, ref, hat, (sits_of_roomAt hat).mp ((h a id).mp hid)⟩
    · rintro ⟨id, ref, hroom, ha⟩
      exact ⟨id, (h a id).mpr ⟨ref, room, hroom, ha⟩, by rw [hroom]; rfl⟩
  refine ⟨h, hlookup, fun a => ?_, fun a id id' hid hid' => ?_⟩
  · rw [Option.eq_none_iff_forall_ne_some]
    refine ⟨?_, fun hnot room hroom => ?_⟩
    · rintro hnone id ⟨ref, room, hroom, ha⟩
      exact hnone room ((hlookup a room).mpr ⟨id, ref, hroom, ha⟩)
    · obtain ⟨id, ref, hroom, ha⟩ := (hlookup a room).mp hroom
      exact hnot id ⟨ref, room, hroom, ha⟩
  · exact Option.some.inj (((h a id).mpr hid).symm.trans ((h a id').mpr hid'))

theorem Indexed.init : Indexed (State.init : State A G) := by
  refine Indexed.of_index fun a id => ⟨fun h => ?_, ?_⟩
  · cases h
  · rintro ⟨ref, room, hroom, -⟩
    cases hroom

variable [DecidableEq A] {getArea : G → Option ℕ}

/-- `close` clears the entries of the listed players. -/
theorem clear_apply (l : List (PlayerInfo A)) (t : A → Option ℕ) (a : A) :
    l.foldl (fun (t : A → Option ℕ) v => Function.update t v.account none) t a =
      if a ∈ l.map PlayerInfo.account then none else t a := by
  induction l generalizing t with
  | nil => rfl
  | cons v l ih =>
    rw [List.foldl_cons, ih, Function.update_apply, List.map_cons]
    simp only [List.mem_cons]
    split_ifs <;> grind

/-- The accounts of the room object at a reference. -/
def State.accountsAt (s : State A G) (ref : ℕ) : List A :=
  ((s.rooms ref).map Room.accounts).getD []

omit [DecidableEq A] in
theorem sits_iff {s : State A G} {a : A} {id : ℕ} :
    s.Sits a id ↔ ∃ ref, s.roomTbl id = some ref ∧ a ∈ s.accountsAt ref := by
  refine ⟨?_, ?_⟩
  · rintro ⟨ref, room, hroom, ha⟩
    obtain ⟨hopen, href⟩ := roomAt_eq_some.mp hroom
    exact ⟨ref, hopen, by simpa [State.accountsAt, href] using ha⟩
  · rintro ⟨ref, hopen, ha⟩
    cases href : s.rooms ref with
    | none => simp [State.accountsAt, href] at ha
    | some room =>
      refine ⟨ref, room, roomAt_eq_some.mpr ⟨hopen, href⟩, ?_⟩
      simpa [State.accountsAt, href] using ha

omit [DecidableEq A] in
theorem accountsAt_of_rooms {s : State A G} {ref : ℕ} {room : Room A G}
    (h : s.rooms ref = some room) : s.accountsAt ref = room.accounts := by
  simp [State.accountsAt, h]

omit [DecidableEq A] in
theorem accountsAt_setRoom (s : State A G) (ref : ℕ) (room : Room A G) :
    (s.setRoom ref room).accountsAt = Function.update s.accountsAt ref room.accounts := by
  funext r
  by_cases hr : r = ref
  · subst hr
    simp [State.accountsAt, State.setRoom]
  · simp [State.accountsAt, State.setRoom, Function.update_of_ne hr]

theorem accountsAt_create (s : State A G) (index : ℕ) (h : 1 ≤ index ∧ index ≤ s.idMgr.tbl.len)
    (gameId : G) (p : PlayerInfo A) :
    (s.create index h gameId p).2.accountsAt =
      Function.update s.accountsAt s.fresh [p.account] := by
  funext r
  by_cases hr : r = s.fresh
  · subst hr
    simp [State.accountsAt, State.create, Room.new, Room.accounts]
  · simp [State.accountsAt, State.create, Function.update_of_ne hr]

omit [DecidableEq A] in
/-- Seats are read off `room_tbl` and the accounts on the heap. -/
theorem sits_congr {s s' : State A G} (htbl : s'.roomTbl = s.roomTbl)
    (haccounts : s'.accountsAt = s.accountsAt) (a : A) (id : ℕ) : s'.Sits a id ↔ s.Sits a id := by
  rw [sits_iff, sits_iff, htbl, haccounts]

omit [DecidableEq A] in
/-- A change of one object moves nobody in the rooms whose object is another. -/
theorem sits_frame {s s' : State A G} {id ref : ℕ} {l : List A}
    (hne : ∀ r, s.roomTbl id = some r → r ≠ ref) (htbl : s'.roomTbl id = s.roomTbl id)
    (haccounts : s'.accountsAt = Function.update s.accountsAt ref l) (a : A) :
    s'.Sits a id ↔ s.Sits a id := by
  rw [sits_iff, sits_iff, htbl, haccounts]
  refine exists_congr fun r => and_congr_right fun hr => ?_
  rw [Function.update_of_ne (hne r hr)]

omit [DecidableEq A] in
/-- One more player in the open room `n`. -/
theorem sits_join {s s' : State A G} (hs : Coherent s) {n ref : ℕ} {room : Room A G}
    (hroom : s.roomAt n = some (ref, room)) {p : PlayerInfo A} (htbl : s'.roomTbl = s.roomTbl)
    (haccounts : s'.accountsAt =
      Function.update s.accountsAt ref (room.accounts ++ [p.account])) (a : A) (id : ℕ) :
    s'.Sits a id ↔ s.Sits a id ∨ (id = n ∧ s.roomAt n ≠ none ∧ a = p.account) := by
  obtain ⟨hopen, href⟩ := roomAt_eq_some.mp hroom
  have hold := accountsAt_of_rooms href
  by_cases hid : id = n
  · subst hid
    rw [sits_iff, sits_iff, htbl, haccounts, hroom]
    simp [hopen, hold]
  · have hne : ∀ r, s.roomTbl id = some r → r ≠ ref := by
      rintro r hr rfl
      exact hid (Option.some.inj ((hs.opened _ _ hr).symm.trans (hs.opened _ _ hopen)))
    rw [sits_frame hne (congrFun htbl id) haccounts]
    simp [hid]

omit [DecidableEq A] in
/-- The key `n` cleared in `room_tbl`. -/
theorem sits_close {s s' : State A G} {n : ℕ}
    (htbl : s'.roomTbl = Function.update s.roomTbl n none)
    (haccounts : s'.accountsAt = s.accountsAt) (a : A) (id : ℕ) :
    s'.Sits a id ↔ s.Sits a id ∧ id ≠ n := by
  rw [sits_iff, sits_iff, htbl, haccounts]
  by_cases hid : id = n
  · simp [hid]
  · simp [hid]

/-- A new room with its owner in it. -/
theorem sits_create {s : State A G} (hs : Coherent s) (index : ℕ)
    (h : 1 ≤ index ∧ index ≤ s.idMgr.tbl.len) (gameId : G) (p : PlayerInfo A) (a : A) (id : ℕ) :
    (s.create index h gameId p).2.Sits a id ↔
      s.Sits a id ∨ (id = (s.idMgr.genId index h).1 ∧ a = p.account) := by
  have htbl : (s.create index h gameId p).2.roomTbl =
      Function.update s.roomTbl (s.idMgr.genId index h).1 (some s.fresh) := rfl
  have hnew : ∀ r, s.roomTbl (s.idMgr.genId index h).1 ≠ some r := by
    intro r hr
    exact (hs.taken r _ (hs.opened _ _ hr)).2 (s.idMgr.genId_mem index h)
  by_cases hid : id = (s.idMgr.genId index h).1
  · subst hid
    rw [sits_iff, sits_iff, accountsAt_create, htbl]
    simp [hnew]
  · have hne : ∀ r, s.roomTbl id = some r → r ≠ s.fresh := by
      intro r hr
      exact Nat.ne_of_lt (hs.live r _ (hs.opened _ _ hr))
    have htbl' : (s.create index h gameId p).2.roomTbl id = s.roomTbl id :=
      Function.update_of_ne hid _ _
    rw [sits_frame hne htbl' (accountsAt_create s index h gameId p)]
    simp [hid]

/-- Who sits where after an event. -/
def State.SitsAfter (s : State A G) (a : A) (id : ℕ) : Event A G → Prop
  | .createRoom index _ p => s.Sits a id ∨ ∃ h, id = (s.idMgr.genId index h).1 ∧ a = p.account
  | .joinRoom n p => s.Sits a id ∨ (id = n ∧ s.roomAt n ≠ none ∧ a = p.account)
  | .roomBegin n => s.Sits a id ∧ id ≠ n
  | _ => s.Sits a id

/-- What the index holds after an event. -/
def State.IndexAfter (s : State A G) (a : A) (id : ℕ) : Event A G → Prop
  | .createRoom index _ p => (∃ h, id = (s.idMgr.genId index h).1 ∧ a = p.account) ∨
      (s.player2Room a = some id ∧ (s.idMgr.tbl.len ≠ 0 → a ≠ p.account))
  | .roomBegin n => s.player2Room a = some id ∧ ¬ s.Sits a n
  | _ => s.player2Room a = some id

theorem sits_step {s s' : State A G} {e : Event A G} (hs : Coherent s)
    (h : Effect getArea s e s') (a : A) (id : ℕ) : s'.Sits a id ↔ s.SitsAfter a id e := by
  cases h with
  | createRaise index gameId p hlen =>
    have hindex : ¬ (1 ≤ index ∧ index ≤ s.idMgr.tbl.len) := by omega
    simp [State.SitsAfter, hindex]
  | create index hindex gameId p =>
    rw [sits_create hs]
    simp [State.SitsAfter, hindex]
  | joinUnknown n p hroom => simp [State.SitsAfter, hroom]
  | join n p ref room hroom =>
    refine sits_join hs hroom (by rfl) ?_ a id
    rw [accountsAt_setRoom]
    simp [Room.withPlayer, Room.accounts]
  | joinFill n p ref room hroom =>
    refine sits_join hs hroom (by rfl) ?_ a id
    exact (accountsAt_setRoom s ref { room.withPlayer p with ready := true }).trans
      (by simp [Room.withPlayer, Room.accounts])
  | beginUnknown n hroom => exact sits_close (by rfl) (by rfl) a id
  | begin n ref room hroom => exact sits_close (by rfl) (by rfl) a id
  | tickIdle => rfl
  | tickStart => exact sits_congr (by rfl) (by rfl) a id
  | startRaise _ _ t room _ hroom | startNext _ t room _ _ _ _ hroom
  | startLast _ t room _ _ hroom =>
    refine sits_congr (by rfl) ?_ a id
    exact (accountsAt_setRoom s t.room { room with gettingArea := true }).trans
      (Function.update_eq_self_iff.mpr (accountsAt_of_rooms hroom).symm)

theorem player2Room_step {s s' : State A G} {e : Event A G} (h : Effect getArea s e s') (a : A)
    (id : ℕ) : s'.player2Room a = some id ↔ s.IndexAfter a id e := by
  cases h with
  | createRaise index gameId p hlen =>
    rw [State.IndexAfter]
    refine ⟨fun h => ?_, ?_⟩
    · exact .inr ⟨h, fun hne => absurd hlen hne⟩
    · rintro (⟨hindex, -⟩ | ⟨h, -⟩)
      · omega
      · exact h
  | create index hindex gameId p =>
    have hlen : s.idMgr.tbl.len ≠ 0 := by omega
    have hupdate : (s.create index hindex gameId p).2.player2Room a =
        if a = p.account then some (s.idMgr.genId index hindex).1 else s.player2Room a :=
      Function.update_apply ..
    rw [hupdate, State.IndexAfter]
    split_ifs with ha
    · simp [ha, hindex, hlen, eq_comm]
    · simp [ha]
  | beginUnknown n hroom =>
    have hnot : ¬ s.Sits a n := by
      rintro ⟨ref, room, h, -⟩
      rw [hroom] at h
      cases h
    simp [State.IndexAfter, hnot]
  | begin n ref room hroom =>
    rw [State.IndexAfter, sits_of_roomAt hroom, Room.accounts]
    simp only [clear_apply]
    split_ifs with hmem
    · simp [hmem]
    · simp [hmem]
  | _ => rfl

/-- A step keeps the index in order exactly if it moves nobody. -/
theorem indexed_step {s s' : State A G} {e : Event A G} (hs : Coherent s) (hp : Indexed s)
    (h : Effect getArea s e s') : Indexed s' ↔ StaysPut s e := by
  have hindex : Indexed s' ↔ ∀ a id, s.IndexAfter a id e ↔ s.SitsAfter a id e := by
    refine ⟨fun hp' a id => ?_, fun hall => ?_⟩
    · rw [← player2Room_step h, ← sits_step hs h, hp'.index]
    · exact Indexed.of_index fun a id => by rw [player2Room_step h, sits_step hs h, hall]
  rw [hindex]
  cases e with
  | createRoom index gameId p =>
    -- the owner's entry is overwritten, so a room it sat in would be forgotten
    simp only [State.IndexAfter, State.SitsAfter, hp.index, StaysPut]
    refine ⟨fun hall hlen id hsits => ?_, fun hguard a id => ?_⟩
    · obtain ⟨hindex, rfl, -⟩ | ⟨-, hne⟩ := (hall p.account id).mpr (.inl hsits)
      · obtain ⟨ref, hopen, -⟩ := sits_iff.mp hsits
        exact (hs.taken ref _ (hs.opened _ _ hopen)).2 (s.idMgr.genId_mem index hindex)
      · exact hne hlen rfl
    · refine ⟨?_, ?_⟩
      · rintro (hnew | ⟨hsits, -⟩)
        · exact .inr hnew
        · exact .inl hsits
      · rintro (hsits | hnew)
        · refine .inr ⟨hsits, ?_⟩
          rintro hlen rfl
          exact hguard hlen id hsits
        · exact .inl hnew
  | joinRoom n p =>
    -- `join` leaves the index alone
    simp only [State.IndexAfter, State.SitsAfter, hp.index, StaysPut]
    refine ⟨fun hall hopen => ?_, ?_⟩
    · exact (hall p.account n).mpr (.inr ⟨rfl, hopen, rfl⟩)
    · rintro hguard a id
      refine ⟨.inl, ?_⟩
      rintro (hsits | ⟨rfl, hopen, rfl⟩)
      · exact hsits
      · exact hguard hopen
  | roomBegin n =>
    -- the cleared entries are those of the players of `n`, who sit nowhere else
    simp only [State.IndexAfter, State.SitsAfter, hp.index, StaysPut, iff_true]
    intro a id
    refine and_congr_right fun hsits => ⟨?_, ?_⟩
    · rintro hnot rfl
      exact hnot hsits
    · intro hne hn
      exact hne (hp.one a id n hsits hn)
  | checkReady _ | getAreaRet _ _ => exact iff_of_true (fun a id => hp.index a id) trivial

/-- **When the index agrees with the rooms.** Throughout a run `player_2_room`
and `get_room_by_player` agree with the player lists of the open rooms iff
every step of the run leaves the players where they are. -/
theorem indexed_iff {s : State A G} {es : List (Event A G)}
    (h : Machine.run (step getArea) State.init es = some s) :
    Machine.Always (step getArea) Indexed State.init es ↔
      Machine.Guarded (step getArea) StaysPut State.init es :=
  Machine.always_iff_guarded (I := Coherent) (fun _ _ _ hs h => hs.step h)
    (fun _ _ _ hs hp h => indexed_step hs hp (step_effect h)) Coherent.init Indexed.init h

/-- Account `1` opens a room, account `2` joins it, and the room is closed. -/
def joinAndClose : List (Event ℕ (Option ℕ)) :=
  [.createRoom 1 (some 1) ⟨0, 1⟩, .joinRoom 1 ⟨0, 2⟩, .roomBegin 1]

theorem indexed_joinAndClose :
    Machine.Always (step (AreaMgr.init fun _ id => id).getArea) Indexed State.init joinAndClose ↔
      Machine.Guarded (step (AreaMgr.init fun _ id => id).getArea) StaysPut State.init
        joinAndClose :=
  indexed_iff (s := _) rfl

/-- After the join the index does not know where account `2` sits. -/
theorem joined_not_indexed :
    ¬ ∀ (es : List (Event ℕ (Option ℕ))) (s : State ℕ (Option ℕ)),
      Machine.run (step (AreaMgr.init fun _ id => id).getArea) State.init es = some s →
      Indexed s := by
  intro hall
  have hrun : ∃ s ref room,
      Machine.run (step (AreaMgr.init fun _ id => id).getArea) State.init
        [.createRoom 1 (some 1) ⟨0, 1⟩, .joinRoom 1 ⟨0, 2⟩] = some s ∧
      s.roomAt 1 = some (ref, room) ∧ 2 ∈ room.accounts ∧ s.player2Room 2 = none :=
    ⟨_, _, _, rfl, rfl, by decide, rfl⟩
  obtain ⟨s, ref, room, hrun, hroom, hmem, hnone⟩ := hrun
  have hindex := ((hall _ s hrun).index 2 1).mpr ⟨ref, room, hroom, hmem⟩
  rw [hnone] at hindex
  cases hindex

end SlgServer.RoomMgr
