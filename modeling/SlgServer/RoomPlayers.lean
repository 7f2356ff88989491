import SlgServer.AreaMgr
import SlgServer.RoomQueue

/-!
# Who sits in a room

`room:add` never refuses a player. Rooms hold at most four distinct players
exactly as long as no join goes to a full room or comes from a player who is
in the room already (`seated_iff`).
-/

namespace SlgServer.RoomMgr

open State

variable {A G : Type}

/-- At most four distinct players in every open room, and exactly four in the
ready rooms and in what is sent to an area. -/
structure Seated (s : State A G) : Prop where
  /-- open rooms -/
  opened : ∀ id ref room, s.roomAt id = some (ref, room) →
    room.playerList.length ≤ 4 ∧ room.accounts.Nodup
  /-- ready rooms -/
  ready : ∀ i, ∀ f ∈ s.tables i, ∀ room, s.rooms f.2 = some room →
    room.playerList.length = 4 ∧ room.accounts.Nodup
  /-- rooms sent -/
  sent : ∀ m ∈ s.sent, m.2.playerList.length = 4 ∧ m.2.accounts.Nodup

/-- A join that finds its room finds a free seat there, and is not the second
join of its account. -/
def FindsFreeSeat (s : State A G) : Event A G → Prop
  | .joinRoom id p => ∀ ref room, s.roomAt id = some (ref, room) →
      room.playerList.length < 4 ∧ p.account ∉ room.accounts
  | _ => True

theorem Seated.init : Seated (State.init : State A G) where
  opened _ _ _ h := by cases h
  ready _ _ h := by cases h
  sent _ h := by cases h

theorem Room.accounts_congr {room room' : Room A G} (h : room'.playerList = room.playerList) :
    room'.accounts = room.accounts := by
  rw [Room.accounts, h, Room.accounts]

theorem Room.accounts_concat {room room' : Room A G} {p : PlayerInfo A}
    (h : room'.playerList = room.playerList ++ [p]) :
    room'.accounts = room.accounts.concat p.account := by
  rw [Room.accounts, h, List.map_append, List.concat_eq_append]
  rfl

/-- A join to a free seat keeps the room in order. -/
theorem Seated.joined {s : State A G} (hp : Seated s) {id : ℕ} {p : PlayerInfo A}
    (hguard : FindsFreeSeat s (.joinRoom id p)) {ref : ℕ} {room : Room A G}
    (hroom : s.roomAt id = some (ref, room)) (room' : Room A G)
    (hplayers : room'.playerList = room.playerList ++ [p]) :
    room'.playerList.length = room.playerList.length + 1 ∧
      room.playerList.length < 4 ∧ room'.accounts.Nodup := by
  obtain ⟨hlt, hnot⟩ := hguard ref room hroom
  refine ⟨by simp [hplayers], hlt, ?_⟩
  rw [Room.accounts_concat hplayers]
  exact (hp.opened id ref room hroom).2.concat hnot

variable [DecidableEq A] {getArea : G → Option ℕ}

/-- An open room: as it was, new with its owner alone, or joined at a free seat. -/
theorem Seated.opened_step {s s' : State A G} {e : Event A G} (hs : Sound s) (hp : Seated s)
    (hguard : FindsFreeSeat s e) (h : Effect getArea s e s') {id ref : ℕ} {room' : Room A G}
    (hroom' : s'.roomAt id = some (ref, room')) :
    room'.playerList.length ≤ 4 ∧ room'.accounts.Nodup := by
  obtain ⟨room, hroom, heq⟩ | ⟨p, hone⟩ | ⟨p, room, rfl, hroom, hconcat⟩ :=
    h.openRoom hs.coherent hroom'
  · rw [heq, Room.accounts_congr heq]
    exact hp.opened id ref room hroom
  · simp [Room.accounts, hone]
  · obtain ⟨hlen, hlt, hnodup⟩ := hp.joined hguard hroom room' hconcat
    exact ⟨by omega, hnodup⟩

/-- A room of a table is full, so nobody can have joined it. -/
theorem Seated.full_step {s s' : State A G} {e : Event A G} (hs : Sound s) (hp : Seated s)
    (hguard : FindsFreeSeat s e) (h : Effect getArea s e s') {i : ℕ} {f : ℕ × ℕ}
    (hf : f ∈ s.tables i) {room' : Room A G} (hroom' : s'.rooms f.2 = some room') :
    room'.playerList.length = 4 ∧ room'.accounts.Nodup := by
  obtain ⟨x, hx, -, -⟩ := hs.queued.field i f hf
  have hfour := hp.ready i f hf x hx
  obtain ⟨room, href, heq⟩ | ⟨_, _, _, -, hfresh, -⟩ | ⟨n, p, room, rfl, hroom, -⟩ :=
    h.players hroom'
  · obtain rfl := Option.some.inj (href.symm.trans hx)
    rw [heq, Room.accounts_congr heq]
    exact hfour
  · have hlt := hs.coherent.live _ _ (idAt_of_rooms hx)
    omega
  · have hlt := (hguard _ _ hroom).1
    obtain rfl := Option.some.inj ((roomAt_eq_some.mp hroom).2.symm.trans hx)
    omega

/-- A field: it was there, or its room has just got the fourth player. -/
theorem Seated.ready_step {s s' : State A G} {e : Event A G} (hs : Sound s) (hp : Seated s)
    (hguard : FindsFreeSeat s e) (h : Effect getArea s e s') {i : ℕ} {f : ℕ × ℕ}
    (hf : f ∈ s'.tables i) {room' : Room A G} (hroom' : s'.rooms f.2 = some room') :
    room'.playerList.length = 4 ∧ room'.accounts.Nodup := by
  obtain ⟨n, p, ref, room, rfl, hroom, hlen, -, hrooms, htables⟩ | htables :=
    h.tables hs.coherent hs.queued
  · rw [htables] at hf
    by_cases hi : i = s.readyTbl
    · rw [hi, Function.update_self] at hf
      rcases List.mem_append.mp hf with hf | hf
      · exact hp.full_step hs hguard h hf hroom'
      · obtain rfl := List.mem_singleton.mp hf
        simp only [hrooms, Function.update_self, Option.some.injEq] at hroom'
        subst hroom'
        obtain ⟨hlen', -, hnodup⟩ := hp.joined hguard hroom
          { room.withPlayer p with ready := true } rfl
        rw [hlen', hlen]
        exact ⟨rfl, hnodup⟩
    · rw [Function.update_of_ne hi] at hf
      exact hp.full_step hs hguard h hf hroom'
  · rw [htables] at hf
    exact hp.full_step hs hguard h hf hroom'

/-- A message: the room sent is the one of a field. -/
theorem Seated.sent_step {s s' : State A G} {e : Event A G} (hs : Sound s) (hp : Seated s)
    (h : Effect getArea s e s') {m : ℕ × Pack A} (hm : m ∈ s'.sent) :
    m.2.playerList.length = 4 ∧ m.2.accounts.Nodup := by
  obtain ⟨k, next, t, room, addr, -, htick, hroom, -, hsent⟩ | hsent := h.sent
  · rw [hsent] at hm
    rcases List.mem_append.mp hm with hm | hm
    · exact hp.sent m hm
    · obtain rfl := List.mem_singleton.mp hm
      obtain ⟨-, id, rest, -, hf⟩ := hs.queued.tick t (List.mem_of_getElem? htick)
      exact hp.ready _ _ hf room hroom
  · rw [hsent] at hm
    exact hp.sent m hm

/-- Steps that find a free seat keep every room in order. -/
theorem Seated.step {s s' : State A G} {e : Event A G} (hs : Sound s) (hp : Seated s)
    (hguard : FindsFreeSeat s e) (h : Effect getArea s e s') : Seated s' where
  opened _ _ _ hroom := hp.opened_step hs hguard h hroom
  ready _ _ hf _ hroom := hp.ready_step hs hguard h hf hroom
  sent _ hm := hp.sent_step hs h hm

/-- A join that finds no free seat leaves a room that is out of order. -/
theorem Seated.findsFreeSeat {s s' : State A G} {e : Event A G} (hp : Seated s')
    (h : Effect getArea s e s') : FindsFreeSeat s e := by
  cases e with
  | joinRoom id p =>
    intro ref room hroom
    obtain ⟨room', hroom', hplayers⟩ := h.joined hroom
    obtain ⟨hle, hnodup⟩ := hp.opened id ref room' hroom'
    rw [hplayers, List.length_append, List.length_singleton] at hle
    rw [Room.accounts_concat hplayers] at hnodup
    exact ⟨by omega, ((List.nodup_concat _ _).mp hnodup).1⟩
  | _ => trivial

/-- **When rooms hold four distinct players at most.** Throughout a run every
open room, ready room and room sent is in order iff every join of the run that
finds its room finds a free seat for a new account. -/
theorem seated_iff {s : State A G} {es : List (Event A G)}
    (h : Machine.run (step getArea) State.init es = some s) :
    Machine.Always (step getArea) Seated State.init es ↔
      Machine.Guarded (step getArea) FindsFreeSeat State.init es :=
  Machine.always_iff_guarded (I := Sound) (fun _ _ _ hs h => hs.step h)
    (fun _ _ _ hs hp h => ⟨fun hp' => hp'.findsFreeSeat (step_effect h),
      fun hguard => hp.step hs hguard (step_effect h)⟩)
    Sound.init Seated.init h

theorem seated_fillRoom :
    Machine.Always (step (AreaMgr.init fun _ id => id).getArea) Seated State.init
        (fillRoom 1 (some 1)) ↔
      Machine.Guarded (step (AreaMgr.init fun _ id => id).getArea) FindsFreeSeat State.init
        (fillRoom 1 (some 1)) :=
  seated_iff (s := _) rfl

/-- A fifth player is let in as well. -/
theorem fifth_player_joins :
    ¬ ∀ (es : List (Event ℕ (Option ℕ))) (s : State ℕ (Option ℕ)),
      Machine.run (step (AreaMgr.init fun _ id => id).getArea) State.init es = some s →
      Seated s := by
  intro hall
  have hrun : ∃ s ref room,
      Machine.run (step (AreaMgr.init fun _ id => id).getArea) State.init
        (fillRoom 1 (some 1) ++ [.joinRoom 1 ⟨0, 5⟩]) = some s ∧
      s.roomAt 1 = some (ref, room) ∧ room.playerList.length = 5 :=
    ⟨_, _, _, rfl, rfl, rfl⟩
  obtain ⟨s, ref, room, hrun, hroom, hlen⟩ := hrun
  have hle := ((hall _ s hrun).opened 1 ref room hroom).1
  omega

end SlgServer.RoomMgr
