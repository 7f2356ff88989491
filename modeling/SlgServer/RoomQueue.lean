import SlgServer.RoomSteps

/-!
# The ready rooms of the room manager

`Queued`: what lies in the tables of ready rooms, in the suspended calls of
`check_ready` and in the messages sent are rooms of the heap that have had four
players. With `Coherent` it makes up `Sound`, which holds in every state a run
reaches.
-/

namespace SlgServer.RoomMgr

open State

variable {A G : Type} [DecidableEq A] {getArea : G → Option ℕ}

/-! ## Ready rooms -/

/-- Tables, suspended calls and messages speak of room objects that have had
four players. -/
structure Queued (s : State A G) : Prop where
  /-- the fields of a table are room objects under their ids -/
  field : ∀ i, ∀ f ∈ s.tables i,
    ∃ room, s.rooms f.2 = some room ∧ room.id = f.1 ∧ 4 ≤ room.playerList.length
  /-- a table has every key once -/
  nodup : ∀ i, (s.tables i).keys.Nodup
  /-- the tables still to be made are empty -/
  later : ∀ i, s.readyTbl < i → s.tables i = []
  /-- a suspended call starts the room whose key it was given last -/
  tick : ∀ t ∈ s.ticks, t.tbl ≤ s.readyTbl ∧
    ∃ id rest, t.seen = id :: rest ∧ (id, t.room) ∈ s.tables t.tbl
  /-- a message packs players of a room object -/
  sent : ∀ m ∈ s.sent, ∃ ref room, s.rooms ref = some room ∧ room.id = m.2.id ∧
    m.2.playerList <+: room.playerList ∧ 4 ≤ m.2.playerList.length

omit [DecidableEq A] in
theorem Queued.init : Queued (State.init : State A G) where
  field _ _ h := by cases h
  nodup _ := List.nodup_nil
  later _ _ := rfl
  tick _ h := by cases h
  sent _ h := by cases h

theorem ReadyTable.setField_eq_append {tbl : ReadyTable} {id ref : ℕ} (h : id ∉ tbl.keys) :
    tbl.setField id ref = tbl ++ [(id, ref)] := if_neg h

theorem ReadyTable.mem_of_lookup {tbl : ReadyTable} {id ref : ℕ} (h : tbl.lookup id = some ref) :
    (id, ref) ∈ tbl := by
  obtain ⟨l₁, l₂, rfl, -⟩ := List.lookup_eq_some_iff.mp h
  simp

omit [DecidableEq A] in
/-- A room with three players is in no table. -/
theorem Queued.not_mem_keys {s : State A G} (hs : Coherent s) (hq : Queued s) {ref : ℕ}
    {room : Room A G} (hroom : s.rooms ref = some room) (hlen : room.playerList.length = 3)
    (i : ℕ) : room.id ∉ (s.tables i).keys := by
  intro hmem
  obtain ⟨f, hf, hid⟩ := List.mem_map.mp hmem
  obtain ⟨x, hx, hxid, hfour⟩ := hq.field i f hf
  have href : f.2 = ref :=
    hs.unique _ _ room.id (by rw [idAt_of_rooms hx, hxid, hid]) (idAt_of_rooms hroom)
  rw [href, hroom] at hx
  obtain rfl := Option.some.inj hx
  omega

omit [DecidableEq A] in
/-- A room with three players has not been sent. -/
theorem Queued.not_sent {s : State A G} (hs : Coherent s) (hq : Queued s) {ref : ℕ}
    {room : Room A G} (hroom : s.rooms ref = some room) (hlen : room.playerList.length = 3) :
    ¬ s.Sent room.id := by
  rintro ⟨m, hm, hid⟩
  obtain ⟨r, x, hx, hxid, hpre, hfour⟩ := hq.sent m hm
  have href : r = ref :=
    hs.unique _ _ room.id (by rw [idAt_of_rooms hx, hxid, hid]) (idAt_of_rooms hroom)
  subst href
  obtain rfl := Option.some.inj (hx.symm.trans hroom)
  have hle := hpre.length_le
  omega

/-- The tables change only when a fourth player joins: the room gets a field in
`ready_tbl`. -/
theorem Effect.tables {s s' : State A G} {e : Event A G} (hs : Coherent s) (hq : Queued s)
    (h : Effect getArea s e s') :
    (∃ id p ref room, e = .joinRoom id p ∧ s.roomAt id = some (ref, room) ∧
        room.playerList.length = 3 ∧ s'.readyTbl = s.readyTbl ∧
        s'.rooms = Function.update s.rooms ref (some { room.withPlayer p with ready := true }) ∧
        s'.tables = Function.update s.tables s.readyTbl (s.readyFields ++ [(id, ref)])) ∨
      s'.tables = s.tables := by
  cases h with
  | joinFill id p ref room hroom hlen =>
    obtain ⟨hopen, href⟩ := roomAt_eq_some.mp hroom
    have hid := hs.id_eq hroom
    refine .inl ⟨id, p, ref, room, rfl, hroom, hlen, rfl, rfl, ?_⟩
    simp only
    rw [State.readyFields,
      ReadyTable.setField_eq_append (hq.not_mem_keys hs href hlen _), hid]
  | startLast =>
    refine .inr (Function.update_eq_self_iff.mpr ?_)
    exact (hq.later _ (Nat.lt_succ_self _)).symm
  | _ => exact .inr rfl

/-- The messages change only when a room is started. -/
theorem Effect.sent {s s' : State A G} {e : Event A G} (h : Effect getArea s e s') :
    (∃ k next t room addr, e = .getAreaRet k next ∧ s.ticks[k]? = some t ∧
        s.rooms t.room = some room ∧ getArea room.gameId = some addr ∧
        s'.sent = s.sent ++ [(addr, room.pack)]) ∨
      s'.sent = s.sent := by
  cases h with
  | startNext k t room addr id _ htick hroom harea =>
    exact .inl ⟨k, some id, t, room, addr, rfl, htick, hroom, harea, rfl⟩
  | startLast k t room addr htick hroom harea =>
    exact .inl ⟨k, none, t, room, addr, rfl, htick, hroom, harea, rfl⟩
  | _ => exact .inr rfl

/-- What was sent stays sent. -/
theorem Effect.sent_mono {s s' : State A G} {e : Event A G} (h : Effect getArea s e s') {id : ℕ}
    (hsent : s.Sent id) : s'.Sent id := by
  obtain ⟨m, hm, hid⟩ := hsent
  obtain ⟨_, _, _, _, _, -, -, -, -, heq⟩ | heq := h.sent
  · exact ⟨m, by rw [heq]; exact List.mem_append_left _ hm, hid⟩
  · exact ⟨m, by rw [heq]; exact hm, hid⟩

omit [DecidableEq A] in
theorem sent_concat {s s' : State A G} {addr : ℕ} {room : Room A G}
    (h : s'.sent = s.sent ++ [(addr, room.pack)]) (id : ℕ) :
    s'.Sent id ↔ s.Sent id ∨ id = room.id := by
  simp only [State.Sent, h, List.mem_append, List.mem_singleton, or_and_right, exists_or,
    exists_eq_left, Room.pack, eq_comm]

/-- An answer with an area sends the room. -/
theorem Effect.started {s s' : State A G} {k : ℕ} {next : Option ℕ}
    (h : Effect getArea s (.getAreaRet k next) s') {t : Tick} {room : Room A G} {addr : ℕ}
    (htick : s.ticks[k]? = some t) (hroom : s.rooms t.room = some room)
    (harea : getArea room.gameId = some addr) : s'.sent = s.sent ++ [(addr, room.pack)] := by
  cases h with
  | startRaise _ _ t' room' htick' hroom' hnone =>
    obtain rfl := Option.some.inj (htick.symm.trans htick')
    obtain rfl := Option.some.inj (hroom.symm.trans hroom')
    rw [harea] at hnone
    cases hnone
  | startNext _ t' room' addr' _ _ htick' hroom' harea'
  | startLast _ t' room' addr' htick' hroom' harea' =>
    obtain rfl := Option.some.inj (htick.symm.trans htick')
    obtain rfl := Option.some.inj (hroom.symm.trans hroom')
    obtain rfl := Option.some.inj (harea.symm.trans harea')
    rfl

/-- A suspended call after a step: it was suspended before and has not moved, or
it has just been given a key of its table. -/
theorem Effect.tick {s s' : State A G} {e : Event A G} (h : Effect getArea s e s') {t' : Tick}
    (ht : t' ∈ s'.ticks) :
    t' ∈ s.ticks ∨
      (t'.tbl = s.readyTbl ∧ t'.size = s.readyFields.length ∧
        ∃ id, e = .checkReady (some id) ∧ t'.seen = [id] ∧ (id, t'.room) ∈ s.readyFields) ∨
      ∃ k t id room addr, e = .getAreaRet k (some id) ∧ s.ticks[k]? = some t ∧
        s.rooms t.room = some room ∧ getArea room.gameId = some addr ∧
        t'.tbl = t.tbl ∧ t'.size = t.size ∧ t'.seen = id :: t.seen ∧
        MayYield (s.tables t.tbl) t.size t.seen (some id) ∧
        (id, t'.room) ∈ s.tables t.tbl := by
  cases h with
  | tickStart id ref hfield =>
    rcases List.mem_append.mp ht with ht | ht
    · exact .inl ht
    · obtain rfl := List.mem_singleton.mp ht
      exact .inr (.inl ⟨rfl, rfl, id, rfl, rfl, ReadyTable.mem_of_lookup hfield⟩)
  | startRaise k _ t _ _ _ _ => exact .inl (List.mem_of_mem_eraseIdx ht)
  | startLast k t _ _ _ _ _ _ => exact .inl (List.mem_of_mem_eraseIdx ht)
  | startNext k t room addr id ref htick hroom harea hnext hfield =>
    rcases List.mem_or_eq_of_mem_set ht with ht | rfl
    · exact .inl ht
    · exact .inr (.inr ⟨k, t, id, room, addr, rfl, htick, hroom, harea, rfl, rfl, rfl, hnext,
        ReadyTable.mem_of_lookup hfield⟩)
  | _ => exact .inl ht

theorem Effect.readyTbl_le {s s' : State A G} {e : Event A G} (h : Effect getArea s e s') :
    s.readyTbl ≤ s'.readyTbl := by
  cases h with
  | startLast => exact Nat.le_succ _
  | _ => exact Nat.le_refl _

/-- A table keeps its fields. -/
theorem Effect.mem_tables {s s' : State A G} {e : Event A G} (hs : Coherent s) (hq : Queued s)
    (h : Effect getArea s e s') {i : ℕ} {f : ℕ × ℕ} (hf : f ∈ s.tables i) :
    f ∈ s'.tables i := by
  obtain ⟨id, p, ref, room, -, -, -, -, -, htables⟩ | htables := h.tables hs hq
  · rw [htables]
    by_cases hi : i = s.readyTbl
    · subst hi
      rw [Function.update_self]
      exact List.mem_append_left _ hf
    · rwa [Function.update_of_ne hi]
  · rwa [htables]

/-! ## One step -/

/-- A room that has had four players still has them. -/
theorem Effect.keepsFour {s s' : State A G} {e : Event A G} (hs : Coherent s)
    (h : Effect getArea s e s') {ref n : ℕ}
    (hfour : ∃ room, s.rooms ref = some room ∧ room.id = n ∧ 4 ≤ room.playerList.length) :
    ∃ room, s'.rooms ref = some room ∧ room.id = n ∧ 4 ≤ room.playerList.length := by
  obtain ⟨room, hroom, hid, hlen⟩ := hfour
  obtain ⟨room', hroom', hle⟩ := h.heapLe hs hroom
  exact ⟨room', hroom', hle.id.trans hid, Nat.le_trans hlen hle.players.length_le⟩

/-- Only `add` enters a field, and for a room that has its fourth player. -/
theorem Queued.field_step {s s' : State A G} {e : Event A G} (hs : Coherent s) (hq : Queued s)
    (h : Effect getArea s e s') {i : ℕ} {f : ℕ × ℕ} (hf : f ∈ s'.tables i) :
    ∃ room, s'.rooms f.2 = some room ∧ room.id = f.1 ∧ 4 ≤ room.playerList.length := by
  obtain ⟨id, p, ref, room, -, hroom, hlen, -, hrooms, htables⟩ | htables := h.tables hs hq
  · obtain ⟨hopen, href⟩ := roomAt_eq_some.mp hroom
    have hid := hs.id_eq hroom
    rw [htables] at hf
    by_cases hi : i = s.readyTbl
    · rw [hi, Function.update_self] at hf
      rcases List.mem_append.mp hf with hf | hf
      · exact h.keepsFour hs (hq.field _ f hf)
      · obtain rfl := List.mem_singleton.mp hf
        refine ⟨{ room.withPlayer p with ready := true }, ?_, hid, ?_⟩
        · rw [hrooms, Function.update_self]
        · simp [Room.withPlayer, hlen]
    · rw [Function.update_of_ne hi] at hf
      exact h.keepsFour hs (hq.field i f hf)
  · rw [htables] at hf
    exact h.keepsFour hs (hq.field i f hf)

/-- A room that fills up had three players, so its key is new. -/
theorem Queued.nodup_step {s s' : State A G} {e : Event A G} (hs : Coherent s) (hq : Queued s)
    (h : Effect getArea s e s') (i : ℕ) : (s'.tables i).keys.Nodup := by
  obtain ⟨id, p, ref, room, -, hroom, hlen, -, -, htables⟩ | htables := h.tables hs hq
  · obtain ⟨hopen, href⟩ := roomAt_eq_some.mp hroom
    have hid := hs.id_eq hroom
    rw [htables]
    by_cases hi : i = s.readyTbl
    · have hnot := hq.not_mem_keys hs href hlen s.readyTbl
      rw [hid] at hnot
      rw [hi, Function.update_self, ReadyTable.keys, List.map_append]
      refine List.nodup_append.mpr ⟨hq.nodup _, List.nodup_singleton _, ?_⟩
      intro a ha b hb hab
      obtain rfl := List.mem_singleton.mp hb
      exact hnot (hab ▸ ha)
    · rw [Function.update_of_ne hi]
      exact hq.nodup i
  · rw [htables]
    exact hq.nodup i

/-- The tables still to come stay empty. -/
theorem Queued.later_step {s s' : State A G} {e : Event A G} (hs : Coherent s) (hq : Queued s)
    (h : Effect getArea s e s') {i : ℕ} (hi : s'.readyTbl < i) : s'.tables i = [] := by
  have hmono := h.readyTbl_le
  obtain ⟨id, p, ref, room, -, -, -, hready, -, htables⟩ | htables := h.tables hs hq
  · rw [htables, Function.update_of_ne (by omega)]
    exact hq.later i (by omega)
  · rw [htables]
    exact hq.later i (by omega)

/-- A suspended call waits for a field of its table, which keeps its fields. -/
theorem Queued.tick_step {s s' : State A G} {e : Event A G} (hs : Coherent s) (hq : Queued s)
    (h : Effect getArea s e s') {t' : Tick} (ht' : t' ∈ s'.ticks) :
    t'.tbl ≤ s'.readyTbl ∧
      ∃ id rest, t'.seen = id :: rest ∧ (id, t'.room) ∈ s'.tables t'.tbl := by
  have hmono := h.readyTbl_le
  obtain hold | ⟨htbl, -, id, -, hseen, hf⟩ |
    ⟨k, t, id, _, _, -, htick, -, -, htbl, -, hseen, -, hf⟩ := h.tick ht'
  · obtain ⟨hle, id, rest, hseen, hf⟩ := hq.tick t' hold
    exact ⟨Nat.le_trans hle hmono, id, rest, hseen, h.mem_tables hs hq hf⟩
  · refine ⟨htbl ▸ hmono, id, [], hseen, h.mem_tables hs hq ?_⟩
    rw [htbl]
    exact hf
  · have hle := (hq.tick t (List.mem_of_getElem? htick)).1
    rw [htbl]
    exact ⟨Nat.le_trans hle hmono, id, t.seen, hseen, h.mem_tables hs hq hf⟩

/-- What is sent is the room of a field as it stands, and rooms only grow. -/
theorem Queued.sent_step {s s' : State A G} {e : Event A G} (hs : Coherent s) (hq : Queued s)
    (h : Effect getArea s e s') {m : ℕ × Pack A} (hm : m ∈ s'.sent) :
    ∃ ref room, s'.rooms ref = some room ∧ room.id = m.2.id ∧
      m.2.playerList <+: room.playerList ∧ 4 ≤ m.2.playerList.length := by
  have hold : ∀ m ∈ s.sent, ∃ ref room, s'.rooms ref = some room ∧ room.id = m.2.id ∧
      m.2.playerList <+: room.playerList ∧ 4 ≤ m.2.playerList.length := by
    intro m hm
    obtain ⟨ref, room, hroom, hid, hpre, hfour⟩ := hq.sent m hm
    obtain ⟨room', hroom', hle⟩ := h.heapLe hs hroom
    exact ⟨ref, room', hroom', hle.id.trans hid, hpre.trans hle.players, hfour⟩
  obtain ⟨k, next, t, room, addr, -, htick, hroom, -, hsent⟩ | hsent := h.sent
  · rw [hsent] at hm
    rcases List.mem_append.mp hm with hm | hm
    · exact hold m hm
    · obtain rfl := List.mem_singleton.mp hm
      obtain ⟨room', hroom', hle⟩ := h.heapLe hs hroom
      obtain ⟨-, id, rest, -, hf⟩ := hq.tick t (List.mem_of_getElem? htick)
      obtain ⟨x, hx, -, hfour⟩ := hq.field _ _ hf
      obtain rfl := Option.some.inj (hx.symm.trans hroom)
      exact ⟨t.room, room', hroom', hle.id, hle.players, hfour⟩
  · rw [hsent] at hm
    exact hold m hm

/-- The step lemma. -/
theorem Queued.step {s s' : State A G} {e : Event A G} (hs : Coherent s) (hq : Queued s)
    (h : RoomMgr.step getArea s e = some s') : Queued s' where
  field _ _ hf := hq.field_step hs (step_effect h) hf
  nodup i := hq.nodup_step hs (step_effect h) i
  later _ hi := hq.later_step hs (step_effect h) hi
  tick _ ht := hq.tick_step hs (step_effect h) ht
  sent _ hm := hq.sent_step hs (step_effect h) hm

/-! ## Reachable states -/

/-- What holds in every state the service can reach. -/
structure Sound (s : State A G) : Prop where
  /-- ids -/
  coherent : Coherent s
  /-- ready rooms -/
  queued : Queued s

omit [DecidableEq A] in
theorem Sound.init : Sound (State.init : State A G) := ⟨Coherent.init, Queued.init⟩

theorem Sound.step {s s' : State A G} {e : Event A G} (hs : Sound s)
    (h : RoomMgr.step getArea s e = some s') : Sound s' :=
  ⟨hs.coherent.step h, hs.queued.step hs.coherent h⟩

theorem Sound.run {s s' : State A G} {es : List (Event A G)} (hs : Sound s)
    (h : Machine.run (RoomMgr.step getArea) s es = some s') : Sound s' :=
  Machine.run_induction (fun _ _ _ hs h => hs.step h) hs h

end SlgServer.RoomMgr
