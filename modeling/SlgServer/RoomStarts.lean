import SlgServer.AreaMgr
import SlgServer.RoomIds
import Mathlib.Data.List.Perm.Basic

/-!
# Rooms that are started

The room manager together with the areas: a `create_room` message travels to an
area, which answers with a `room_begin`, which closes the room. Nothing else
sends `room_begin`.

`check_ready` empties its table only when its loop comes to the end, and a room
without an area ends the loop by an error. So rooms are started once, and
failures stay alone, as long as the ready rooms a tick finds all have areas or
all have none, calls of `check_ready` do not overlap, and no room fills up in
the middle of one (`starts_orderly`).
-/

namespace SlgServer.RoomMgr

open State

variable {A G : Type}

/-! ## The manager and the areas -/

/-- The room manager and the messages on their way. -/
structure Net (A G : Type) : Type where
  /-- the service `room_mgr` -/
  mgr : State A G
  /-- `create_room` messages on their way to the areas -/
  areaIn : List (ℕ × Pack A)
  /-- `room_begin` messages on their way to `room_mgr` -/
  begins : List ℕ

/-- At the start nothing is on its way. -/
def Net.init : Net A G := ⟨State.init, [], []⟩

/-- What can happen. -/
inductive NetEvent (A G : Type) : Type where
  /-- `room_mgr` handles a request, a tick or an answer of `area_mgr` -/
  | mgr (e : Event A G)
  /-- an area handles the `create_room` message number `k` -/
  | areaCreate (k : ℕ)
  /-- `room_mgr` handles the `room_begin` message number `k` -/
  | deliver (k : ℕ)

/-- `room:begin` of an area (`area/room.lua`): `room_begin` goes to `room_mgr`
with the id that was sent. -/
def areaBegin (info : Pack A) : ℕ := info.id

section Step

variable [DecidableEq A]

/-- One event. -/
def netStep (getArea : G → Option ℕ) (n : Net A G) : NetEvent A G → Option (Net A G)
  | .mgr (.roomBegin _) => none
  | .mgr e => (step getArea n.mgr e).map fun s =>
      { n with mgr := s, areaIn := n.areaIn ++ s.sent.drop n.mgr.sent.length }
  | .areaCreate k => (n.areaIn[k]?).map fun m =>
      { n with areaIn := n.areaIn.eraseIdx k, begins := n.begins ++ [areaBegin m.2] }
  | .deliver k => (n.begins[k]?).map fun id =>
      { n with mgr := (n.mgr.roomBegin id).2, begins := n.begins.eraseIdx k }

/-- A `room_begin` that is handled finds its room, and `close` returns. -/
def Closes (n : Net A G) : NetEvent A G → Prop
  | .deliver k => ∀ id, n.begins[k]? = some id → (n.mgr.roomBegin id).1 = true
  | _ => True

end Step

/-- No room has been sent twice. -/
def AtMostOnce (n : Net A G) : Prop := (n.mgr.sent.map fun m => m.2.id).Nodup

/-- The room at a reference asks for a game that has no area. -/
def NoArea (getArea : G → Option ℕ) (s : State A G) (ref : ℕ) : Prop :=
  ∀ x, s.rooms ref = some x → getArea x.gameId = none

/-- The room at a reference asks for a game that has an area. -/
def HasArea (getArea : G → Option ℕ) (s : State A G) (ref : ℕ) : Prop :=
  ∃ x addr, s.rooms ref = some x ∧ getArea x.gameId = some addr

/-- When the start of a room raises, the rooms of the same table that have an
area have been started all the same. -/
def Isolated (getArea : G → Option ℕ) (n : Net A G) : NetEvent A G → Prop
  | .mgr (.getAreaRet k _) => ∀ t, n.mgr.ticks[k]? = some t → NoArea getArea n.mgr t.room →
      ∀ f ∈ n.mgr.tables t.tbl, HasArea getArea n.mgr f.2 → n.mgr.Sent f.1
  | _ => True

/-- A tick finds ready rooms without an area only; or ready rooms with an area
only, and then no earlier call is suspended. A room fills up while no call is
suspended; or else neither it nor the rooms waited for have an area. -/
def Orderly (getArea : G → Option ℕ) (s : State A G) : Event A G → Prop
  | .checkReady (some _) => (∀ f ∈ s.readyFields, NoArea getArea s f.2) ∨
      (s.ticks = [] ∧ ∀ f ∈ s.readyFields, HasArea getArea s f.2)
  | .joinRoom id _ => ∀ ref room, s.roomAt id = some (ref, room) → room.playerList.length = 3 →
      s.ticks = [] ∨ (NoArea getArea s ref ∧ ∀ t ∈ s.ticks, NoArea getArea s t.room)
  | _ => True

/-- The same for the manager with its areas. -/
def NetOrderly (getArea : G → Option ℕ) (n : Net A G) : NetEvent A G → Prop
  | .mgr e => Orderly getArea n.mgr e
  | _ => True

/-! ## Starting in order -/

/-- No suspended call has anything to start, and nothing in `ready_tbl` has been
started. -/
structure Calm (getArea : G → Option ℕ) (s : State A G) : Prop where
  /-- the suspended calls iterate tables of rooms without an area -/
  ticks : ∀ t ∈ s.ticks, ∀ f ∈ s.tables t.tbl, NoArea getArea s f.2
  /-- the ready rooms are still to be started -/
  fields : ∀ f ∈ s.readyFields, ¬ s.Sent f.1

/-- One suspended call iterates `ready_tbl`; all rooms there have an area, and
those it has been given, but for the current one, have been started. -/
structure Starting (getArea : G → Option ℕ) (s : State A G) (t : Tick) : Prop where
  /-- it is the only one -/
  ticks : s.ticks = [t]
  /-- it iterates the current table -/
  tbl : t.tbl = s.readyTbl
  /-- nothing was added to it -/
  size : t.size = s.readyFields.length
  /-- every room there can be started -/
  fields : ∀ f ∈ s.readyFields, HasArea getArea s f.2
  /-- no key came twice -/
  nodup : t.seen.Nodup
  /-- what has been started -/
  sent : ∀ id ∈ s.readyFields.keys, s.Sent id ↔ id ∈ t.seen.tail

/-- The manager starts rooms in order. -/
structure InOrder (getArea : G → Option ℕ) (s : State A G) : Prop where
  /-- no room has been sent twice -/
  once : (s.sent.map fun m => m.2.id).Nodup
  /-- where the calls of `check_ready` are -/
  phase : Calm getArea s ∨ ∃ t, Starting getArea s t

variable {getArea : G → Option ℕ}

theorem InOrder.init : InOrder getArea (State.init : State A G) where
  once := List.nodup_nil
  phase := .inl ⟨fun _ h => (by cases h), fun _ h => (by cases h)⟩

theorem NoArea.not_hasArea {s : State A G} {ref : ℕ} (h : NoArea getArea s ref) :
    ¬ HasArea getArea s ref := by
  rintro ⟨x, addr, hx, harea⟩
  rw [h x hx] at harea
  cases harea

variable [DecidableEq A]

/-- Rooms keep their games, so they keep having an area or not. -/
theorem Effect.noArea {s s' : State A G} {e : Event A G} (hs : Coherent s)
    (h : Effect getArea s e s') {ref : ℕ} {x : Room A G} (hx : s.rooms ref = some x)
    (hno : NoArea getArea s ref) : NoArea getArea s' ref := by
  intro x' hx'
  obtain ⟨x'', hx'', hle⟩ := h.heapLe hs hx
  obtain rfl := Option.some.inj (hx'.symm.trans hx'')
  rw [hle.gameId]
  exact hno x hx

theorem Effect.hasArea {s s' : State A G} {e : Event A G} (hs : Coherent s)
    (h : Effect getArea s e s') {ref : ℕ} (hhas : HasArea getArea s ref) :
    HasArea getArea s' ref := by
  obtain ⟨x, addr, hx, harea⟩ := hhas
  obtain ⟨x', hx', hle⟩ := h.heapLe hs hx
  exact ⟨x', addr, hx', by rw [hle.gameId, harea]⟩

omit [DecidableEq A] in
/-- Two states with the same calls, tables and messages. -/
structure SameQueue (s s' : State A G) : Prop where
  /-- the suspended calls -/
  ticks : s'.ticks = s.ticks
  /-- the tables -/
  tables : s'.tables = s.tables
  /-- the current table -/
  readyTbl : s'.readyTbl = s.readyTbl
  /-- the messages -/
  sent : s'.sent = s.sent

theorem InOrder.keep {s s' : State A G} {e : Event A G} (hs : Sound s) (ho : InOrder getArea s)
    (h : Effect getArea s e s') (hq : SameQueue s s') : InOrder getArea s' := by
  have hfields : s'.readyFields = s.readyFields := by
    rw [State.readyFields, State.readyFields, hq.tables, hq.readyTbl]
  have hsent : ∀ id, s'.Sent id ↔ s.Sent id := by
    intro id
    rw [State.Sent, State.Sent, hq.sent]
  refine ⟨by rw [hq.sent]; exact ho.once, ?_⟩
  obtain hcalm | ⟨t, hstart⟩ := ho.phase
  · refine .inl ⟨?_, ?_⟩
    · rw [hq.ticks, hq.tables]
      intro t ht f hf
      obtain ⟨x, hx, -⟩ := hs.queued.field _ f hf
      exact h.noArea hs.coherent hx (hcalm.ticks t ht f hf)
    · rw [hfields]
      intro f hf
      rw [hsent]
      exact hcalm.fields f hf
  · refine .inr ⟨t, ?_, ?_, ?_, ?_, hstart.nodup, ?_⟩
    · rw [hq.ticks, hstart.ticks]
    · rw [hstart.tbl, hq.readyTbl]
    · rw [hstart.size, hfields]
    · rw [hfields]
      intro f hf
      exact h.hasArea hs.coherent (hstart.fields f hf)
    · rw [hfields]
      intro id hid
      rw [hsent, hstart.sent id hid]

omit [DecidableEq A] in
/-- The room being started is one of the table. -/
theorem Starting.hasArea {s : State A G} (hs : Sound s) {t : Tick}
    (hstart : Starting getArea s t) : HasArea getArea s t.room := by
  obtain ⟨-, id, rest, -, hf⟩ := hs.queued.tick t (by rw [hstart.ticks]; simp)
  rw [hstart.tbl] at hf
  exact hstart.fields _ hf

omit [DecidableEq A] in
theorem Starting.eq_of_tick {s : State A G} {t t' : Tick} {k : ℕ}
    (hstart : Starting getArea s t) (htick : s.ticks[k]? = some t') : k = 0 ∧ t' = t := by
  rw [hstart.ticks] at htick
  cases k with
  | zero => exact ⟨rfl, (Option.some.inj htick).symm⟩
  | succ k => cases htick

omit [DecidableEq A] in
/-- A call that waits for an area there is, is the only one. -/
theorem InOrder.starting {s : State A G} (hs : Sound s) (ho : InOrder getArea s) {k : ℕ} {t : Tick}
    {room : Room A G} {addr : ℕ} (htick : s.ticks[k]? = some t)
    (hroom : s.rooms t.room = some room) (harea : getArea room.gameId = some addr) :
    k = 0 ∧ Starting getArea s t := by
  have ht := List.mem_of_getElem? htick
  obtain hcalm | ⟨t', hstart⟩ := ho.phase
  · obtain ⟨-, id, rest, -, hf⟩ := hs.queued.tick t ht
    have hno := hcalm.ticks t ht _ hf
    exact absurd ⟨room, addr, hroom, harea⟩ hno.not_hasArea
  · obtain ⟨hk, rfl⟩ := hstart.eq_of_tick htick
    exact ⟨hk, hstart⟩

omit [DecidableEq A] in
/-- The room being started has not been sent before. -/
theorem Starting.not_sent {s : State A G} (hs : Sound s) {t : Tick}
    (hstart : Starting getArea s t) {room : Room A G} (hroom : s.rooms t.room = some room) :
    (∃ rest, t.seen = room.id :: rest) ∧ ¬ s.Sent room.id := by
  obtain ⟨-, id, rest, hseen, hf⟩ := hs.queued.tick t (by rw [hstart.ticks]; simp)
  rw [hstart.tbl] at hf
  obtain ⟨x, hx, hxid, -⟩ := hs.queued.field _ _ hf
  obtain rfl := Option.some.inj (hx.symm.trans hroom)
  simp only at hxid
  have hkey : id ∈ s.readyFields.keys := List.mem_map_of_mem hf
  have hnodup := hstart.nodup
  rw [hseen] at hnodup
  rw [hxid]
  refine ⟨⟨rest, hseen⟩, ?_⟩
  rw [hstart.sent id hkey, hseen]
  exact (List.nodup_cons.mp hnodup).1

/-- A room fills up. -/
theorem InOrder.fill {s s' : State A G} {e : Event A G} (hs : Sound s) (ho : InOrder getArea s)
    (h : Effect getArea s e s') {ref : ℕ} {room : Room A G} (hroom : s.rooms ref = some room)
    (hlen : room.playerList.length = 3)
    (hguard : s.ticks = [] ∨ (NoArea getArea s ref ∧ ∀ t ∈ s.ticks, NoArea getArea s t.room))
    (hticks : s'.ticks = s.ticks) (hready : s'.readyTbl = s.readyTbl) (hsent : s'.sent = s.sent)
    (htables : s'.tables = Function.update s.tables s.readyTbl (s.readyFields ++ [(room.id, ref)])) :
    InOrder getArea s' := by
  have hsent' : ∀ id, s'.Sent id ↔ s.Sent id := by
    intro id
    rw [State.Sent, State.Sent, hsent]
  refine ⟨by rw [hsent]; exact ho.once, .inl ⟨?_, ?_⟩⟩
  · rw [hticks]
    intro t ht f hf
    obtain hnil | ⟨hno, hall⟩ := hguard
    · rw [hnil] at ht
      cases ht
    · obtain hcalm | ⟨t', hstart⟩ := ho.phase
      · have hold : ∀ i, f ∈ s.tables i → (∀ f ∈ s.tables i, NoArea getArea s f.2) →
            NoArea getArea s' f.2 := by
          intro i hf hno
          obtain ⟨x, hx, -⟩ := hs.queued.field _ f hf
          exact h.noArea hs.coherent hx (hno f hf)
        rw [htables] at hf
        by_cases htbl : t.tbl = s.readyTbl
        · rw [htbl, Function.update_self] at hf
          rcases List.mem_append.mp hf with hf | hf
          · exact hold _ hf (htbl ▸ hcalm.ticks t ht)
          · obtain rfl := List.mem_singleton.mp hf
            exact h.noArea hs.coherent hroom hno
        · rw [Function.update_of_ne htbl] at hf
          exact hold _ hf (hcalm.ticks t ht)
      · have ht' : t' ∈ s.ticks := by rw [hstart.ticks]; simp
        exact absurd (hstart.hasArea hs) (hall t' ht').not_hasArea
  · rw [State.readyFields, hready, htables, Function.update_self]
    intro f hf
    rw [hsent']
    rcases List.mem_append.mp hf with hf | hf
    · obtain hcalm | ⟨t', hstart⟩ := ho.phase
      · exact hcalm.fields f hf
      · have ht' : t' ∈ s.ticks := by rw [hstart.ticks]; simp
        obtain hnil | ⟨-, hall⟩ := hguard
        · rw [hnil] at ht'
          cases ht'
        · exact absurd (hstart.hasArea hs) (hall t' ht').not_hasArea
    · obtain rfl := List.mem_singleton.mp hf
      exact hs.queued.not_sent hs.coherent hroom hlen

omit [DecidableEq A] in
/-- A room with an area is sent. -/
theorem InOrder.once_step {s s' : State A G} (hs : Sound s) (ho : InOrder getArea s) {t : Tick}
    (hstart : Starting getArea s t) {room : Room A G} {addr : ℕ}
    (hroom : s.rooms t.room = some room) (hsent : s'.sent = s.sent ++ [(addr, room.pack)]) :
    (s'.sent.map fun m => m.2.id).Nodup := by
  have hnot := (hstart.not_sent hs hroom).2
  rw [hsent, List.map_append, List.map_cons, List.map_nil, ← List.concat_eq_append]
  refine ho.once.concat fun hmem => hnot ?_
  obtain ⟨m, hm, hid⟩ := List.mem_map.mp hmem
  exact ⟨m, hm, hid⟩

/-- The step lemma. -/
theorem InOrder.step {s s' : State A G} {e : Event A G} (hs : Sound s) (ho : InOrder getArea s)
    (hguard : Orderly getArea s e) (h : Effect getArea s e s') : InOrder getArea s' := by
  have heff := h
  cases h with
  | createRaise | create | joinUnknown | join | beginUnknown | begin | tickIdle =>
    exact ho.keep hs heff ⟨rfl, rfl, rfl, rfl⟩
  | joinFill id p ref room hroom hlen =>
    have href := (roomAt_eq_some.mp hroom).2
    have hnot := hs.queued.not_mem_keys hs.coherent href hlen s.readyTbl
    refine ho.fill hs heff href hlen (hguard ref room hroom hlen) rfl rfl rfl ?_
    simp only
    rw [State.readyFields, ReadyTable.setField_eq_append hnot]
  | tickStart id ref hfield =>
    have hmem := ReadyTable.mem_of_lookup hfield
    refine ⟨ho.once, ?_⟩
    -- a loop over failing rooms adds a call that fails, one over good rooms starts a phase
    obtain hcalm | ⟨t, hstart⟩ := ho.phase
    · obtain hno | ⟨hnil, hhas⟩ := hguard
      · refine .inl ⟨fun t ht => ?_, hcalm.fields⟩
        rcases List.mem_append.mp ht with ht | ht
        · exact hcalm.ticks t ht
        · obtain rfl := List.mem_singleton.mp ht
          exact hno
      · refine .inr ⟨_, by rw [hnil]; rfl, rfl, rfl, hhas, List.nodup_singleton _, ?_⟩
        intro n hn
        obtain ⟨f, hf, rfl⟩ := List.mem_map.mp hn
        exact iff_of_false (hcalm.fields f hf) (by simp)
    · have ht : t ∈ s.ticks := by rw [hstart.ticks]; simp
      obtain hno | ⟨hnil, -⟩ := hguard
      · exact absurd (hstart.fields _ hmem) (hno _ hmem).not_hasArea
      · rw [hnil] at ht
        cases ht
  | startRaise k next t room htick hroom harea =>
    obtain hcalm | ⟨t', hstart⟩ := ho.phase
    · refine ⟨ho.once, .inl ⟨fun t ht f hf => ?_, hcalm.fields⟩⟩
      obtain ⟨x, hx, -⟩ := hs.queued.field _ f hf
      exact heff.noArea hs.coherent hx (hcalm.ticks t (List.mem_of_mem_eraseIdx ht) f hf)
    · -- while rooms are being started the one call there is waits for a room with an area
      obtain ⟨-, rfl⟩ := hstart.eq_of_tick htick
      obtain ⟨x, addr, hx, hhas⟩ := hstart.hasArea hs
      obtain rfl := Option.some.inj (hx.symm.trans hroom)
      rw [harea] at hhas
      cases hhas
  | startNext k t room addr id ref htick hroom harea hnext hfield =>
    obtain ⟨rfl, hstart⟩ := ho.starting hs htick hroom harea
    refine ⟨ho.once_step hs hstart hroom rfl, .inr ⟨{ t with seen := id :: t.seen, room := ref },
      ?_, hstart.tbl, hstart.size, ?_, ?_, ?_⟩⟩
    · simp only [hstart.ticks]
      rfl
    · exact fun f hf => heff.hasArea hs.coherent (hstart.fields f hf)
    · -- nothing was added to the table, so `pairs` yields a new key
      rw [MayYield, hstart.tbl] at hnext
      exact List.nodup_cons.mpr ⟨hnext.2 hstart.size.symm, hstart.nodup⟩
    · intro n hn
      obtain ⟨⟨rest, hseen⟩, -⟩ := hstart.not_sent hs hroom
      rw [sent_concat rfl, hstart.sent n hn, List.tail_cons, hseen, List.tail_cons,
        List.mem_cons, or_comm]
  | startLast k t room addr htick hroom harea hnext =>
    obtain ⟨rfl, hstart⟩ := ho.starting hs htick hroom harea
    refine ⟨ho.once_step hs hstart hroom rfl, .inl ⟨fun t' ht' => ?_, fun f hf => ?_⟩⟩
    · simp only [hstart.ticks] at ht'
      cases ht'
    · simp only [State.readyFields, Function.update_self] at hf
      cases hf

omit [DecidableEq A] in
/-- In order, a failing start has no other room to leave behind. -/
theorem InOrder.isolated {n : Net A G} (hs : Sound n.mgr) (ho : InOrder getArea n.mgr)
    (e : NetEvent A G) : Isolated getArea n e := by
  cases e with
  | mgr e =>
    cases e with
    | getAreaRet k next =>
      intro t htick hno f hf hhas
      have ht := List.mem_of_getElem? htick
      obtain hcalm | ⟨t', hstart⟩ := ho.phase
      · exact absurd hhas (hcalm.ticks t ht f hf).not_hasArea
      · obtain ⟨-, rfl⟩ := hstart.eq_of_tick htick
        exact absurd (hstart.hasArea hs) hno.not_hasArea
    | _ => trivial
  | _ => trivial

/-! ## The messages -/

/-- The ids in the messages on their way. -/
def Net.underway (n : Net A G) : List ℕ := n.areaIn.map (fun m => m.2.id) ++ n.begins

/-- The manager and its messages. -/
structure NetInv (getArea : G → Option ℕ) (n : Net A G) : Prop where
  /-- the manager is in a reachable state -/
  sound : Sound n.mgr
  /-- and starts rooms in order -/
  order : InOrder getArea n.mgr
  /-- no two messages are about the same room -/
  nodup : n.underway.Nodup
  /-- a room that messages are about was sent, and is open -/
  opened : ∀ id ∈ n.underway, n.mgr.Sent id ∧ ¬ n.mgr.Gone id
  /-- a room that was closed had been sent -/
  gone : ∀ id, n.mgr.Gone id → n.mgr.Sent id

omit [DecidableEq A] in
theorem NetInv.init : NetInv getArea (Net.init : Net A G) where
  sound := Sound.init
  order := InOrder.init
  nodup := List.nodup_nil
  opened _ h := by cases h
  gone _ h := by
    obtain ⟨-, ref, href⟩ := h
    cases href

omit [DecidableEq A] in
theorem roomAt_of_sent {s : State A G} (hs : Sound s) {id : ℕ} (hsent : s.Sent id)
    (hgone : ¬ s.Gone id) : ∃ ref room, s.roomAt id = some (ref, room) := by
  obtain ⟨m, hm, rfl⟩ := hsent
  obtain ⟨ref, room, hroom, hid, -⟩ := hs.queued.sent m hm
  rw [← isOpen_iff_roomAt hs.coherent]
  by_contra hclosed
  exact hgone ⟨hclosed, ref, by rw [idAt_of_rooms hroom, hid]⟩

/-- `room_mgr` handles a request, a tick or an answer. -/
theorem NetInv.mgr_step {n : Net A G} {e : Event A G} {s' : State A G} (hn : NetInv getArea n)
    (hguard : Orderly getArea n.mgr e) (hne : ∀ id, e ≠ .roomBegin id)
    (h : RoomMgr.step getArea n.mgr e = some s') :
    NetInv getArea
      { n with mgr := s', areaIn := n.areaIn ++ s'.sent.drop n.mgr.sent.length } := by
  have heff := step_effect h
  have hgone : ∀ id, s'.Gone id ↔ n.mgr.Gone id := by
    intro id
    rw [gone_step hn.sound.coherent h]
    simp [hne]
  have hold : ∀ id ∈ n.underway, s'.Sent id ∧ ¬ s'.Gone id := by
    intro id hid
    rw [hgone]
    exact ⟨heff.sent_mono (hn.opened id hid).1, (hn.opened id hid).2⟩
  have hgone' : ∀ id, s'.Gone id → s'.Sent id := by
    intro id hid
    exact heff.sent_mono (hn.gone id ((hgone id).mp hid))
  have hsound := hn.sound.step h
  have horder := hn.order.step hn.sound hguard heff
  obtain ⟨k, next, t, room, addr, -, htick, hroom, harea, hsent⟩ | hsent := heff.sent
  · -- one room was sent; before, no message was about it and it was open
    obtain ⟨-, hstart⟩ := hn.order.starting hn.sound htick hroom harea
    have hnew := (hstart.not_sent hn.sound hroom).2
    have hperm : (Net.underway { n with
        mgr := s', areaIn := n.areaIn ++ s'.sent.drop n.mgr.sent.length }).Perm
        (room.id :: n.underway) := by
      rw [Net.underway, hsent, List.drop_left, List.map_append, List.append_assoc]
      exact List.perm_middle
    refine ⟨hsound, horder, ?_, ?_, hgone'⟩
    · rw [hperm.nodup_iff]
      exact List.nodup_cons.mpr ⟨fun hmem => hnew (hn.opened _ hmem).1, hn.nodup⟩
    · intro id hid
      rcases List.mem_cons.mp (hperm.mem_iff.mp hid) with rfl | hid
      · refine ⟨(sent_concat hsent _).mpr (.inr rfl), fun hclosed => ?_⟩
        exact hnew (hn.gone _ ((hgone _).mp hclosed))
      · exact hold id hid
  · have hsame : Net.underway { n with
        mgr := s', areaIn := n.areaIn ++ s'.sent.drop n.mgr.sent.length } = n.underway := by
      rw [Net.underway, hsent, List.drop_length, List.append_nil]
      rfl
    refine ⟨hsound, horder, ?_, ?_, hgone'⟩
    · rw [hsame]
      exact hn.nodup
    · rw [hsame]
      exact hold

omit [DecidableEq A] in
/-- An area handles a `create_room`. -/
theorem NetInv.areaCreate_step {n : Net A G} {k : ℕ} {m : ℕ × Pack A} (hn : NetInv getArea n)
    (hk : n.areaIn[k]? = some m) :
    NetInv getArea
      { n with areaIn := n.areaIn.eraseIdx k, begins := n.begins ++ [areaBegin m.2] } := by
  have hperm : (Net.underway
      { n with areaIn := n.areaIn.eraseIdx k, begins := n.begins ++ [areaBegin m.2] }).Perm
      n.underway := by
    obtain ⟨hlt, hget⟩ := List.getElem?_eq_some_iff.mp hk
    have hrest := (List.getElem_cons_eraseIdx_perm hlt).map fun m => m.2.id
    rw [hget, List.map_cons] at hrest
    rw [Net.underway, ← List.append_assoc]
    refine (List.perm_append_singleton _ _).trans ?_
    rw [← List.cons_append]
    exact hrest.append_right _
  refine ⟨hn.sound, hn.order, hperm.nodup_iff.mpr hn.nodup, ?_, hn.gone⟩
  intro id hid
  exact hn.opened id (hperm.mem_iff.mp hid)

/-- `room_mgr` handles a `room_begin`. -/
theorem NetInv.deliver_step {n : Net A G} {k id : ℕ} (hn : NetInv getArea n)
    (hk : n.begins[k]? = some id) :
    NetInv getArea
      { n with mgr := (n.mgr.roomBegin id).2, begins := n.begins.eraseIdx k } := by
  have hstep : RoomMgr.step getArea n.mgr (.roomBegin id) = some (n.mgr.roomBegin id).2 := rfl
  have heff := step_effect hstep
  have hsent : (n.mgr.roomBegin id).2.sent = n.mgr.sent := by
    obtain ⟨_, _, _, _, _, he, -⟩ | hsent := heff.sent
    · cases he
    · exact hsent
  have hgone : ∀ i, (n.mgr.roomBegin id).2.Gone i → n.mgr.Gone i ∨ i = id := by
    intro i hi
    rw [gone_step hn.sound.coherent hstep] at hi
    obtain hi | ⟨he, -⟩ := hi
    · exact .inl hi
    · exact .inr (Event.roomBegin.inj he).symm
  have hperm : n.underway.Perm (id :: Net.underway
      { n with mgr := (n.mgr.roomBegin id).2, begins := n.begins.eraseIdx k }) := by
    obtain ⟨hlt, hget⟩ := List.getElem?_eq_some_iff.mp hk
    have hrest := List.getElem_cons_eraseIdx_perm hlt
    rw [hget] at hrest
    exact (hrest.symm.append_left _).trans List.perm_middle
  -- the message delivered was the only one about its room
  obtain ⟨hnot, hnodup⟩ := List.nodup_cons.mp (hperm.nodup_iff.mp hn.nodup)
  have hmem : ∀ i, i = id ∨ i ∈ Net.underway
      { n with mgr := (n.mgr.roomBegin id).2, begins := n.begins.eraseIdx k } →
      n.mgr.Sent i ∧ ¬ n.mgr.Gone i := by
    intro i hi
    exact hn.opened i (hperm.mem_iff.mpr (List.mem_cons.mpr hi))
  have hguard : Orderly getArea n.mgr (.roomBegin id) := trivial
  refine ⟨hn.sound.step hstep, hn.order.step hn.sound hguard heff, hnodup, ?_, ?_⟩
  · intro i hi
    obtain ⟨hs, hopen⟩ := hmem i (.inr hi)
    refine ⟨heff.sent_mono hs, fun hclosed => ?_⟩
    obtain hclosed | rfl := hgone i hclosed
    · exact hopen hclosed
    · exact hnot hi
  · intro i hclosed
    obtain hclosed | rfl := hgone i hclosed
    · exact heff.sent_mono (hn.gone i hclosed)
    · exact heff.sent_mono (hmem i (.inl rfl)).1

theorem netStep_mgr {n n' : Net A G} {e : Event A G} (h : netStep getArea n (.mgr e) = some n') :
    (∀ id, e ≠ .roomBegin id) ∧ ∃ s', RoomMgr.step getArea n.mgr e = some s' ∧
      n' = { n with mgr := s', areaIn := n.areaIn ++ s'.sent.drop n.mgr.sent.length } := by
  by_cases hbegin : ∃ id, e = .roomBegin id
  · obtain ⟨id, rfl⟩ := hbegin
    cases h
  · have hne : ∀ id, e ≠ .roomBegin id := fun id he => hbegin ⟨id, he⟩
    rw [netStep] at h
    · obtain ⟨s', hs', hn'⟩ := Option.map_eq_some_iff.mp h
      exact ⟨hne, s', hs', hn'.symm⟩
    · exact hne

/-- The step lemma. -/
theorem NetInv.step {n n' : Net A G} {e : NetEvent A G} (hn : NetInv getArea n)
    (hguard : NetOrderly getArea n e) (h : netStep getArea n e = some n') :
    NetInv getArea n' := by
  cases e with
  | mgr e =>
    obtain ⟨hne, s', hs', rfl⟩ := netStep_mgr h
    exact hn.mgr_step hguard hne hs'
  | areaCreate k =>
    obtain ⟨m, hm, rfl⟩ := Option.map_eq_some_iff.mp h
    exact hn.areaCreate_step hm
  | deliver k =>
    obtain ⟨id, hid, rfl⟩ := Option.map_eq_some_iff.mp h
    exact hn.deliver_step hid

/-- A `room_begin` finds its room. -/
theorem NetInv.closes {n : Net A G} (hn : NetInv getArea n) (e : NetEvent A G) : Closes n e := by
  cases e with
  | deliver k =>
    intro id hk
    have hmem : id ∈ n.underway := List.mem_append_right _ (List.mem_of_getElem? hk)
    obtain ⟨ref, room, hroom⟩ :=
      roomAt_of_sent hn.sound (hn.opened id hmem).1 (hn.opened id hmem).2
    simp [State.roomBegin, State.close, hroom]
  | _ => trivial

/-- **When rooms are started once and failures stay alone.** In a run whose
ticks and joins are in order, no room is sent twice, a start that raises leaves
no other room behind, and every `room_begin` finds its room. -/
theorem starts_orderly {n : Net A G} {es : List (NetEvent A G)}
    (h : Machine.run (netStep getArea) Net.init es = some n)
    (hguard : Machine.Guarded (netStep getArea) (NetOrderly getArea) Net.init es) :
    Machine.Always (netStep getArea) AtMostOnce Net.init es ∧
      Machine.Guarded (netStep getArea) (Isolated getArea) Net.init es ∧
      Machine.Guarded (netStep getArea) Closes Net.init es := by
  have hstep : ∀ (n : Net A G) e n', NetInv getArea n → NetOrderly getArea n e →
      netStep getArea n e = some n' → NetInv getArea n' := fun _ _ _ hn hg h => hn.step hg h
  refine ⟨Machine.always_of_guarded hstep (fun _ hn => hn.order.once) NetInv.init hguard,
    Machine.guarded_mono hstep ?_ NetInv.init h hguard,
    Machine.guarded_mono hstep ?_ NetInv.init h hguard⟩
  · exact fun n e _ hn _ _ => hn.order.isolated hn.sound e
  · exact fun (n : Net A G) e _ hn _ _ => hn.closes e

/-- A room fills up, is started and closed. -/
def startAndClose : List (NetEvent ℕ (Option ℕ)) :=
  (fillRoom 1 (some 1)).map .mgr ++
    [.mgr (.checkReady (some 1)), .mgr (.getAreaRet 0 none), .areaCreate 0, .deliver 0]

theorem starts_orderly_startAndClose :
    Machine.Always (netStep (AreaMgr.init fun _ id => id).getArea) AtMostOnce Net.init
        startAndClose ∧
      Machine.Guarded (netStep (AreaMgr.init fun _ id => id).getArea)
        (Isolated (AreaMgr.init fun _ id => id).getArea) Net.init startAndClose ∧
      Machine.Guarded (netStep (AreaMgr.init fun _ id => id).getArea) Closes Net.init
        startAndClose := by
  refine starts_orderly (n := _) rfl ?_
  refine Machine.guarded_cons rfl trivial ?_
  refine Machine.guarded_cons rfl (fun _ _ _ _ => .inl rfl) ?_
  refine Machine.guarded_cons rfl (fun _ _ _ _ => .inl rfl) ?_
  refine Machine.guarded_cons rfl (fun _ _ _ _ => .inl rfl) ?_
  refine Machine.guarded_cons rfl (.inr ⟨rfl, fun f hf => ?_⟩) ?_
  · obtain rfl := List.mem_singleton.mp hf
    exact ⟨_, _, rfl, rfl⟩
  · exact Machine.guarded_cons rfl trivial (Machine.guarded_cons rfl trivial
      (Machine.guarded_cons rfl trivial trivial))

/-- Room `1` has an area, room `2` was created without a game. Each tick starts
room `1` and then fails at room `2`. -/
def startTwice : List (NetEvent ℕ (Option ℕ)) :=
  (fillRoom 1 (some 1) ++ fillRoom 2 none ++
    [Event.checkReady (some 1), Event.getAreaRet 0 (some 2), Event.getAreaRet 0 none,
      Event.checkReady (some 1), Event.getAreaRet 0 (some 2)]).map .mgr

/-- Room `1` is sent twice. -/
theorem room_started_twice :
    ¬ ∀ (es : List (NetEvent ℕ (Option ℕ))) (n : Net ℕ (Option ℕ)),
      Machine.run (netStep (AreaMgr.init fun _ id => id).getArea) Net.init es = some n →
      Machine.Always (netStep (AreaMgr.init fun _ id => id).getArea) AtMostOnce Net.init es ∧
        Machine.Guarded (netStep (AreaMgr.init fun _ id => id).getArea)
          (Isolated (AreaMgr.init fun _ id => id).getArea) Net.init es ∧
        Machine.Guarded (netStep (AreaMgr.init fun _ id => id).getArea) Closes Net.init es := by
  intro hall
  have hrun : ∃ n, Machine.run (netStep (AreaMgr.init fun _ id => id).getArea) Net.init
      startTwice = some n ∧ n.mgr.sent.map (fun m => m.2.id) = [1, 1] :=
    ⟨_, rfl, rfl⟩
  obtain ⟨n, hrun, hsent⟩ := hrun
  have honce : AtMostOnce n := (hall _ n hrun).1.last hrun
  rw [AtMostOnce, hsent] at honce
  simp at honce

end SlgServer.RoomMgr
