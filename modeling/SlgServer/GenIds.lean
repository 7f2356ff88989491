import SlgServer.RoomIds

/-!
# The ids of a run of `gen_id` (`service/room_mgr/id_mgr.lua`)

A draw takes the id at its place out of the pool and moves the last one there. So the pool
stays an array without gaps that holds no id twice, and what it gives out never comes
again (`gen_id_never_repeats`), whichever place is drawn, the last one included.
-/

namespace SlgServer

namespace IdMgr

/-- `gen_id`, called once for each draw: the ids and the pool that is left. It is `none`
if `math.random(1, len)` cannot have returned one of the draws. -/
def genIds : List ℕ → IdMgr → Option (List ℕ × IdMgr)
  | [], m => some ([], m)
  | index :: draws, m =>
    if h : 1 ≤ index ∧ index ≤ m.tbl.len then
      (genIds draws (m.genId index h).2).map fun r => ((m.genId index h).1 :: r.1, r.2)
    else none

/-- The ids `ids` were taken from the pool `m`, and `m'` is what is left. -/
structure Taken (m : IdMgr) (ids : List ℕ) (m' : IdMgr) : Prop where
  /-- each id comes once -/
  nodup : ids.Nodup
  /-- and was in the pool -/
  mem : ∀ id ∈ ids, LuaArray.Mem id m.tbl
  /-- the pool is shorter by as many places -/
  len : m'.tbl.len + ids.length = m.tbl.len
  /-- no id is left twice -/
  distinct : m'.tbl.Distinct
  /-- the other ids are left -/
  rest : ∀ v, LuaArray.Mem v m'.tbl ↔ LuaArray.Mem v m.tbl ∧ v ∉ ids

theorem Taken.nil {m : IdMgr} (h : m.tbl.Distinct) : Taken m [] m :=
  ⟨List.nodup_nil, by simp, rfl, h, by simp⟩

/-- One draw more, before the others. -/
theorem Taken.cons {m m' : IdMgr} {index : ℕ} {h : 1 ≤ index ∧ index ≤ m.tbl.len} {ids : List ℕ}
    (hd : m.tbl.Distinct) (hrest : Taken (m.genId index h).2 ids m') :
    Taken m ((m.genId index h).1 :: ids) m' := by
  have hmem : ∀ v, LuaArray.Mem v (m.genId index h).2.tbl ↔
      LuaArray.Mem v m.tbl ∧ v ≠ (m.genId index h).1 := fun v => LuaArray.mem_swapRemove hd
  have hlen : (m.genId index h).2.tbl.len = m.tbl.len - 1 := rfl
  refine ⟨List.nodup_cons.mpr ⟨fun hin => ?_, hrest.nodup⟩, fun id hid => ?_, ?_, hrest.distinct,
    fun v => ?_⟩
  · exact ((hmem _).mp (hrest.mem _ hin)).2 rfl
  · rcases List.mem_cons.mp hid with rfl | hid
    · exact m.genId_mem index h
    · exact ((hmem id).mp (hrest.mem id hid)).1
  · have := hrest.len
    rw [List.length_cons]
    omega
  · rw [hrest.rest, hmem, List.mem_cons, not_or, and_assoc]

/-- **Draws that are in range go through**, and take as many ids. -/
theorem genIds_spec {draws : List ℕ} {m : IdMgr} (hd : m.tbl.Distinct)
    (hdraws : ∀ (i : ℕ) (h : i < draws.length), 1 ≤ draws[i] ∧ draws[i] ≤ m.tbl.len - i) :
    ∃ ids m', genIds draws m = some (ids, m') ∧ ids.length = draws.length ∧ Taken m ids m' := by
  induction draws generalizing m with
  | nil => exact ⟨[], m, rfl, rfl, .nil hd⟩
  | cons index draws ih =>
    have hindex : 1 ≤ index ∧ index ≤ m.tbl.len := hdraws 0 (Nat.succ_pos _)
    have hrest : ∀ (i : ℕ) (h : i < draws.length),
        1 ≤ draws[i] ∧ draws[i] ≤ (m.genId index hindex).2.tbl.len - i := by
      intro i hi
      have hnext := hdraws (i + 1) (Nat.succ_lt_succ hi)
      have hlen : (m.genId index hindex).2.tbl.len = m.tbl.len - 1 := rfl
      rw [List.getElem_cons_succ] at hnext
      omega
    have hd' : (m.genId index hindex).2.tbl.Distinct := LuaArray.Distinct.swapRemove hd
    obtain ⟨ids, m', hgen, hlen, htaken⟩ := ih hd' hrest
    refine ⟨(m.genId index hindex).1 :: ids, m', ?_, ?_, htaken.cons hd⟩
    · rw [genIds, dif_pos hindex, hgen]
      rfl
    · rw [List.length_cons, List.length_cons, hlen]

end IdMgr

open IdMgr

/-- **`gen_id` never repeats.** Whatever `math.random` returns in the `k` calls after
`init`, the ids are distinct members of `1 .. 999999`, and `tbl` is left an array without
gaps that holds the other ids, each once. So the id that `room_mgr:create` gets is never
that of an open room. -/
theorem gen_id_never_repeats (draws : List ℕ)
    (hdraws : ∀ (i : ℕ) (h : i < draws.length), 1 ≤ draws[i] ∧ draws[i] ≤ 999999 - i) :
    (∃ ids m, genIds draws IdMgr.init = some (ids, m) ∧ ids.length = draws.length ∧ ids.Nodup ∧
        (∀ id ∈ ids, 1 ≤ id ∧ id ≤ 999999) ∧
        (∀ i, (m.tbl.get i).isSome = true ↔ 1 ≤ i ∧ i ≤ 999999 - draws.length) ∧
        m.tbl.Distinct ∧
        ∀ v, LuaArray.Mem v m.tbl ↔ (1 ≤ v ∧ v ≤ 999999) ∧ v ∉ ids) ∧
      ∀ (A G : Type) (_ : DecidableEq A) (getArea : G → Option ℕ) (es : List (RoomMgr.Event A G))
        (s : RoomMgr.State A G), Machine.run (RoomMgr.step getArea) RoomMgr.State.init es = some s →
        ∀ (index : ℕ) (h : 1 ≤ index ∧ index ≤ s.idMgr.tbl.len),
          s.roomTbl (s.idMgr.genId index h).1 = none := by
  refine ⟨?_, fun A G _ getArea es s hrun index hindex => ?_⟩
  · obtain ⟨ids, m, hgen, hlen, htaken⟩ := genIds_spec distinct_init hdraws
    have hleft : m.tbl.len = 999999 - draws.length := by
      have := htaken.len
      have hinit : IdMgr.init.tbl.len = 999999 := rfl
      omega
    refine ⟨ids, m, hgen, hlen, htaken.nodup, fun id hid => mem_init.mp (htaken.mem id hid),
      fun i => ?_, htaken.distinct, fun v => ?_⟩
    · rw [m.tbl.border, hleft]
    · rw [htaken.rest, mem_init]
  · have hs := (RoomMgr.Sound.init.run hrun).coherent
    -- an open room has its id, and an id in use is not in the pool
    refine Option.eq_none_iff_forall_ne_some.mpr fun ref hopen => ?_
    exact (hs.taken ref _ (hs.opened _ ref hopen)).2 (s.idMgr.genId_mem index hindex)

/-- Two draws of the first place give the first and the last id. -/
theorem gen_id_never_repeats_firstPlace :
    ∃ ids m, genIds [1, 1] IdMgr.init = some (ids, m) ∧ ids.Nodup ∧
      ∀ v, LuaArray.Mem v m.tbl ↔ (1 ≤ v ∧ v ≤ 999999) ∧ v ∉ ids := by
  have hdraws : ∀ (i : ℕ) (h : i < [1, 1].length), 1 ≤ [1, 1][i] ∧ [1, 1][i] ≤ 999999 - i := by
    decide
  obtain ⟨⟨ids, m, hgen, -, hnodup, -, -, -, hrest⟩, -⟩ := gen_id_never_repeats [1, 1] hdraws
  exact ⟨ids, m, hgen, hnodup, hrest⟩

end SlgServer
