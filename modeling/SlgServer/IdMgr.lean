import SlgServer.LuaArray

/-!
# Room ids (`service/room_mgr/id_mgr.lua`)

The pool `tbl` starts out as `1 .. 999999`. `gen_id` draws a position and takes
the id there out of the pool; nothing ever puts an id back.
-/

namespace SlgServer

/-- The module's state, `id_mgr.tbl`. -/
structure IdMgr : Type where
  /-- the ids not handed out -/
  tbl : LuaArray ℕ

namespace IdMgr

/-- `id_mgr:init`. -/
def init : IdMgr := ⟨LuaArray.ofFn 999999 fun i => i⟩

/-- `id_mgr:gen_id`, for the draw `index` of `math.random(1, len)`. -/
def genId (m : IdMgr) (index : ℕ) (h : 1 ≤ index ∧ index ≤ m.tbl.len) : ℕ × IdMgr :=
  (m.tbl.elem index h, ⟨m.tbl.swapRemove index h⟩)

theorem mem_init {v : ℕ} : LuaArray.Mem v init.tbl ↔ 1 ≤ v ∧ v ≤ 999999 := by
  simp [init, LuaArray.mem_ofFn]

theorem distinct_init : init.tbl.Distinct := by
  intro i j v hi hj
  simp only [init, LuaArray.ofFn, Option.ite_none_right_eq_some, Option.some.injEq] at hi hj
  omega

theorem genId_mem (m : IdMgr) (index : ℕ) (h : 1 ≤ index ∧ index ≤ m.tbl.len) :
    LuaArray.Mem (m.genId index h).1 m.tbl := ⟨index, m.tbl.get_eq_elem h⟩

end IdMgr

end SlgServer
