import Mathlib.Logic.Function.Basic
import Mathlib.Data.Nat.Notation

/-!
# The area manager (`service/area_mgr`)

At its start `area_mgr` opens one `area` service for each entry of `area_list`
and remembers the addresses by id. A client may ask for any game, or leave
`game_id` out (`none`); `get_area` then answers `nil`.
-/

namespace SlgServer

/-- An entry of `area_list.lua`. -/
structure AreaConf : Type where
  /-- the id, which is the game id -/
  id : ℕ
  /-- the service that runs it -/
  service : String

/-- `area_list.lua`. -/
def areaList : List AreaConf := [⟨1, "area"⟩, ⟨2, "area"⟩, ⟨3, "area"⟩, ⟨4, "area"⟩]

/-- The state of the service. -/
structure AreaMgr : Type where
  /-- `self.area_tbl`: the address for each id -/
  areaTbl : ℕ → Option ℕ

namespace AreaMgr

variable (newservice : String → ℕ → ℕ)

/-- One round of the loop in `create_area_by_list`. -/
def createArea (m : AreaMgr) (v : AreaConf) : AreaMgr :=
  ⟨Function.update m.areaTbl v.id (some (newservice v.service v.id))⟩

/-- `area_mgr:init`; `newservice` answers with the address of a new service. -/
def init : AreaMgr := areaList.foldl (createArea newservice) ⟨fun _ => none⟩

/-- `area_mgr:get_area`, for the game id of a request. -/
def getArea (m : AreaMgr) (gameId : Option ℕ) : Option ℕ := gameId.bind m.areaTbl

end AreaMgr

end SlgServer
