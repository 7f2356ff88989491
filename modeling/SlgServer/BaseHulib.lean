import SlgServer.BaseTables
import SlgServer.MeldRows
import SlgServer.Scan
import SlgServer.Tiles

/-!
# The checker of `mjlib/base` (`hulib.lua`)

`get_hu_info` cuts each suit into runs, looks every run up in one of two tables
that all calls share, and lets at most one run (or one honour) hold the pair.
The shipped tables still carry the generator's `collect` flag, so a failed
lookup writes the missing key into the table; the model threads the tables
through every function.

The nested loops come down to one scan over the hand's *items*, its runs and the
counts of its honours (`getHuInfo_eq_scan`); everything later is about items.
-/

namespace SlgServer.Base

open Melds Scan

/-! ## The tables -/

/-- A lookup table: its numeric keys, all of them holding `true`, and the flag
`collect`. -/
structure LookupTable : Type where
  /-- the numeric keys -/
  keys : List ℕ
  /-- the generator's flag -/
  collect : Bool

/-- The two tables the module keeps. -/
structure Tables : Type where
  /-- `wave_table` -/
  waveTable : LookupTable
  /-- `wave_table_eye` -/
  waveTableEye : LookupTable

/-- The tables as shipped: both files end with `["collect"]=true`. -/
def shipped : Tables := ⟨⟨baseAutoTable, true⟩, ⟨baseAutoTableWithEye, true⟩⟩

/-- `if t[num] then return true end`, and on a miss `t[num] = true` if the table
collects. -/
def LookupTable.look (t : LookupTable) (num : ℕ) : Bool × LookupTable :=
  if num ∈ t.keys then (true, t)
  else if t.collect then (false, { t with keys := num :: t.keys })
  else (false, t)

/-- `check_wave`. -/
def checkWave (w : Tables) (tbl : List ℕ) : Bool × Tables :=
  let r := w.waveTable.look (key tbl)
  (r.1, { w with waveTable := r.2 })

/-- `check_wave_and_eye`. -/
def checkWaveAndEye (w : Tables) (tbl : List ℕ) : Bool × Tables :=
  if tbl.length = 1 then (true, w)
  else
    let r := w.waveTableEye.look (key tbl)
    (r.1, { w with waveTableEye := r.2 })

/-! ## The checks -/

/-- What a call of `get_hu_info` reads and writes: the tables and `info.eye`. -/
structure Info : Type where
  /-- the shared tables -/
  tables : Tables
  /-- the pair has been found -/
  eye : Bool

/-- `check_sub`. -/
def checkSub (tbl : List ℕ) (info : Info) : Bool × Info :=
  let yu := tbl.sum % 3
  if yu = 1 then (false, info)
  else if yu = 2 then
    if info.eye then (false, info)
    else
      let r := checkWaveAndEye info.tables tbl
      (r.1, ⟨r.2, true⟩)
  else
    let r := checkWave info.tables tbl
    (r.1, { info with tables := r.2 })

/-- The loop of `check_color_chi` over the indices still to come; `tbl` is the run
being read. -/
def checkColorChiFrom (cards : ℕ → ℕ) (max : ℕ) : List ℕ → List ℕ → Info → Bool × Info
  | [], _, info => (true, info)
  | i :: is, tbl, info =>
    let count := cards i
    let tbl := if count > 0 then tbl ++ [count] else tbl
    if count = 0 ∨ i = max then
      if tbl = [] then checkColorChiFrom cards max is tbl info
      else
        match checkSub tbl info with
        | (false, info) => (false, info)
        | (true, info) => checkColorChiFrom cards max is [] info
    else checkColorChiFrom cards max is tbl info

/-- `check_color_chi`. -/
def checkColorChi (cards : ℕ → ℕ) (cfg : CardCfg) (info : Info) : Bool × Info :=
  checkColorChiFrom cards cfg.max cfg.indices [] info

/-- The body of the loop of `check_color`, for the count of one honour. -/
def checkColorCount (count : ℕ) (info : Info) : Bool × Info :=
  if count = 1 ∨ count = 4 then (false, info)
  else if count = 2 then
    if info.eye then (false, info) else (true, { info with eye := true })
  else (true, info)

/-- `check_color`. -/
def checkColor (cards : ℕ → ℕ) (cfg : CardCfg) (info : Info) : Bool × Info :=
  scanAll (fun i => checkColorCount (cards i)) cfg.indices info

/-- The hand as it is judged: `other_card`, when given, is added first. -/
def withCard (handCards : ℕ → ℕ) : Option ℕ → ℕ → ℕ
  | none => handCards
  | some c => Function.update handCards c (handCards c + 1)

/-- `get_hu_info`; `order` is the order in which `pairs` visits the colours. -/
def getHuInfo (order : List CardCfg) (w : Tables) (handCards : ℕ → ℕ) (otherCard : Option ℕ) :
    Bool × Tables :=
  let cards := withCard handCards otherCard
  let r := scanAll (fun cfg : CardCfg =>
    if cfg.chi then checkColorChi cards cfg else checkColor cards cfg) order ⟨w, false⟩
  (r.1, r.2.tables)

/-! ## Items -/

/-- What a scan of a hand looks at, one after the other. -/
inductive Item : Type where
  /-- a maximal run of a suit -/
  | run (tbl : List ℕ)
  /-- the count of an honour -/
  | zi (count : ℕ)

/-- The check of one item. -/
def checkItem : Item → Info → Bool × Info
  | .run tbl => checkSub tbl
  | .zi count => checkColorCount count

/-- The items of a colour. -/
def colourItems (cards : ℕ → ℕ) (cfg : CardCfg) : List Item :=
  if cfg.chi then (runs (cfg.counts cards)).map .run else (cfg.counts cards).map .zi

/-- The items of a hand, in the order in which they are visited. -/
def items (order : List CardCfg) (cards : ℕ → ℕ) : List Item :=
  order.flatMap (colourItems cards)

/-- The loop of `check_color_chi` checks the runs: each is handed over exactly
once, at the gap behind it or at the last index. -/
theorem checkColorChiFrom_eq (cards : ℕ → ℕ) (max : ℕ) {n i : ℕ} {tbl : List ℕ}
    (htbl : n = 0 → tbl = []) (hmax : i + n = max + 1) (info : Info) :
    checkColorChiFrom cards max (List.range' i n) tbl info =
      scanAll checkItem ((runsFrom tbl ((List.range' i n).map cards)).map .run) info := by
  induction n generalizing i tbl info with
  | zero =>
    rw [htbl rfl]
    rfl
  | succ n ih =>
    have hflush : ∀ tbl : List ℕ, tbl ≠ [] → ∀ info,
        (match checkSub tbl info with
        | (false, info) => (false, info)
        | (true, info) => checkColorChiFrom cards max (List.range' (i + 1) n) [] info) =
          scanAll checkItem ((tbl :: runsFrom [] ((List.range' (i + 1) n).map cards)).map .run)
            info := by
      intro tbl _ info
      rw [List.map_cons]
      rcases he : checkSub tbl info with ⟨_ | _, info'⟩
      · rw [scanAll_cons_false (f := checkItem) (by rw [checkItem, he]), checkItem, he]
      · have hrun : checkItem (.run tbl) info = (true, info') := by rw [checkItem, he]
        rw [scanAll_cons_true hrun]
        exact ih (fun _ => rfl) (by omega) info'
    rw [List.range'_succ, checkColorChiFrom, List.map_cons]
    rcases hc : cards i with _ | c
    · -- a gap: the run ends here
      simp only [runsFrom]
      by_cases htbl' : tbl = []
      · subst htbl'
        simpa using ih (fun _ => rfl) (by omega) info
      · simpa [htbl'] using hflush tbl htbl' info
    · -- a count above zero joins the run, which ends only at the last index
      simp only [runsFrom]
      by_cases hlast : i = max
      · obtain rfl : n = 0 := by omega
        simpa [hlast, runsFrom] using hflush (tbl ++ [c + 1]) (by simp) info
      · have hrest : checkColorChiFrom cards max (List.range' (i + 1) n) (tbl ++ [c + 1]) info =
            scanAll checkItem
              ((runsFrom (tbl ++ [c + 1]) ((List.range' (i + 1) n).map cards)).map .run) info :=
          ih (fun _ => by omega) (by omega) info
        simpa [hlast] using hrest

/-- Each colour is a scan of its items. -/
theorem checkColour_eq (cards : ℕ → ℕ) {cfg : CardCfg} (hcfg : cfg ∈ colours) (info : Info) :
    (if cfg.chi then checkColorChi cards cfg else checkColor cards cfg) info =
      scanAll checkItem (colourItems cards cfg) info := by
  have hle : cfg.min ≤ cfg.max + 1 := by
    rcases mem_colours.mp hcfg with rfl | rfl | rfl | rfl <;> simp
  have hn : cfg.max + 1 - cfg.min = 0 → ([] : List ℕ) = [] := fun _ => rfl
  cases hchi : cfg.chi with
  | true =>
    rw [colourItems, hchi]
    exact checkColorChiFrom_eq cards cfg.max hn (by omega) info
  | false =>
    rw [colourItems, hchi]
    simp only [Bool.false_eq_true, if_false, checkColor, CardCfg.counts, List.map_map]
    have hmap : ∀ is : List ℕ, ∀ info, scanAll (fun i => checkColorCount (cards i)) is info =
        scanAll checkItem (is.map (Item.zi ∘ cards)) info := by
      intro is
      induction is with
      | nil => exact fun _ => rfl
      | cons i is ih =>
        intro info
        rw [List.map_cons, scanAll, scanAll]
        simp only [ih]
        rfl
    exact hmap _ info

/-- **A call is one scan of the hand's items.** -/
theorem getHuInfo_eq_scan {order : List CardCfg} (horder : VisitOrder order) (w : Tables)
    (handCards : ℕ → ℕ) (otherCard : Option ℕ) :
    getHuInfo order w handCards otherCard =
      let r := scanAll checkItem (items order (withCard handCards otherCard)) ⟨w, false⟩
      (r.1, r.2.tables) := by
  have hcolour : ∀ cfg ∈ order, ∀ info,
      (if cfg.chi then checkColorChi (withCard handCards otherCard) cfg
        else checkColor (withCard handCards otherCard) cfg) info =
        scanAll checkItem (colourItems (withCard handCards otherCard) cfg) info :=
    fun cfg hcfg info => checkColour_eq _ (horder.mem_iff.mp hcfg) info
  have hscan := scanAll_flatMap hcolour ⟨w, false⟩
  rw [getHuInfo, hscan]
  rfl

end SlgServer.Base
