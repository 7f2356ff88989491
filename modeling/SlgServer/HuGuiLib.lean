import SlgServer.GenGuiTable

/-!
# The checker with jokers (`mjlib/gui/huguilib.lua`)

The jokers are taken out of the hand. For each colour that is left the checker
lists how many jokers, with a pair or without, complete it (`listProbability`);
then it searches for one choice a colour that uses no more jokers than there are
and no more than one pair (`checkProbability`).

`checkProbability_iff`: for two colours and more the search, which works on one
shared `info` and undoes its changes, is exact.
-/

namespace SlgServer.HuGui

open Melds Scan Gui

/-! ## The tables -/

/-- `split_table`. -/
def splitTable : List CardCfg :=
  [⟨1, 9, true⟩, ⟨10, 18, true⟩, ⟨19, 27, true⟩, ⟨28, 34, false⟩]

section Tables

variable (order : List CardCfg)

/-- `check_table`, the files written by `gen_auto_gui_table.lua`; `order` is the
order in which `pairs` visited the colours when they were generated. -/
def checkTables : ℕ → Option (Finset ℕ)
  | 0 => some ((genGuiTable autoGui order).tables false 0)
  | 1 => some ((genGuiTable autoGui order).tables false 1)
  | 2 => some ((genGuiTable autoGui order).tables false 2)
  | 3 => some ((genGuiTable autoGui order).tables false 3)
  | 4 => some ((genGuiTable autoGui order).tables false 4)
  | _ => none

/-- `check_eye_table`. -/
def checkEyeTables : ℕ → Option (Finset ℕ)
  | 0 => some ((genGuiTable autoGui order).tables true 0)
  | 1 => some ((genGuiTable autoGui order).tables true 1)
  | 2 => some ((genGuiTable autoGui order).tables true 2)
  | 3 => some ((genGuiTable autoGui order).tables true 3)
  | 4 => some ((genGuiTable autoGui order).tables true 4)
  | _ => none

/-- `check_feng_table`, the files written by `gen_auto_feng_gui_table.lua`. -/
def checkFengTables : ℕ → Option (Finset ℕ)
  | 0 => some ((genGuiTable autoFengGui order).tables false 0)
  | 1 => some ((genGuiTable autoFengGui order).tables false 1)
  | 2 => some ((genGuiTable autoFengGui order).tables false 2)
  | 3 => some ((genGuiTable autoFengGui order).tables false 3)
  | 4 => some ((genGuiTable autoFengGui order).tables false 4)
  | _ => none

/-- `check_feng_eye_table`. -/
def checkFengEyeTables : ℕ → Option (Finset ℕ)
  | 0 => some ((genGuiTable autoFengGui order).tables true 0)
  | 1 => some ((genGuiTable autoFengGui order).tables true 1)
  | 2 => some ((genGuiTable autoFengGui order).tables true 2)
  | 3 => some ((genGuiTable autoFengGui order).tables true 3)
  -- the source has `require "three_gui_feng_eye_table"` here as well
  | 4 => some ((genGuiTable autoFengGui order).tables true 3)
  | _ => none

/-- `check_table`. -/
def checkTable (key guiNum : ℕ) (eye chi : Bool) : Bool :=
  let tbl :=
    if chi then if eye then checkEyeTables order guiNum else checkTables order guiNum
    else if eye then checkFengEyeTables order guiNum else checkFengTables order guiNum
  match tbl with
  | some tbl => decide (key ∈ tbl)
  | none => false

/-! ## One colour -/

/-- An entry of the lists of `list_probability`: a number of jokers for a colour,
and whether they make a pair there. -/
structure Choice : Type where
  /-- there is a pair -/
  eye : Bool
  /-- the jokers used -/
  guiNum : ℕ
  deriving DecidableEq

/-- One round of the loop of `list_probability`. -/
def probability (num key : ℕ) (chi : Bool) (i : ℕ) : Option Choice :=
  let yu := (num + i) % 3
  if yu = 0 then if checkTable order key i false chi then some ⟨false, i⟩ else none
  else if yu = 2 then if checkTable order key i true chi then some ⟨true, i⟩ else none
  else none

/-- `list_probability`. -/
def listProbability (guiNum num key : ℕ) (chi : Bool) : List Choice :=
  (List.range (guiNum + 1)).filterMap (probability order num key chi)

/-- The loop of `split_info` over the colours still to come; `none` is its
`return false`. -/
def splitInfoFrom (t : ℕ → ℕ) (guiNum : ℕ) : List CardCfg → Option (List (List Choice))
  | [] => some []
  | v :: vs =>
    let key := key (v.counts t)
    let num := (v.counts t).sum
    if num > 0 then
      let choices := listProbability order guiNum num key v.chi
      if choices.length = 0 then none
      else (splitInfoFrom t guiNum vs).map (choices :: ·)
    else splitInfoFrom t guiNum vs

/-- `split_info`. -/
def splitInfo (t : ℕ → ℕ) (guiNum : ℕ) : Option (List (List Choice)) :=
  splitInfoFrom order t guiNum splitTable

end Tables

/-! ## The search -/

/-- The table `info` of `check_probability_sub`. -/
structure Info : Type where
  /-- a pair has been chosen -/
  eye : Bool
  /-- the jokers left -/
  guiNum : ℕ
  deriving DecidableEq

/-- The body of the loop of `check_probability_sub`; `sub` is the call for the next
level, which there is unless this is the `last`. -/
def checkChoice (sub : Info → Bool × Info) (last : Bool) (v : Choice) (info : Info) : Bool × Info :=
  if info.eye && v.eye then (false, info)
  else if info.guiNum < v.guiNum then (false, info)
  else if !last then
    let oldEye := info.eye
    match sub ⟨oldEye || v.eye, info.guiNum - v.guiNum⟩ with
    | (true, info) => (true, info)
    | (false, info) => (false, ⟨oldEye, info.guiNum + v.guiNum⟩)
  else if !info.eye && !v.eye && decide (info.guiNum < 2 + v.guiNum) then (false, info)
  else (true, info)

/-- `check_probability_sub` for the colours from `level` on. -/
def checkProbabilitySub : List (List Choice) → Info → Bool × Info
  | [], info => (false, info)
  | choices :: rest, info =>
    scanAny (checkChoice (checkProbabilitySub rest) rest.isEmpty) choices info

/-- `check_probability`. -/
def checkProbability (splited : List (List Choice)) (guiNum : ℕ) : Bool :=
  match splited with
  | [] => true
  | [_] => true
  | choices :: rest =>
    choices.any fun v => (checkProbabilitySub rest ⟨v.eye, guiNum - v.guiNum⟩).1

/-- `get_hu_info`; it does not look at `waves`. -/
def getHuInfo (order : List CardCfg) (handCards : ℕ → ℕ) (guiIndex : ℕ) : Bool :=
  let guiNum := handCards guiIndex
  match splitInfo order (Function.update handCards guiIndex 0) guiNum with
  | none => false
  | some splited => checkProbability splited guiNum

/-! ## The search is exact -/

/-- One choice a colour: how many pairs there are among them. -/
def eyes (vs : List Choice) : ℕ := (vs.map fun v => v.eye.toNat).sum

/-- The jokers of one choice a colour. -/
def jokers (vs : List Choice) : ℕ := (vs.map Choice.guiNum).sum

/-- One choice a colour fits into what is left: no second pair, enough jokers, and
two more for the pair if there is none. -/
def Fits (info : Info) (vs : List Choice) : Prop :=
  info.eye.toNat + eyes vs ≤ 1 ∧ jokers vs ≤ info.guiNum ∧
    (info.eye.toNat + eyes vs = 0 → jokers vs + 2 ≤ info.guiNum)

/-- One choice a colour, from the lists. -/
def Picks (vs : List Choice) (splited : List (List Choice)) : Prop :=
  List.Forall₂ (· ∈ ·) vs splited

/-- A choice that leaves room for a pair and jokers may be made first. -/
theorem fits_cons {info : Info} {v : Choice} {vs : List Choice}
    (heye : (info.eye && v.eye) = false) (hnum : v.guiNum ≤ info.guiNum) :
    Fits info (v :: vs) ↔ Fits ⟨info.eye || v.eye, info.guiNum - v.guiNum⟩ vs := by
  have heyes : info.eye.toNat + eyes (v :: vs) = (info.eye || v.eye).toNat + eyes vs := by
    rw [eyes, List.map_cons, List.sum_cons]
    cases hi : info.eye <;> cases hv : v.eye
    · simp [eyes]
    · simp [eyes]
    · simp [eyes]
    · rw [hi, hv] at heye
      cases heye
  have hjokers : jokers (v :: vs) = v.guiNum + jokers vs := rfl
  simp only [Fits, heyes, hjokers]
  omega

/-- What fits has no second pair, and not too many jokers. -/
theorem Fits.head {info : Info} {v : Choice} {vs : List Choice} (h : Fits info (v :: vs)) :
    (info.eye && v.eye) = false ∧ v.guiNum ≤ info.guiNum := by
  obtain ⟨heyes, hjokers, -⟩ := h
  simp only [eyes, jokers, List.map_cons, List.sum_cons] at heyes hjokers
  refine ⟨?_, by omega⟩
  cases hi : info.eye <;> cases hv : v.eye
  · rfl
  · rfl
  · rfl
  · rw [hi, hv] at heyes
    simp only [Bool.toNat_true] at heyes
    omega

theorem checkChoice_undoes {sub : Info → Bool × Info} (hsub : Undoes sub) (last : Bool)
    (v : Choice) : Undoes (checkChoice sub last v) := by
  intro info h
  simp only [checkChoice] at h ⊢
  have hundo := hsub ⟨info.eye || v.eye, info.guiNum - v.guiNum⟩
  rcases he : sub ⟨info.eye || v.eye, info.guiNum - v.guiNum⟩ with ⟨_ | _, info'⟩
  · rw [he] at hundo
    obtain rfl : info' = _ := hundo rfl
    split_ifs with heye hfew hlast
    · rfl
    · rfl
    · have hsum : info.guiNum - v.guiNum + v.guiNum = info.guiNum := by omega
      simp only [hsum]
    · rfl
    · rfl
  · rw [he] at h
    split_ifs at h ⊢ <;> rfl

/-- At the last level. -/
theorem checkChoice_last {sub : Info → Bool × Info} {v : Choice} {info : Info} :
    (checkChoice sub true v info).1 = true ↔ Fits info [v] := by
  obtain ⟨eye, guiNum⟩ := info
  obtain ⟨eye', guiNum'⟩ := v
  simp only [checkChoice, Fits, eyes, jokers, List.map_cons, List.map_nil, List.sum_cons,
    List.sum_nil]
  by_cases hfew : guiNum < guiNum'
  · cases eye <;> cases eye' <;> simp [hfew]
  · by_cases hpair : guiNum < 2 + guiNum'
    · cases eye <;> cases eye' <;> simp [hfew, hpair] <;> omega
    · cases eye <;> cases eye' <;> simp [hfew, hpair] <;> omega

/-- Before the last level. -/
theorem checkChoice_next {sub : Info → Bool × Info} {P : List Choice → Prop}
    (hsub : ∀ info, (sub info).1 = true ↔ ∃ vs, P vs ∧ Fits info vs) {v : Choice} {info : Info} :
    (checkChoice sub false v info).1 = true ↔ ∃ vs, P vs ∧ Fits info (v :: vs) := by
  have hnone : ((info.eye && v.eye) = true ∨ info.guiNum < v.guiNum) →
      ¬ ∃ vs, P vs ∧ Fits info (v :: vs) := by
    rintro h ⟨vs, -, hfits⟩
    obtain ⟨heye, hnum⟩ := hfits.head
    rcases h with h | h
    · rw [heye] at h
      cases h
    · omega
  simp only [checkChoice]
  split_ifs with heye hfew hlast
  · exact iff_of_false (by simp) (hnone (.inl heye))
  · exact iff_of_false (by simp) (hnone (.inr hfew))
  · have hsub' := hsub ⟨info.eye || v.eye, info.guiNum - v.guiNum⟩
    simp only [fits_cons (Bool.eq_false_of_not_eq_true heye) (Nat.le_of_not_lt hfew), ← hsub']
    rcases sub ⟨info.eye || v.eye, info.guiNum - v.guiNum⟩ with ⟨_ | _, info'⟩ <;> rfl
  all_goals exact absurd rfl hlast

/-- `check_probability_sub` looks for choices that fit, and leaves `info` as it was
if there are none. -/
theorem checkProbabilitySub_spec {splited : List (List Choice)} (hne : splited ≠ []) :
    Undoes (checkProbabilitySub splited) ∧ ∀ info, (checkProbabilitySub splited info).1 = true ↔
      ∃ vs, Picks vs splited ∧ Fits info vs := by
  induction splited with
  | nil => exact absurd rfl hne
  | cons choices rest ih =>
    simp only [Picks, List.forall₂_cons_right_iff]
    cases rest with
    | nil =>
      have hundoes : ∀ v ∈ choices, Undoes (checkChoice (checkProbabilitySub []) true v) :=
        fun v _ => checkChoice_undoes (fun _ _ => rfl) true v
      refine ⟨scanAny_undoes hundoes, fun info => ?_⟩
      rw [checkProbabilitySub]
      refine (scanAny_iff hundoes).trans ?_
      simp only [checkChoice_last, List.forall₂_nil_right_iff]
      refine ⟨?_, ?_⟩
      · rintro ⟨v, hv, hfits⟩
        exact ⟨[v], ⟨v, [], hv, rfl, rfl⟩, hfits⟩
      · rintro ⟨_, ⟨v, _, hv, rfl, rfl⟩, hfits⟩
        exact ⟨v, hv, hfits⟩
    | cons choices' rest =>
      obtain ⟨hundo, hspec⟩ := ih (by simp)
      have hundoes : ∀ v ∈ choices,
          Undoes (checkChoice (checkProbabilitySub (choices' :: rest)) false v) :=
        fun v _ => checkChoice_undoes hundo false v
      refine ⟨scanAny_undoes hundoes, fun info => ?_⟩
      rw [checkProbabilitySub]
      refine (scanAny_iff hundoes).trans ?_
      simp only [checkChoice_next hspec]
      refine ⟨?_, ?_⟩
      · rintro ⟨v, hv, vs, hvs, hfits⟩
        exact ⟨v :: vs, ⟨v, vs, hv, hvs, rfl⟩, hfits⟩
      · rintro ⟨_, ⟨v, vs, hv, hvs, rfl⟩, hfits⟩
        exact ⟨v, hv, vs, hvs, hfits⟩

/-- **The search is exact**: with two colours or more, `check_probability` succeeds iff
one choice a colour can be made with one pair at most, no more jokers than there
are, and two of them left if there is no pair. -/
theorem checkProbability_iff {splited : List (List Choice)} {guiNum : ℕ}
    (hlen : 2 ≤ splited.length) (hnum : ∀ choices ∈ splited, ∀ v ∈ choices, v.guiNum ≤ guiNum) :
    checkProbability splited guiNum = true ↔
      ∃ vs, Picks vs splited ∧ Fits ⟨false, guiNum⟩ vs := by
  match splited, hlen with
  | choices :: choices' :: rest, _ =>
    have hspec := (checkProbabilitySub_spec (List.cons_ne_nil choices' rest)).2
    simp only [checkProbability, List.any_eq_true, hspec]
    refine ⟨?_, ?_⟩
    · rintro ⟨v, hv, vs, hvs, hfits⟩
      have hle := hnum choices (List.mem_cons_self ..) v hv
      exact ⟨v :: vs, .cons hv hvs, (fits_cons rfl hle).mpr hfits⟩
    · rintro ⟨_, hpicks, hfits⟩
      cases hpicks with
      | cons hv hvs => exact ⟨_, hv, _, hvs, (fits_cons rfl hfits.head.2).mp hfits⟩

/-- The shortcuts for no colour and for one agree with the search where a pair can
always be made of the jokers left. -/
theorem checkProbability_iff_of_left {splited : List (List Choice)} {guiNum : ℕ}
    (hlists : ∀ choices ∈ splited, choices ≠ [] ∧ ∀ v ∈ choices, v.guiNum ≤ guiNum)
    (hleft : ∀ vs, Picks vs splited → eyes vs = 0 → jokers vs ≤ guiNum → jokers vs + 2 ≤ guiNum) :
    checkProbability splited guiNum = true ↔
      ∃ vs, Picks vs splited ∧ eyes vs ≤ 1 ∧ jokers vs ≤ guiNum := by
  match splited with
  | [] => exact iff_of_true rfl ⟨[], .nil, Nat.zero_le _, Nat.zero_le _⟩
  | [choices] =>
    obtain ⟨hne, hnum⟩ := hlists choices (List.mem_singleton_self choices)
    obtain ⟨v, hv⟩ := List.exists_mem_of_ne_nil choices hne
    exact iff_of_true rfl ⟨[v], .cons hv .nil, Bool.toNat_le v.eye, hnum v hv⟩
  | choices :: choices' :: rest =>
    rw [checkProbability_iff (by simp) fun c hc => (hlists c hc).2]
    refine exists_congr fun vs => and_congr_right fun hvs => ?_
    have hvs := hleft vs hvs
    simp only [Fits, Bool.toNat_false, Nat.zero_add]
    exact ⟨fun ⟨he, hk, _⟩ => ⟨he, hk⟩, fun ⟨he, hk⟩ => ⟨he, hk, fun h0 => hvs h0 hk⟩⟩

end SlgServer.HuGui
