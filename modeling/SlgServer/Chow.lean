import SlgServer.Tiles

/-!
# Chow tests (`mjlib/base/mjlib.lua`, `mjlib/hubei_huanghuang/mjlib.lua`)

`can_chi` gets the indices of the two tiles that would make a sequence with the tile
on the table. It uses how many of a tile are held as an index of `CardDefine`; and in
`mjlib/base` the tables `CardDefine` and `CardType` are fields of the module, which
the bare names do not reach.

`can_chi_exact_iff`: the tests are right exactly when they do not look into the tables.

An operation is `none` where the program raises an error.
-/

namespace SlgServer.MjLib

/-! ## The tests -/

/-- `mjlib.CardDefine`. -/
def cardDefine : List ℕ :=
  [0x01, 0x02, 0x03, 0x04, 0x05, 0x06, 0x07, 0x08, 0x09,
    0x11, 0x12, 0x13, 0x14, 0x15, 0x16, 0x17, 0x18, 0x19,
    0x21, 0x22, 0x23, 0x24, 0x25, 0x26, 0x27, 0x28, 0x29,
    0x31, 0x32, 0x33, 0x34, 0x35, 0x36, 0x37]

/-- What the names `CardDefine` and `CardType` stand for in a file, `none` for `nil`. -/
structure Globals : Type where
  /-- `CardDefine` -/
  cardDefine : Option (List ℕ)
  /-- `CardType` -/
  cardType : Option (List (ℕ × CardCfg))

/-- In `mjlib/base/mjlib.lua` both are fields of `M` only. -/
def Globals.base : Globals := ⟨none, none⟩

/-- In `mjlib/hubei_huanghuang/mjlib.lua` both are locals. -/
def Globals.hubei : Globals := ⟨some MjLib.cardDefine, some SlgServer.cardType⟩

/-- `t[i]` of a Lua array, `none` for `nil`. -/
def index? (t : List ℕ) (i : ℤ) : Option ℕ := if 1 ≤ i then t[(i - 1).toNat]? else none

/-- `can_chi`. -/
def canChi (g : Globals) (handCards : List ℕ) (card1 card2 : ℤ) : Option Bool :=
  match index? handCards card1, index? handCards card2 with
  | some held1, some held2 =>
    if held1 = 0 ∨ held2 = 0 then some false
    else do
      let cardDefine ← g.cardDefine
      let color1 := (← index? cardDefine held1) &&& 0xf0
      let color2 := (← index? cardDefine held2) &&& 0xf0
      if color1 ≠ color2 then return false
      let cardType ← g.cardType
      let cfg ← cardType.lookup color1
      return cfg.chi
  | _, _ => some false

/-- `can_left_chi`. -/
def canLeftChi (g : Globals) (handCards : List ℕ) (card : ℤ) : Option Bool :=
  canChi g handCards (card + 1) (card + 2)

/-- `can_middle_chi`. -/
def canMiddleChi (g : Globals) (handCards : List ℕ) (card : ℤ) : Option Bool :=
  canChi g handCards (card - 1) (card + 1)

/-- `can_right_chi`. -/
def canRightChi (g : Globals) (handCards : List ℕ) (card : ℤ) : Option Bool :=
  canChi g handCards (card - 2) (card - 1)

/-! ## What a chow is -/

/-- The tile is held. -/
def Held (handCards : List ℕ) (i : ℤ) : Prop := ∃ c, index? handCards i = some c ∧ 1 ≤ c

/-- The tiles lie in one and the same suit. -/
def OneSuit (is : List ℤ) : Prop :=
  (∀ i ∈ is, 1 ≤ i ∧ i ≤ 9) ∨ (∀ i ∈ is, 10 ≤ i ∧ i ≤ 18) ∨ ∀ i ∈ is, 19 ≤ i ∧ i ≤ 27

/-- The tile `card` makes a sequence with two tiles that are held. -/
def Chow (handCards : List ℕ) (card card1 card2 : ℤ) : Prop :=
  OneSuit [card, card1, card2] ∧ Held handCards card1 ∧ Held handCards card2

/-- The test returns without raising, and returns true iff `P`. -/
def Answers (r : Option Bool) (P : Prop) : Prop := ∃ b, r = some b ∧ (b = true ↔ P)

/-! ## Where the tests are right -/

theorem index?_mem {t : List ℕ} {i : ℤ} {c : ℕ} (h : index? t i = some c) : c ∈ t := by
  rw [index?] at h
  split_ifs at h
  exact List.mem_of_getElem? h

/-- The count of a tile, one to four, is the index of a tile of the first suit. -/
theorem color_of_count {c : ℕ} (hc : 1 ≤ c ∧ c ≤ 4) :
    (index? cardDefine c).map (· &&& 0xf0) = some 0 := by
  obtain rfl | rfl | rfl | rfl : c = 1 ∨ c = 2 ∨ c = 3 ∨ c = 4 := by omega
  all_goals rfl

section Hand

variable {g : Globals} {handCards : List ℕ} {card1 card2 : ℤ}

/-- Without both tiles the tables are not looked into. -/
theorem canChi_of_not_held (h : ¬ (Held handCards card1 ∧ Held handCards card2)) :
    canChi g handCards card1 card2 = some false := by
  rw [canChi]
  rcases h₁ : index? handCards card1 with _ | held1
  · rfl
  rcases h₂ : index? handCards card2 with _ | held2
  · rfl
  have hzero : held1 = 0 ∨ held2 = 0 := by
    by_contra hne
    exact h ⟨⟨held1, h₁, by omega⟩, held2, h₂, by omega⟩
  simp only [if_pos hzero]

/-- With both the test raises: there is no table, or no colour with the code that is
looked up. -/
theorem canChi_of_held (hg : g = .base ∨ g = .hubei) (hle : ∀ c ∈ handCards, c ≤ 4)
    (h₁ : Held handCards card1) (h₂ : Held handCards card2) :
    canChi g handCards card1 card2 = none := by
  obtain ⟨held1, hindex1, hpos1⟩ := h₁
  obtain ⟨held2, hindex2, hpos2⟩ := h₂
  have hcolor1 := color_of_count ⟨hpos1, hle held1 (index?_mem hindex1)⟩
  have hcolor2 := color_of_count ⟨hpos2, hle held2 (index?_mem hindex2)⟩
  obtain ⟨code1, hcode1, hzero1⟩ := Option.map_eq_some_iff.mp hcolor1
  obtain ⟨code2, hcode2, hzero2⟩ := Option.map_eq_some_iff.mp hcolor2
  rw [canChi, hindex1, hindex2]
  simp only [if_neg (show ¬ (held1 = 0 ∨ held2 = 0) by omega)]
  rcases hg with rfl | rfl
  · rfl
  · have hnone : cardType.lookup 0 = none := rfl
    simp [Globals.hubei, hcode1, hcode2, hzero1, hzero2, hnone]

/-- The test is right iff it does not look into the tables. -/
theorem answers_canChi_iff (hg : g = .base ∨ g = .hubei) (hle : ∀ c ∈ handCards, c ≤ 4)
    (card : ℤ) :
    Answers (canChi g handCards card1 card2) (Chow handCards card card1 card2) ↔
      ¬ (Held handCards card1 ∧ Held handCards card2) := by
  by_cases h : Held handCards card1 ∧ Held handCards card2
  · rw [canChi_of_held hg hle h.1 h.2]
    refine iff_of_false ?_ (not_not.mpr h)
    rintro ⟨b, hb, -⟩
    cases hb
  · rw [canChi_of_not_held h]
    exact iff_of_true ⟨false, rfl, by simpa using fun hchow : Chow .. => h hchow.2⟩ h

end Hand

/-- **Where the chow tests are right.** Whatever the hand and the tile, each of the three
tests of each file returns, and returns the right answer, iff not both of the tiles that
would make the sequence are held; if both are, it raises. -/
theorem can_chi_exact_iff {g : Globals} (hg : g = .base ∨ g = .hubei) {handCards : List ℕ}
    (hle : ∀ c ∈ handCards, c ≤ 4) (card : ℤ) :
    (Answers (canLeftChi g handCards card) (Chow handCards card (card + 1) (card + 2)) ↔
        ¬ (Held handCards (card + 1) ∧ Held handCards (card + 2))) ∧
      (Answers (canMiddleChi g handCards card) (Chow handCards card (card - 1) (card + 1)) ↔
        ¬ (Held handCards (card - 1) ∧ Held handCards (card + 1))) ∧
      (Answers (canRightChi g handCards card) (Chow handCards card (card - 2) (card - 1)) ↔
        ¬ (Held handCards (card - 2) ∧ Held handCards (card - 1))) :=
  ⟨answers_canChi_iff hg hle card, answers_canChi_iff hg hle card, answers_canChi_iff hg hle card⟩

/-- A hand of one tile, the second of the first suit. -/
def oneTile : List ℕ := (List.replicate 34 0).set 1 1

/-- A hand of the second and the third tile of the first suit. -/
def twoTiles : List ℕ := oneTile.set 2 1

/-- The test is right about a hand with one of the two tiles. -/
theorem can_chi_exact_iff_oneTile :
    Answers (canLeftChi .hubei oneTile 1) (Chow oneTile 1 2 3) := by
  refine (can_chi_exact_iff (.inr rfl) (by decide) 1).1.mpr ?_
  rintro ⟨-, c, hc, hpos⟩
  obtain rfl : 0 = c := Option.some.inj hc
  omega

/-- The first tile of the first suit makes a sequence with the second and the third, and
both files raise. -/
theorem can_left_chi_raises :
    twoTiles.length = 34 ∧ (∀ c ∈ twoTiles, c ≤ 4) ∧ Chow twoTiles 1 2 3 ∧
      canLeftChi .base twoTiles 1 = none ∧ canLeftChi .hubei twoTiles 1 = none :=
  ⟨rfl, by decide, ⟨.inl (by decide), ⟨1, rfl, Nat.le_refl 1⟩, 1, rfl, Nat.le_refl 1⟩, rfl, rfl⟩

end SlgServer.MjLib
