import Mathlib.Data.Nat.Notation
import Mathlib.Logic.Function.Basic
import Mathlib.Data.List.Basic
import Mathlib.Data.List.Range
import Mathlib.Data.Int.Notation

/-!
# The match (`service/area/match.lua`)

A match deals 13 tiles of the wall to each of four seats; then the active seat
draws and discards. Dealing fills the field `stand_cards` of a seat and counts
down `cards_num`; `get_card` and `out_card` work on `stand_card` and `card_num`,
which nothing assigns. Each of the four fields is modelled, the two last as what
they are, `none` for `nil`.

An operation is `none` where the program raises an error.
-/

namespace SlgServer

/-- `mjlib.create` (`mjlib/base/mjlib.lua`): four copies of each kind, with the honours
if `zi`. -/
def create (zi : Bool) : List ℕ :=
  let num := 3 * 9
  let num := if zi then num + 7 else num
  (List.range' 1 num).flatMap fun i => List.replicate 4 i

namespace Match

/-- `t[i]` of a Lua array, `none` for `nil`. -/
def at? (t : List ℕ) (i : ℕ) : Option ℕ := if i = 0 then none else t[i - 1]?

/-- `t[i] = t[i] + 1`, which raises an error where `t[i]` is `nil`. -/
def incr (t : List ℕ) (i : ℕ) : Option (List ℕ) := (at? t i).map fun c => t.set (i - 1) (c + 1)

/-- What is kept for a seat. -/
structure Player : Type where
  /-- `seat` -/
  seat : ℕ
  /-- `stand_cards`: how many tiles of each kind the seat holds -/
  standCards : List ℕ
  /-- `stand_card`, which nothing assigns -/
  standCard : Option (ℕ → Option ℤ)
  /-- `cards`, which nothing assigns -/
  cards : Option (List ℕ)

/-- The messages a match sends to its seats. -/
structure Msg : Type where
  /-- the seat -/
  seat : ℕ
  /-- the name of the protocol -/
  protoName : String
  /-- `msg.cards` -/
  cards : Option (List ℕ)

/-- A match. -/
structure State : Type where
  /-- `cards`: the wall, and the tiles dealt from it -/
  cards : List ℕ
  /-- `cards_num`: how many of them are the wall -/
  cardsNum : ℕ
  /-- `card_num`, which nothing assigns but `get_card` -/
  cardNum : Option ℕ
  /-- `active_seat` -/
  activeSeat : ℕ
  /-- `players` -/
  players : ℕ → Option Player
  /-- `status` -/
  status : Option String
  /-- what was passed to `room:send_client` -/
  sent : List Msg

/-- `init_player`. -/
def initPlayer (i : ℕ) : Player := ⟨i, [], none, none⟩

/-- The seats of the loops `for i=1,4`. -/
def seats : List ℕ := [1, 2, 3, 4]

/-- `init`. -/
def init : State where
  cards := []
  cardsNum := 0
  cardNum := none
  activeSeat := 1
  players i := if i ∈ seats then some (initPlayer i) else none
  status := none
  sent := []

/-- The second loop of `dealt_card`: the tiles at the places `ps` go into `tbl`. -/
def dealTiles (cards : List ℕ) (ps : List ℕ) (tbl : List ℕ) : Option (List ℕ) :=
  ps.foldlM (fun tbl p => do incr tbl (← at? cards p)) tbl

/-- `dealt_card`: the new `cards_num` and the hand. Places below 1 hold nothing, so
taking more than there is raises an error. -/
def dealtCard (cards : List ℕ) (cardsNum : ℕ) (tbl : List ℕ) (num : ℕ) : Option (ℕ × List ℕ) :=
  if cardsNum < num then none
  else
    let cardsNum := cardsNum - num
    (dealTiles cards (List.range' (cardsNum + 1) num) (tbl ++ List.replicate 34 0)).map
      fun tbl => (cardsNum, tbl)

/-- One round of the dealing loop of `begin`. -/
def dealSeat (m : State) (i : ℕ) : Option State := do
  let player ← m.players i
  let (cardsNum, tbl) ← dealtCard m.cards m.cardsNum player.standCards 13
  return { m with
    cardsNum := cardsNum
    players := Function.update m.players i (some { player with standCards := tbl }) }

/-- One round of the telling loop of `begin`. -/
def tellSeat (m : State) (i : ℕ) : Option State := do
  let player ← m.players i
  return { m with sent := m.sent ++ [⟨i, "match.dealt", player.cards⟩] }

/-- `begin`, from the point where `cards` holds the wall. -/
def beginWith (cards : List ℕ) (m : State) : Option State := do
  let m ← seats.foldlM dealSeat { m with cards := cards, cardsNum := cards.length }
  seats.foldlM tellSeat { m with status := some "dealt" }

/-- `begin`. -/
def begin (m : State) : Option State := beginWith (create true) m

/-- `get_card`. -/
def getCard (m : State) : Option State := do
  let player ← m.players m.activeSeat
  -- `self.cards[nil]` is `nil`, but `player.stand_card[card]` raises an error
  let card := m.cardNum.bind (at? m.cards)
  let standCard ← player.standCard
  let card ← card
  let count ← standCard card
  let cardNum ← m.cardNum
  let player := { player with
    standCard := some (Function.update standCard card (some (count + 1))) }
  return { m with
    players := Function.update m.players m.activeSeat (some player)
    cardNum := some (cardNum - 1) }

/-- `out_card`. -/
def outCard (card : ℕ) (m : State) : Option State := do
  let player ← m.players m.activeSeat
  let standCard ← player.standCard
  let count ← standCard card
  let player := { player with
    standCard := some (Function.update standCard card (some (count - 1))) }
  return { m with
    players := Function.update m.players m.activeSeat (some player)
    status := some "out_card" }

/-! ## What dealing does -/

/-- How many tiles of each kind there are among `s`, as a hand. -/
def tally (s : List ℕ) : List ℕ := (List.range' 1 34).map fun k => s.count k

/-- The tiles a seat is dealt: the `i`-th 13 from the end. -/
def piece (cards : List ℕ) (i : ℕ) : List ℕ := (cards.drop (cards.length - 13 * i)).take 13

theorem incr_eq {t : List ℕ} {i : ℕ} (hi : 1 ≤ i ∧ i ≤ t.length) :
    incr t i = some (t.mapIdx fun j c => c + if j + 1 = i then 1 else 0) := by
  obtain ⟨j, rfl⟩ : ∃ j, i = j + 1 := ⟨i - 1, by omega⟩
  have hj : j < t.length := by omega
  rw [incr, at?, if_neg (Nat.succ_ne_zero j), Nat.add_sub_cancel, List.getElem?_eq_getElem hj,
    Option.map_some, Option.some.injEq]
  apply List.ext_getElem?
  intro k
  rw [List.getElem?_set, List.getElem?_mapIdx]
  by_cases hkj : j = k
  · subst hkj
    simp [hj]
  · have hne : ¬ k + 1 = j + 1 := fun h => hkj (Nat.succ.inj h).symm
    simp only [if_neg hkj, if_neg hne, Nat.add_zero, Option.map_id']

/-- Tiles put into a hand one after the other. -/
theorem foldlM_incr {cs t : List ℕ} (hcs : ∀ c ∈ cs, 1 ≤ c ∧ c ≤ t.length) :
    cs.foldlM incr t = some (t.mapIdx fun j c => c + cs.count (j + 1)) := by
  induction cs generalizing t with
  | nil =>
    exact congrArg some (List.mapIdx_eq_iff.mpr fun i => by simp).symm
  | cons c cs ih =>
    obtain ⟨hc, hcs⟩ := List.forall_mem_cons.mp hcs
    rw [List.foldlM_cons, incr_eq hc, Option.bind_eq_bind, Option.bind_some,
      ih (by simpa using hcs), List.mapIdx_mapIdx]
    congr 2
    funext j d
    simp only [Function.comp_apply, List.count_cons, beq_iff_eq, eq_comm (a := c), Nat.add_assoc,
      Nat.add_comm]

theorem dealTiles_eq {cards ps cs : List ℕ} (h : ps.map (at? cards) = cs.map some)
    (tbl : List ℕ) : dealTiles cards ps tbl = cs.foldlM incr tbl := by
  induction ps generalizing cs tbl with
  | nil =>
    obtain rfl := List.map_eq_nil_iff.mp h.symm
    rfl
  | cons p ps ih =>
    obtain _ | ⟨c, cs⟩ := cs
    · cases h
    · obtain ⟨hp, hps⟩ := List.cons.inj h
      rw [List.foldlM_cons, dealTiles, List.foldlM_cons, hp]
      exact congrArg (Option.bind (incr tbl c)) (funext (ih hps))

/-- `dealt_card` puts the last `num` tiles of the wall into the hand. -/
theorem dealtCard_eq {cards : List ℕ} {n num : ℕ} (hlen : n + num ≤ cards.length) (tbl : List ℕ) :
    dealtCard cards (n + num) tbl num =
      (((cards.drop n).take num).foldlM incr (tbl ++ List.replicate 34 0)).map
        fun tbl => (n, tbl) := by
  have hplaces : (List.range' (n + 1) num).map (at? cards) =
      ((cards.drop n).take num).map some := by
    apply List.ext_getElem?
    intro i
    rw [List.getElem?_map, List.getElem?_map, List.getElem?_take, List.getElem?_drop]
    by_cases hi : i < num
    · have hat : at? cards (n + 1 + 1 * i) = cards[n + i]? := by
        rw [at?, if_neg (by omega)]
        congr 1
        omega
      rw [List.getElem?_range' hi, if_pos hi, Option.map_some, hat,
        List.getElem?_eq_getElem (by omega), Option.map_some]
    · rw [if_neg hi, List.getElem?_eq_none (by simpa using hi)]
      rfl
  rw [dealtCard, if_neg (by omega), Nat.add_sub_cancel]
  simp only [dealTiles_eq hplaces]

/-- Tiles put into an empty hand. -/
theorem foldlM_incr_tally {cs : List ℕ} (hcs : ∀ c ∈ cs, 1 ≤ c ∧ c ≤ 34) :
    cs.foldlM incr (List.replicate 34 0) = some (tally cs) := by
  rw [foldlM_incr (by simpa using hcs)]
  refine congrArg some (List.ext_getElem? fun i => ?_)
  rw [List.getElem?_mapIdx, List.getElem?_replicate, tally, List.getElem?_map]
  by_cases hi : i < 34
  · rw [if_pos hi, List.getElem?_range' hi]
    simp [Nat.add_comm]
  · rw [if_neg hi, List.getElem?_eq_none (by simpa using hi)]
    rfl

theorem at?_tally (s : List ℕ) {k : ℕ} (hk : 1 ≤ k ∧ k ≤ 34) :
    at? (tally s) k = some (s.count k) := by
  have hindex : 1 + 1 * (k - 1) = k := by omega
  rw [at?, if_neg (by omega), tally, List.getElem?_map, List.getElem?_range' (by omega),
    Option.map_some, hindex]

/-- `dealt_card` on an empty hand. -/
theorem dealtCard_nil {cards : List ℕ} (hcards : ∀ c ∈ cards, 1 ≤ c ∧ c ≤ 34) {n num : ℕ}
    (hlen : n + num ≤ cards.length) :
    dealtCard cards (n + num) [] num = some (n, tally ((cards.drop n).take num)) := by
  have hdrop : ∀ c ∈ (cards.drop n).take num, 1 ≤ c ∧ c ≤ 34 :=
    fun c hc => hcards c (List.mem_of_mem_drop (List.mem_of_mem_take hc))
  rw [dealtCard_eq hlen, List.nil_append, foldlM_incr_tally hdrop]
  rfl

/-- One seat is dealt its piece. -/
theorem dealSeat_eq {m : State} {i n : ℕ} {player : Player}
    (hcards : ∀ c ∈ m.cards, 1 ≤ c ∧ c ≤ 34) (hlen : n + 13 ≤ m.cards.length)
    (hn : m.cardsNum = n + 13) (hplayer : m.players i = some player)
    (hempty : player.standCards = []) :
    dealSeat m i = some { m with
      cardsNum := n
      players := Function.update m.players i
        (some { player with standCards := tally ((m.cards.drop n).take 13) }) } := by
  rw [dealSeat, hplayer, Option.bind_eq_bind, Option.bind_some, hn, hempty,
    dealtCard_nil hcards hlen]
  rfl

/-- A seat that was dealt its piece. -/
def dealtPlayer (cards : List ℕ) (i : ℕ) : Player :=
  { initPlayer i with standCards := tally (piece cards i) }

/-- The match when the first `j` seats have been dealt their pieces. -/
def dealtTo (cards : List ℕ) (j : ℕ) : State :=
  { init with
    cards := cards
    cardsNum := cards.length - 13 * j
    players := fun i =>
      if i ∈ seats then some (if i ≤ j then dealtPlayer cards i else initPlayer i) else none }

theorem dealSeat_dealtTo {cards : List ℕ} (hcards : ∀ c ∈ cards, 1 ≤ c ∧ c ≤ 34) {j : ℕ}
    (hj : j < 4) (hlen : 13 * (j + 1) ≤ cards.length) :
    dealSeat (dealtTo cards j) (j + 1) = some (dealtTo cards (j + 1)) := by
  have hseat : j + 1 ∈ seats := by
    simp only [seats, List.mem_cons, List.not_mem_nil, or_false]
    omega
  have hplayer : (dealtTo cards j).players (j + 1) = some (initPlayer (j + 1)) := by
    simp [dealtTo, hseat]
  rw [dealSeat_eq (m := dealtTo cards j) (n := cards.length - 13 * (j + 1)) hcards
    (by simp only [dealtTo]; omega) (by simp only [dealtTo]; omega) hplayer rfl]
  congr 1
  rw [dealtTo, dealtTo, State.mk.injEq]
  refine ⟨rfl, rfl, rfl, rfl, funext fun i => ?_, rfl, rfl⟩
  by_cases hi : i = j + 1
  · subst hi
    simp [hseat, dealtPlayer, piece]
  · have hle : i ≤ j + 1 ↔ i ≤ j := by omega
    simp only [Function.update_of_ne hi, hle]

/-- The match when `begin` is done. -/
def begun (cards : List ℕ) : State :=
  { dealtTo cards 4 with
    status := some "dealt"
    sent := seats.map fun i => ⟨i, "match.dealt", none⟩ }

/-- **The deal.** From a wall of 52 tiles at least, each seat gets its piece. -/
theorem beginWith_init {cards : List ℕ} (hcards : ∀ c ∈ cards, 1 ≤ c ∧ c ≤ 34)
    (hlen : 52 ≤ cards.length) : beginWith cards init = some (begun cards) := by
  have hstart : { init with cards := cards, cardsNum := cards.length } = dealtTo cards 0 := by
    rw [dealtTo, init, State.mk.injEq]
    refine ⟨rfl, rfl, rfl, rfl, funext fun i => ?_, rfl, rfl⟩
    by_cases hi : i ∈ seats
    · have hpos : ¬ i ≤ 0 := by
        rintro h
        obtain rfl := Nat.le_zero.mp h
        revert hi
        decide
      simp only [if_pos hi, if_neg hpos]
    · simp only [if_neg hi]
  rw [beginWith, hstart]
  have hdeal : seats.foldlM dealSeat (dealtTo cards 0) = some (dealtTo cards 4) := by
    simp only [seats, List.foldlM_cons, List.foldlM_nil]
    rw [dealSeat_dealtTo hcards (by omega) (by omega), Option.bind_eq_bind, Option.bind_some,
      dealSeat_dealtTo hcards (by omega) (by omega), Option.bind_some,
      dealSeat_dealtTo hcards (by omega) (by omega), Option.bind_some,
      dealSeat_dealtTo hcards (by omega) (by omega)]
    rfl
  rw [hdeal]
  rfl

end Match

end SlgServer
