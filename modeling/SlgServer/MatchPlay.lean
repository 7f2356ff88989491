import SlgServer.Match
import Mathlib.Algebra.Ring.Nat

/-!
# Playing a match

After the deal the active seat draws and discards. What that should do is
`Plays`: a draw moves the last tile of the wall into the hand, a discard takes a
tile out of it, nothing else changes, and the tiles of each kind stay four in
all.

`begin` meets this (`conserved_begun`). But `get_card` and `out_card` look for the
hand in `stand_card`, where `begin` put none, and raise an error every time
(`plays_iff`).
-/

namespace SlgServer.Match

/-! ## What playing should do -/

/-- The tiles of kind `k` in the hand of seat `i`. -/
def held (m : State) (i k : ℕ) : ℕ := ((m.players i).bind fun p => at? p.standCards k).getD 0

/-- The wall: the tiles not yet taken. -/
def wall (m : State) : List ℕ := m.cards.take m.cardsNum

/-- There are four tiles of each kind, in the hands, in the wall and among the
discards `ds`. -/
def Conserved (m : State) (ds : List ℕ) : Prop :=
  ∀ k, 1 ≤ k ∧ k ≤ 34 →
    (seats.map fun i => held m i k).sum + (wall m).count k + ds.count k = 4

/-- A call in the course of a match. -/
inductive Call : Type where
  /-- `get_card()` -/
  | getCard
  /-- `out_card(card)` -/
  | outCard (card : ℕ)

/-- The calls that make sense: there is a tile to draw, or the active seat holds the
tile. -/
def Allowed (m : State) : Call → Prop
  | .getCard => wall m ≠ []
  | .outCard card => 0 < held m m.activeSeat card

/-- What a call does. -/
def call : Call → State → Option State
  | .getCard, m => getCard m
  | .outCard card, m => outCard card m

/-- What a call should do: the last tile of the wall moves into the active seat's
hand, or one copy of the tile goes out of it; all else stays. -/
def Moves (m m' : State) : Call → Prop
  | .getCard => ∃ card, wall m = wall m' ++ [card] ∧
      ∀ i k, held m' i k = held m i k + if i = m.activeSeat ∧ k = card then 1 else 0
  | .outCard card => wall m' = wall m ∧
      ∀ i k, held m i k = held m' i k + if i = m.activeSeat ∧ k = card then 1 else 0

/-- The discards after a call. -/
def discards (ds : List ℕ) : Call → List ℕ
  | .getCard => ds
  | .outCard card => card :: ds

/-- The calls are played out as they should be, the discards so far being `ds`, up to
the first that makes no sense. -/
def Plays (m : State) (ds : List ℕ) : List Call → Prop
  | [] => Conserved m ds
  | c :: cs => Conserved m ds ∧
      (Allowed m c → ∃ m', call c m = some m' ∧ Moves m m' c ∧ Plays m' (discards ds c) cs)

/-! ## What it does -/

theorem held_begun (cards : List ℕ) {i k : ℕ} (hi : i ∈ seats) (hk : 1 ≤ k ∧ k ≤ 34) :
    held (begun cards) i k = (piece cards i).count k := by
  have hle : i ≤ 4 := by
    simp only [seats, List.mem_cons, List.not_mem_nil, or_false] at hi
    omega
  simp [held, begun, dealtTo, hi, hle, dealtPlayer, at?_tally _ hk]

/-- The pieces are what the deal takes off the wall. -/
theorem take_append_pieces {cards : List ℕ} (hlen : 52 ≤ cards.length) :
    cards.take (cards.length - 52) ++
      (piece cards 4 ++ (piece cards 3 ++ (piece cards 2 ++ piece cards 1))) = cards := by
  have hlast : piece cards 1 = cards.drop (cards.length - 13) := by
    rw [piece, List.take_of_length_le (by rw [List.length_drop]; omega)]
  have hpiece : ∀ i, 1 ≤ i → i ≤ 4 → piece cards i ++ cards.drop (cards.length - 13 * (i - 1)) =
      cards.drop (cards.length - 13 * i) := by
    intro i hi hi'
    have hdrop : cards.drop (cards.length - 13 * (i - 1)) =
        (cards.drop (cards.length - 13 * i)).drop 13 := by
      rw [List.drop_drop]
      congr 1
      omega
    rw [hdrop, piece, List.take_append_drop]
  rw [hlast, hpiece 2 (by omega) (by omega), hpiece 3 (by omega) (by omega),
    hpiece 4 (by omega) (by omega), List.take_append_drop]

theorem count_create {k : ℕ} (hk : 1 ≤ k ∧ k ≤ 34) : (create true).count k = 4 := by
  have hall : ∀ k ∈ List.range' 1 34, (create true).count k = 4 := by decide
  exact hall k (List.mem_range'_1.mpr (by omega))

theorem length_create : (create true).length = 136 := by decide +kernel

theorem mem_create {k : ℕ} (hk : k ∈ create true) : 1 ≤ k ∧ k ≤ 34 := by
  obtain ⟨i, hi, hk⟩ := List.mem_flatMap.mp hk
  obtain ⟨-, rfl⟩ := List.mem_replicate.mp hk
  have hrange := List.mem_range'_1.mp hi
  simp only [if_true] at hrange
  omega

/-- The deal goes through, whatever the order of the wall. -/
theorem beginWith_perm {cards : List ℕ} (hcards : cards.Perm (create true)) :
    beginWith cards init = some (begun cards) := by
  have hlen : cards.length = 136 := hcards.length_eq.trans length_create
  exact beginWith_init (fun c hc => mem_create (hcards.mem_iff.mp hc)) (by omega)

/-- **The deal conserves the tiles**, whatever the order of the wall. -/
theorem conserved_begun {cards : List ℕ} (hcards : cards.Perm (create true)) :
    Conserved (begun cards) [] := by
  intro k hk
  have hlen : cards.length = 136 := hcards.length_eq.trans length_create
  have hcount : cards.count k = 4 := by
    rw [hcards.count_eq, count_create hk]
  have hsplit := congrArg (List.count k) (take_append_pieces (show 52 ≤ cards.length by omega))
  simp only [List.count_append, hcount] at hsplit
  have hhands : ∀ i ∈ seats, held (begun cards) i k = (piece cards i).count k :=
    fun i hi => held_begun cards hi hk
  have hwall : wall (begun cards) = cards.take (cards.length - 52) := rfl
  rw [hwall, List.map_congr_left hhands, List.count_nil]
  simp only [seats, List.map_cons, List.map_nil, List.sum_cons, List.sum_nil]
  omega

/-- Without a `stand_card` the calls raise an error. -/
theorem call_eq_none {m : State} (hm : ∀ i p, m.players i = some p → p.standCard = none)
    (c : Call) : call c m = none := by
  cases hplayer : m.players m.activeSeat with
  | none => cases c <;> simp [call, getCard, outCard, hplayer]
  | some p =>
    have hnone := hm _ p hplayer
    cases c <;> simp [call, getCard, outCard, hplayer, hnone]

theorem standCard_begun (cards : List ℕ) {i : ℕ} {p : Player}
    (hp : (begun cards).players i = some p) : p.standCard = none := by
  simp only [begun, dealtTo, Option.ite_none_right_eq_some, Option.some.injEq] at hp
  obtain ⟨-, rfl⟩ := hp
  split_ifs <;> rfl

/-- **When a match is played as it should be**: for any order of the wall, `begin`
deals the tiles and none is lost, and what is called then goes wrong at the first
call that makes sense. -/
theorem plays_iff {cards : List ℕ} (hcards : cards.Perm (create true)) (calls : List Call) :
    ∃ m, beginWith cards init = some m ∧
      (Plays m [] calls ↔ ∀ c ∈ calls.head?, ¬ Allowed m c) := by
  refine ⟨begun cards, beginWith_perm hcards, ?_⟩
  have hconserved := conserved_begun hcards
  cases calls with
  | nil => exact iff_of_true hconserved (by simp)
  | cons c cs =>
    simp only [Plays, List.head?_cons, Option.mem_some_iff, forall_eq']
    refine ⟨?_, fun hnot => ?_⟩
    · rintro ⟨-, hplay⟩ hallowed
      obtain ⟨m', hm', -⟩ := hplay hallowed
      rw [call_eq_none (fun i p => standCard_begun cards) c] at hm'
      cases hm'
    · exact ⟨hconserved, fun hallowed => absurd hallowed hnot⟩

theorem plays_iff_create : ∃ m, beginWith (create true) init = some m ∧
    (Plays m [] [.outCard 34, .getCard] ↔
      ∀ c ∈ [Call.outCard 34, .getCard].head?, ¬ Allowed m c) :=
  plays_iff (List.Perm.refl _) _

/-- The first draw raises an error. -/
theorem first_draw_raises : ¬ ∀ (cards : List ℕ) (m : State) (calls : List Call),
    cards.Perm (create true) → beginWith cards init = some m → Plays m [] calls := by
  intro hall
  have hrefl := List.Perm.refl (create true)
  obtain ⟨-, hplay⟩ := hall (create true) _ [.getCard] hrefl (beginWith_perm hrefl)
  have hwall : wall (begun (create true)) ≠ [] := by
    intro hnil
    have hlen := congrArg List.length hnil
    rw [wall, List.length_take, begun, dealtTo, length_create] at hlen
    cases hlen
  obtain ⟨m', hm', -⟩ := hplay hwall
  rw [call_eq_none (fun i p => standCard_begun _) _] at hm'
  cases hm'

end SlgServer.Match
