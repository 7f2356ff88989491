import SlgServer.MatchPlay
import Mathlib.Data.List.Perm.Subperm

/-!
# Which hands are dealt, and what is told (`service/area/match.lua`)

The comment over the first line of `begin` says that the tiles are shuffled, but the wall
is what `mjlib.create` returns: no value is drawn, and every match deals the same hands
(`dealt_iff`). The hands go into `stand_cards`, while the message for a seat carries the
field `cards`, which nothing sets (`never_told`).
-/

namespace SlgServer.Match

/-- What can come of `begin` on a new match. It calls nothing that draws at random. -/
def Outcomes : Set State := {m | begin init = some m}

/-- The seat holds the tiles `hand`. -/
def Dealt (m : State) (i : ℕ) (hand : List ℕ) : Prop :=
  ∃ p, m.players i = some p ∧ p.standCards = tally hand

/-- A message `match.dealt` for the seat tells it that it holds the tiles `hand`. -/
def Told (m : State) (i : ℕ) (hand : List ℕ) : Prop :=
  ∃ msg ∈ m.sent, msg.seat = i ∧ msg.protoName = "match.dealt" ∧ msg.cards = some (tally hand)

/-! ## The hands -/

/-- Hands with the same counts have the same tiles. -/
theorem perm_of_tally_eq {s s' : List ℕ} (hs : ∀ k ∈ s, 1 ≤ k ∧ k ≤ 34)
    (hs' : ∀ k ∈ s', 1 ≤ k ∧ k ≤ 34) (h : tally s = tally s') : s.Perm s' := by
  refine List.perm_iff_count.mpr fun k => ?_
  by_cases hk : 1 ≤ k ∧ k ≤ 34
  · have hat := at?_tally s hk
    rw [h, at?_tally s' hk] at hat
    exact (Option.some.inj hat).symm
  · rw [List.count_eq_zero_of_not_mem fun hmem => hk (hs k hmem),
      List.count_eq_zero_of_not_mem fun hmem => hk (hs' k hmem)]

theorem tally_eq_of_perm {s s' : List ℕ} (h : s.Perm s') : tally s = tally s' := by
  rw [tally, tally]
  exact List.map_congr_left fun k _ => h.count_eq k

/-- A seat holds its piece of the wall. -/
theorem dealt_begun (cards : List ℕ) {i : ℕ} (hi : i ∈ seats) :
    (begun cards).players i = some (dealtPlayer cards i) := by
  have hle : i ≤ 4 := by
    simp only [seats, List.mem_cons, List.not_mem_nil, or_false] at hi
    omega
  simp [begun, dealtTo, hi, hle]

/-- There is one outcome. -/
theorem mem_outcomes {m : State} : m ∈ Outcomes ↔ m = begun (create true) := by
  have hbegin : begin init = some (begun (create true)) := beginWith_perm (List.Perm.refl _)
  change begin init = some m ↔ _
  rw [hbegin, Option.some.injEq, eq_comm]

/-- **The deal is predetermined.** Of all choices of four hands from the deck, `begin`
can deal one: seat 1 gets the last 13 tiles that `create` returns, seat 2 the 13 before
them, and so on. -/
theorem dealt_iff {hands : ℕ → List ℕ} (hdeck : (seats.flatMap hands).Subperm (create true)) :
    (∃ m ∈ Outcomes, ∀ i ∈ seats, Dealt m i (hands i)) ↔
      ∀ i ∈ seats, (hands i).Perm (piece (create true) i) := by
  have htiles : ∀ i ∈ seats, ∀ k ∈ hands i, 1 ≤ k ∧ k ≤ 34 := fun i hi k hk =>
    mem_create (hdeck.subset (List.mem_flatMap.mpr ⟨i, hi, hk⟩))
  have hpiece : ∀ i, ∀ k ∈ piece (create true) i, 1 ≤ k ∧ k ≤ 34 := fun i k hk =>
    mem_create (List.mem_of_mem_drop (List.mem_of_mem_take hk))
  simp only [mem_outcomes, exists_eq_left]
  refine forall_congr' fun i => forall_congr' fun hi => ?_
  rw [Dealt, dealt_begun _ hi]
  refine ⟨?_, fun h => ?_⟩
  · rintro ⟨p, hp, htally⟩
    obtain rfl := Option.some.inj hp
    exact perm_of_tally_eq (htiles i hi) (hpiece i) htally.symm
  · exact ⟨_, rfl, (tally_eq_of_perm h).symm⟩

example : piece (create true) 1 = [31, 32, 32, 32, 32, 33, 33, 33, 33, 34, 34, 34, 34] := by
  decide +kernel

/-- The hands that are dealt. -/
theorem dealt_iff_piece :
    ∃ m ∈ Outcomes, ∀ i ∈ seats, Dealt m i (piece (create true) i) :=
  (dealt_iff (by decide +kernel)).mpr fun _ _ => List.Perm.refl _

/-- The same hands, those of the first two seats exchanged. -/
def exchangedHands : ℕ → List ℕ
  | 1 => piece (create true) 2
  | 2 => piece (create true) 1
  | i => piece (create true) i

/-- Seats 1 and 2 are never dealt each other's hands. -/
theorem not_dealt_exchangedHands :
    (∀ i ∈ seats, (exchangedHands i).length = 13) ∧
      (seats.flatMap exchangedHands).Subperm (create true) ∧
      ¬ ∃ m ∈ Outcomes, ∀ i ∈ seats, Dealt m i (exchangedHands i) := by
  refine ⟨by decide +kernel, by decide +kernel, ?_⟩
  rintro ⟨m, hm, hdealt⟩
  obtain ⟨p, hp, htally⟩ := hdealt 1 (by decide)
  rw [mem_outcomes.mp hm, dealt_begun _ (by decide)] at hp
  obtain rfl := Option.some.inj hp
  exact absurd htally (by decide +kernel)

/-! ## The messages -/

/-- **No seat is told its hand.** Whatever the order of the wall, each seat is dealt its
13 tiles and is sent a message `match.dealt`, but none that carries them: the field the
message is made from is not the one the tiles went to. -/
theorem never_told {cards : List ℕ} (hcards : cards.Perm (create true)) {i : ℕ} (hi : i ∈ seats) :
    ∃ m, beginWith cards init = some m ∧ (piece cards i).length = 13 ∧
      Dealt m i (piece cards i) ∧ (∃ msg ∈ m.sent, msg.seat = i ∧ msg.protoName = "match.dealt") ∧
      ¬ Told m i (piece cards i) := by
  have hlen : cards.length = 136 := hcards.length_eq.trans length_create
  refine ⟨begun cards, beginWith_perm hcards, ?_, ⟨_, dealt_begun cards hi, rfl⟩, ?_, ?_⟩
  · have hseat : 1 ≤ i ∧ i ≤ 4 := by
      simp only [seats, List.mem_cons, List.not_mem_nil, or_false] at hi
      omega
    rw [piece, List.length_take, List.length_drop]
    omega
  · exact ⟨⟨i, "match.dealt", none⟩, List.mem_map_of_mem hi, rfl, rfl⟩
  · rintro ⟨msg, hmsg, -, -, htold⟩
    obtain ⟨j, -, rfl⟩ := List.mem_map.mp hmsg
    cases htold

theorem never_told_create :
    ∃ m, beginWith (create true) init = some m ∧ ¬ Told m 1 (piece (create true) 1) := by
  obtain ⟨m, hm, -, -, -, htold⟩ := never_told (List.Perm.refl (create true)) (i := 1) (by decide)
  exact ⟨m, hm, htold⟩

/-- The message for seat 1 of the deck as it is created. -/
theorem told_nothing : ¬ ∀ cards : List ℕ, cards.Perm (create true) → ∀ m : State,
    beginWith cards init = some m → ∀ i ∈ seats, Told m i (piece cards i) := by
  intro hall
  have hrefl := List.Perm.refl (create true)
  obtain ⟨msg, hmsg, -, -, htold⟩ := hall _ hrefl _ (beginWith_perm hrefl) 1 (by decide)
  obtain ⟨j, -, rfl⟩ := List.mem_map.mp hmsg
  cases htold

end SlgServer.Match
