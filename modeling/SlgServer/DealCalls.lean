import SlgServer.Machine
import SlgServer.Match
import Mathlib.Algebra.BigOperators.Group.List.Basic
import Mathlib.Algebra.Ring.Nat

/-!
# Dealing call after call (`service/area/match.lua`)

`dealt_card` takes nothing out of `cards`: it lowers `cards_num` and reads the places
above. What is dealt and what is left stay apart because the places a call reads lie
between the new `cards_num` and the old one.

A hand is a table, and a call names it; tables are told apart by a number. The machine
of the calls keeps `Dealing`, so that however many hands are dealt, and however many tiles
each, none is lost and none is dealt twice (`dealt_card_conserves`). The loop in `begin` is
four such calls (`run_dealCall`).
-/

namespace SlgServer.Match

/-- A call `dealt_card(tbl, num)`. -/
structure DealCall : Type where
  /-- `tbl` -/
  tbl : ℕ
  /-- `num` -/
  num : ℕ

/-- What the calls work on. -/
structure Deal : Type where
  /-- `cards_num` -/
  cardsNum : ℕ
  /-- the contents of the tables -/
  hands : ℕ → List ℕ
  /-- the places of `cards` read so far. Nothing in the program reads this. -/
  places : List ℕ

/-- The places of `cards` that the second loop of `dealt_card` reads. -/
def dealPlaces (cardsNum num : ℕ) : List ℕ := List.range' (cardsNum - num + 1) num

/-- A call, for the wall `cards`. -/
def dealCall (cards : List ℕ) (d : Deal) (c : DealCall) : Option Deal := do
  let (cardsNum, tbl) ← dealtCard cards d.cardsNum (d.hands c.tbl) c.num
  return {
    cardsNum := cardsNum
    hands := Function.update d.hands c.tbl tbl
    places := d.places ++ dealPlaces d.cardsNum c.num }

/-- The tiles of kind `k` in a hand. -/
def inHand (tbl : List ℕ) (k : ℕ) : ℕ := (at? tbl k).getD 0

/-- The places are the ones that `dealt_card` reads. -/
theorem dealtCard_places (cards : List ℕ) (cardsNum : ℕ) (tbl : List ℕ) (num : ℕ) :
    dealtCard cards cardsNum tbl num =
      if cardsNum < num then none
      else (dealTiles cards (dealPlaces cardsNum num) (tbl ++ List.replicate 34 0)).map
        fun tbl => (cardsNum - num, tbl) := rfl

/-! ## One call -/

/-- What a call does, its hand being empty: the hand gets the last tiles of the wall, and the
other tables stay as they are. -/
theorem dealCall_spec {cards : List ℕ} (hcards : ∀ c ∈ cards, 1 ≤ c ∧ c ≤ 34) {d : Deal}
    {c : DealCall} {n : ℕ} (hn : d.cardsNum = n + c.num) (hlen : n + c.num ≤ cards.length)
    (hempty : d.hands c.tbl = []) :
    ∃ d', dealCall cards d c = some d' ∧ d'.cardsNum = n ∧
      d'.hands c.tbl = tally ((cards.drop n).take c.num) ∧
      (∀ tbl, tbl ≠ c.tbl → d'.hands tbl = d.hands tbl) ∧
      d'.places = d.places ++ List.range' (n + 1) c.num := by
  refine ⟨⟨n, Function.update d.hands c.tbl (tally ((cards.drop n).take c.num)),
    d.places ++ List.range' (n + 1) c.num⟩, ?_, rfl, ?_, ?_, rfl⟩
  · rw [dealCall, hempty, hn, dealtCard_nil hcards hlen, dealPlaces, Nat.add_sub_cancel]
    rfl
  · exact Function.update_self ..
  · intro tbl htbl
    exact Function.update_of_ne htbl _ _

theorem length_tally (s : List ℕ) : (tally s).length = 34 := by
  rw [tally, List.length_map, List.length_range']

/-- A hand holds as many tiles as were put into it. -/
theorem sum_tally {s : List ℕ} (hs : ∀ c ∈ s, 1 ≤ c ∧ c ≤ 34) : (tally s).sum = s.length := by
  have hone : ∀ c ∈ List.range' 1 34,
      ((List.range' 1 34).map fun k => if (c == k) = true then 1 else 0).sum = 1 := by
    decide
  induction s with
  | nil => decide
  | cons c s ih =>
    obtain ⟨hc, hs⟩ := List.forall_mem_cons.mp hs
    simp only [tally, List.count_cons, List.sum_map_add, List.length_cons]
    rw [hone c (List.mem_range'_1.mpr (by omega)), ← tally, ih hs]

theorem inHand_tally (s : List ℕ) {k : ℕ} (hk : 1 ≤ k ∧ k ≤ 34) :
    inHand (tally s) k = s.count k := by
  rw [inHand, at?_tally s hk, Option.getD_some]

/-! ## Call after call -/

/-- What holds when the calls have been made, `hands` being the tables before. -/
structure Dealing (cards : List ℕ) (hands : ℕ → List ℕ) (calls : List DealCall) (d : Deal) :
    Prop where
  /-- `cards_num` has come down by what was dealt -/
  cardsNum : d.cardsNum + (calls.map DealCall.num).sum = cards.length
  /-- each hand has the size it was dealt -/
  size : ∀ c ∈ calls, (d.hands c.tbl).length = 34 ∧ (d.hands c.tbl).sum = c.num
  /-- the tiles of each kind are in the hands or still on the wall -/
  tiles : ∀ k, 1 ≤ k ∧ k ≤ 34 →
    (calls.map fun c => inHand (d.hands c.tbl) k).sum + (cards.take d.cardsNum).count k =
      cards.count k
  /-- the places read are the ones above the wall, each read once -/
  places : d.places.Perm (List.range' (d.cardsNum + 1) (calls.map DealCall.num).sum)
  /-- the other tables are as they were -/
  others : ∀ tbl, tbl ∉ calls.map DealCall.tbl → d.hands tbl = hands tbl

variable {cards : List ℕ} {hands : ℕ → List ℕ} {calls : List DealCall} {d : Deal}

theorem Dealing.start (cards : List ℕ) (hands : ℕ → List ℕ) :
    Dealing cards hands [] ⟨cards.length, hands, []⟩ where
  cardsNum := rfl
  size := fun _ hc => absurd hc List.not_mem_nil
  tiles := fun k _ => by simp
  places := List.Perm.refl _
  others := fun _ _ => rfl

/-- **One more call** keeps it, on an empty hand not dealt to before. -/
theorem Dealing.call (hd : Dealing cards hands calls d) (hcards : ∀ c ∈ cards, 1 ≤ c ∧ c ≤ 34)
    {c : DealCall} (hnew : c.tbl ∉ calls.map DealCall.tbl) (hempty : hands c.tbl = [])
    (hnum : c.num ≤ d.cardsNum) :
    ∃ d', dealCall cards d c = some d' ∧ Dealing cards hands (calls ++ [c]) d' := by
  obtain ⟨n, hn⟩ : ∃ n, d.cardsNum = n + c.num := ⟨d.cardsNum - c.num, by omega⟩
  have hlen : n + c.num ≤ cards.length := by
    have hsum := hd.cardsNum
    omega
  have hpiece : ∀ k ∈ (cards.drop n).take c.num, 1 ≤ k ∧ k ≤ 34 :=
    fun k hk => hcards k (List.mem_of_mem_drop (List.mem_of_mem_take hk))
  obtain ⟨d', hcall, hn', hhand, hothers, hplaces⟩ :=
    dealCall_spec hcards hn hlen ((hd.others c.tbl hnew).trans hempty)
  -- the hands dealt before are other tables
  have hkept : ∀ t ∈ calls, d'.hands t.tbl = d.hands t.tbl := by
    intro t ht
    apply hothers
    rintro heq
    exact hnew (heq ▸ List.mem_map_of_mem ht)
  have hsum : ((calls ++ [c]).map DealCall.num).sum = (calls.map DealCall.num).sum + c.num := by
    rw [List.map_append, List.map_singleton, List.sum_append, List.sum_singleton]
  refine ⟨d', hcall, ?_, ?_, ?_, ?_, ?_⟩
  · have hcardsNum := hd.cardsNum
    omega
  · intro t ht
    rcases List.mem_append.mp ht with ht | ht
    · rw [hkept t ht]
      exact hd.size t ht
    · obtain rfl := List.mem_singleton.mp ht
      rw [hhand, sum_tally hpiece, List.length_take, List.length_drop]
      exact ⟨length_tally _, Nat.min_eq_left (by omega)⟩
  · intro k hk
    have htiles := hd.tiles k hk
    rw [hn, List.take_add, List.count_append] at htiles
    have hhands : (calls.map fun t => inHand (d'.hands t.tbl) k) =
        calls.map fun t => inHand (d.hands t.tbl) k :=
      List.map_congr_left fun t ht => by rw [hkept t ht]
    rw [List.map_append, List.sum_append, hhands, List.map_singleton, List.sum_singleton, hhand,
      inHand_tally _ hk, hn']
    omega
  · -- the new places lie right below the old ones
    have hbelow := hd.places
    rw [hn, Nat.add_right_comm] at hbelow
    rw [hsum, hplaces, hn', Nat.add_comm _ c.num, ← List.range'_append_1]
    exact (hbelow.append_right _).trans List.perm_append_comm
  · intro tbl htbl
    rw [List.map_append, List.map_singleton, List.mem_append, List.mem_singleton, not_or] at htbl
    rw [hothers tbl htbl.2]
    exact hd.others tbl htbl.1

/-- The calls all go through, on empty hands and with tiles enough. -/
theorem dealing_run (hcards : ∀ c ∈ cards, 1 ≤ c ∧ c ≤ 34)
    (hdistinct : (calls.map DealCall.tbl).Nodup) (hempty : ∀ c ∈ calls, hands c.tbl = [])
    (hnum : (calls.map DealCall.num).sum ≤ cards.length) :
    ∃ d, Machine.run (dealCall cards) ⟨cards.length, hands, []⟩ calls = some d ∧
      Dealing cards hands calls d := by
  apply Machine.run_progress (Dealing.start cards hands)
  rintro done c rest d rfl hd
  have hsum := hd.cardsNum
  rw [List.map_append, List.map_cons] at hdistinct hnum
  rw [List.sum_append, List.sum_cons] at hnum
  apply hd.call hcards
  · intro hmem
    exact (List.nodup_append.mp hdistinct).2.2 _ hmem _ List.mem_cons_self rfl
  · exact hempty c (List.mem_append_right _ List.mem_cons_self)
  · omega

/-- **Dealing conserves the tiles.** Hands are dealt from the wall, one after the other:
each gets its number of tiles, `cards_num` comes down by as many, the tiles of each kind
stay the same in all, and no place of the wall is dealt twice. -/
theorem dealt_card_conserves (hcards : ∀ c ∈ cards, 1 ≤ c ∧ c ≤ 34)
    (hdistinct : (calls.map DealCall.tbl).Nodup) (hempty : ∀ c ∈ calls, hands c.tbl = [])
    (hnum : (calls.map DealCall.num).sum ≤ cards.length) :
    ∃ d, Machine.run (dealCall cards) ⟨cards.length, hands, []⟩ calls = some d ∧
      (∀ c ∈ calls, ((d.hands c.tbl).take 34).sum = c.num) ∧
      d.cardsNum = cards.length - (calls.map DealCall.num).sum ∧
      (∀ k, 1 ≤ k ∧ k ≤ 34 →
        (calls.map fun c => inHand (d.hands c.tbl) k).sum + (cards.take d.cardsNum).count k =
          cards.count k) ∧
      d.places.Nodup ∧ ∀ p ∈ d.places, d.cardsNum < p ∧ p ≤ cards.length := by
  obtain ⟨d, hrun, hd⟩ := dealing_run hcards hdistinct hempty hnum
  have hsum := hd.cardsNum
  refine ⟨d, hrun, ?_, by omega, hd.tiles, ?_, ?_⟩
  · intro c hc
    obtain ⟨hlength, hsize⟩ := hd.size c hc
    rw [List.take_of_length_le (by omega), hsize]
  · exact hd.places.nodup_iff.mpr List.nodup_range'
  · intro p hp
    have hrange := List.mem_range'_1.mp (hd.places.mem_iff.mp hp)
    omega

/-- Three hands, one of them of no tiles, from a wall of six. -/
theorem dealt_card_conserves_threeHands :
    ∃ d, Machine.run (dealCall [5, 5, 9, 34, 1, 5]) ⟨6, fun _ => [], []⟩
        [⟨2, 2⟩, ⟨7, 0⟩, ⟨1, 3⟩] = some d ∧
      inHand (d.hands 2) 5 + (inHand (d.hands 7) 5 + (inHand (d.hands 1) 5 + 0)) +
        ([5, 5, 9, 34, 1, 5].take d.cardsNum).count 5 = 3 := by
  obtain ⟨d, hrun, -, -, htiles, -⟩ := @dealt_card_conserves [5, 5, 9, 34, 1, 5] (fun _ => [])
    [⟨2, 2⟩, ⟨7, 0⟩, ⟨1, 3⟩] (by decide) (by decide) (fun _ _ => rfl) (by decide)
  exact ⟨d, hrun, htiles 5 (by decide)⟩

/-! ## The loop in `begin` -/

/-- The tables that the seats hold, `stand_cards`. -/
def standTables (m : State) (i : ℕ) : List ℕ := ((m.players i).map Player.standCards).getD []

/-- One round of the loop is a call. -/
theorem dealSeat_dealCall {m m' : State} {i : ℕ} (h : dealSeat m i = some m')
    (places : List ℕ) :
    m'.cards = m.cards ∧
      dealCall m.cards ⟨m.cardsNum, standTables m, places⟩ ⟨i, 13⟩ =
        some ⟨m'.cardsNum, standTables m', places ++ dealPlaces m.cardsNum 13⟩ := by
  obtain ⟨player, hplayer, h⟩ := Option.bind_eq_some_iff.mp h
  obtain ⟨⟨cardsNum, tbl⟩, hdealt, h⟩ := Option.bind_eq_some_iff.mp h
  obtain rfl := Option.some.inj h
  have htable : standTables m i = player.standCards := by
    rw [standTables, hplayer]
    rfl
  have hupdate : Function.update (standTables m) i tbl = standTables { m with
      cardsNum := cardsNum
      players := Function.update m.players i (some { player with standCards := tbl }) } := by
    funext j
    by_cases hj : j = i
    · subst hj
      simp [standTables]
    · simp [standTables, hj]
  rw [← htable] at hdealt
  refine ⟨rfl, ?_⟩
  simp only [dealCall, hdealt, Option.bind_eq_bind, Option.bind_some, hupdate]
  rfl

/-- The loop of `begin` makes a call for each seat. -/
theorem run_dealCall {m m' : State} {is : List ℕ} (h : is.foldlM dealSeat m = some m')
    (places : List ℕ) :
    ∃ places', Machine.run (dealCall m.cards) ⟨m.cardsNum, standTables m, places⟩
      (is.map fun i => ⟨i, 13⟩) = some ⟨m'.cardsNum, standTables m', places'⟩ := by
  induction is generalizing m places with
  | nil =>
    obtain rfl := Option.some.inj h
    exact ⟨places, rfl⟩
  | cons i is ih =>
    rw [List.foldlM_cons] at h
    obtain ⟨m₁, hm₁, h⟩ := Option.bind_eq_some_iff.mp h
    obtain ⟨hcards, hcall⟩ := dealSeat_dealCall hm₁ places
    obtain ⟨places', hrun⟩ := ih h (places ++ dealPlaces m.cardsNum 13)
    refine ⟨places', ?_⟩
    rw [List.map_cons, Machine.run_cons, hcall, Option.bind_some, ← hcards]
    exact hrun

end SlgServer.Match
