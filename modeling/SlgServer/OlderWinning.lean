import SlgServer.BaseWinning
import SlgServer.HubeiHulib

/-!
# Where the older checkers go wrong

A hand wins iff it looks won to the older checkers, the runs they never look at
are melds with at most a pair, and there is one pair in all (`winning_iff_whole`).
The first of these is all that `mjlib/gui` tests, and all but the missed runs that
`mjlib/hubei_huanghuang` tests; so both are right exactly where the rest holds,
too (`older_right_iff`).
-/

namespace SlgServer.Older

open Melds Scan

/-- The pairs of a hand: the runs whose sum asks for one, and the honours held
twice. -/
def pairs (cards : ℕ → ℕ) : ℕ := ((Base.items colours cards).map Base.Item.pairs).sum

/-- What the older checkers do not test. -/
structure Whole (cards : ℕ → ℕ) : Prop where
  /-- the run that reaches the last rank of a suit is melds and at most a pair -/
  lastRun : ∀ cfg ∈ colours, cfg.chi = true →
    ∃ e, e ≤ 1 ∧ Splits true 0 0 e (lastRun (cfg.counts cards))
  /-- there is one pair in all -/
  onePair : pairs cards = 1

/-- No inner run of the hand is missed by the tables of `mjlib/hubei_huanghuang`. -/
def NoMissedRun (cards : ℕ → ℕ) : Prop :=
  ∀ cfg ∈ colours, cfg.chi = true → ∀ r ∈ innerRuns (cfg.counts cards), r ∉ Hubei.missedRuns

/-! ## Winning hands -/

/-- The pairs of a hand: those of the suits and those of the honours. -/
theorem pairs_eq (cards : ℕ → ℕ) :
    pairs cards = ((Base.items (colours.take 3) cards).map Base.Item.pairs).sum +
      (zi.counts cards).count 2 := by
  have hitems : Base.items colours cards =
      Base.items (colours.take 3) cards ++ (zi.counts cards).map .zi := by
    have hcolours : colours = colours.take 3 ++ [zi] := by decide
    conv_lhs => rw [Base.items, hcolours, List.flatMap_append, List.flatMap_singleton]
    rfl
  have hzi : ∀ l : List ℕ, ((l.map Base.Item.zi).map Base.Item.pairs).sum = l.count 2 := by
    intro l
    induction l with
    | nil => rfl
    | cons c l ih =>
      rw [List.map_cons, List.map_cons, List.sum_cons, ih, List.count_cons, Base.Item.pairs,
        Nat.add_comm]
      simp
  rw [pairs, hitems, List.map_append, List.sum_append, hzi]

/-- The items of a hand are accepted iff its runs are melds and at most a pair,
and no honour is held once or four times. -/
theorem forall_accepted_iff {cards : ℕ → ℕ} (hsound : ∀ it ∈ Base.items colours cards, it.Sound) :
    (∀ it ∈ Base.items colours cards, it.Accepted) ↔
      (∀ cfg ∈ colours, cfg.chi = true → ∀ r ∈ runs (cfg.counts cards),
        ∃ e, e ≤ 1 ∧ Splits true 0 0 e r) ∧ ∀ c ∈ zi.counts cards, c ≠ 1 ∧ c ≠ 4 := by
  have hrun : ∀ cfg ∈ colours, cfg.chi = true → ∀ r ∈ runs (cfg.counts cards),
      Base.Item.run r ∈ Base.items colours cards := by
    intro cfg hcfg hchi r hr
    refine List.mem_flatMap.mpr ⟨cfg, hcfg, ?_⟩
    rw [Base.colourItems, if_pos hchi]
    exact List.mem_map_of_mem hr
  refine ⟨fun hall => ?_, ?_⟩
  · refine ⟨fun cfg hcfg hchi r hr => ?_, fun c hc => ?_⟩
    · have hmem := hrun cfg hcfg hchi r hr
      have hle := (Base.Item.run r).pairs_le_one
      exact ⟨_, hle, (Base.accepted_iff_splits (hsound _ hmem) hle).mpr ⟨hall _ hmem, rfl⟩⟩
    · have hmem : Base.Item.zi c ∈ Base.items colours cards :=
        List.mem_flatMap.mpr ⟨zi, by decide, List.mem_map_of_mem hc⟩
      exact hall _ hmem
  · rintro ⟨hruns, hzi⟩ it hit
    obtain ⟨cfg, hcfg, hmem⟩ := List.mem_flatMap.mp hit
    rw [Base.colourItems] at hmem
    by_cases hchi : cfg.chi = true
    · rw [if_pos hchi] at hmem
      obtain ⟨r, hr, rfl⟩ := List.mem_map.mp hmem
      obtain ⟨e, he, hs⟩ := hruns cfg hcfg hchi r hr
      exact ((Base.accepted_iff_splits (hsound _ hit) he).mp hs).1
    · rw [if_neg hchi] at hmem
      have honly : ∀ cfg ∈ colours, ¬ cfg.chi = true → cfg = zi := by decide
      obtain rfl := honly cfg hcfg hchi
      obtain ⟨c, hc, rfl⟩ := List.mem_map.mp hmem
      exact hzi c hc

/-- **A hand wins iff** it looks won, in whatever order, and is whole. -/
theorem winning_iff_whole {order : List CardCfg} (horder : VisitOrder order) {h : Hand} {n : ℕ}
    (hn : n ≤ 4) (htotal : total h.count = 3 * n + 2) :
    Winning h.count n ↔ LooksWon order h.count ∧ Whole h.count := by
  have hsound := Base.sound_of_mem_items visitOrder_colours (h := h) (by omega)
  rw [winning_iff visitOrder_colours htotal, Base.splitsAll_rows_iff,
    Base.splitsAll_items_iff hsound (by decide), forall_accepted_iff hsound]
  have hnil : ∃ e, e ≤ 1 ∧ Splits true 0 0 e [] := ⟨0, by decide, .nil⟩
  have hpairs : ((Base.items colours h.count).map Base.Item.pairs).sum = pairs h.count := rfl
  simp only [forall_mem_runs (P := fun r => ∃ e, e ≤ 1 ∧ Splits true 0 0 e r) hnil, hpairs]
  refine ⟨?_, ?_⟩
  · rintro ⟨⟨hruns, hzi⟩, hone⟩
    have hsum := pairs_eq h.count
    refine ⟨⟨fun cfg hcfg hchi => (hruns cfg hcfg hchi).1, hzi, by omega, ?_⟩,
      ⟨fun cfg hcfg hchi => (hruns cfg hcfg hchi).2, hone⟩⟩
    -- the pair of honours is the only one
    intro h2 cfg hcfg r hr hmod
    have hcount := List.count_pos_iff.mpr h2
    have hsuits : ((Base.items (colours.take 3) h.count).map Base.Item.pairs).sum = 0 := by omega
    obtain ⟨hcolour, hchi⟩ := (mem_suits horder).mp (.inr hcfg)
    have hsuit : ∀ cfg ∈ colours, cfg.chi = true → cfg ∈ colours.take 3 := by decide
    have hmem : Base.Item.run r ∈ Base.items (colours.take 3) h.count := by
      refine List.mem_flatMap.mpr ⟨cfg, hsuit cfg hcolour hchi, ?_⟩
      rw [Base.colourItems, if_pos hchi]
      exact List.mem_map_of_mem (mem_runs_of_mem_innerRuns hr)
    have hzero := List.sum_eq_zero_iff.mp hsuits _ (List.mem_map_of_mem hmem)
    rw [Base.Item.pairs, if_pos hmod] at hzero
    exact one_ne_zero hzero
  · rintro ⟨hlooks, hwhole⟩
    exact ⟨⟨fun cfg hcfg hchi => ⟨hlooks.runs cfg hcfg hchi, hwhole.lastRun cfg hcfg hchi⟩,
      hlooks.honours⟩, hwhole.onePair⟩

/-! ## Where the checkers are right -/

/-- The suits of a hand of at most 14 tiles hold at most 14. -/
theorem sum_counts_le {h : Hand} (htotal : total h.count ≤ 14) :
    ∀ cfg ∈ colours, cfg.chi = true → (cfg.counts h.count).sum ≤ 14 := by
  intro cfg hcfg _
  have hle := List.single_le_sum (fun _ _ => Nat.zero_le _) _
    (List.mem_map_of_mem (f := fun cfg : CardCfg => (cfg.counts h.count).sum) hcfg)
  rw [total_eq visitOrder_colours] at hle
  omega

section Checkers

variable {handCards : ℕ → ℕ} {otherCard : Option ℕ} {h : Hand}

/-- The scan is over the hand with `other_card`. -/
theorem getHuInfo_withCard (hh : h.count = Base.withCard handCards otherCard) (t : Tables)
    (order : List CardCfg) :
    getHuInfo t order handCards otherCard = (scanAll (checkColour t h.count) order false).1 := by
  rw [hh]
  cases otherCard <;> rfl

/-- `mjlib/gui` accepts what looks won. -/
theorem gui_iff {order : List CardCfg} (horder : VisitOrder order)
    (hh : h.count = Base.withCard handCards otherCard) (htotal : total h.count ≤ 14) :
    Gui.getHuInfo order handCards otherCard = true ↔ LooksWon order h.count := by
  rw [Gui.getHuInfo_eq, getHuInfo_withCard hh]
  exact Gui.looksWon_iff horder h.le_four (sum_counts_le htotal)

/-- `mjlib/hubei_huanghuang` accepts what looks won and has no missed run. -/
theorem hubei_iff {order : List CardCfg} (horder : VisitOrder order)
    (hh : h.count = Base.withCard handCards otherCard) (htotal : total h.count ≤ 14) :
    Hubei.getHuInfo order handCards otherCard = true ↔
      LooksWon order h.count ∧ NoMissedRun h.count := by
  rw [Hubei.getHuInfo, getHuInfo_withCard hh]
  exact getHuInfo_iff Hubei.decides horder h.le_four (sum_counts_le htotal)

end Checkers

/-- **Where the older checkers are right.** For a hand of `3 * n + 2` tiles, counted
after `other_card` was added, both decide whether it wins, and agree with each
other and with `mjlib/base` on fresh tables, iff a hand that looks won to
`mjlib/gui` is whole, and one that looks won to `mjlib/hubei_huanghuang` is whole
just in case it has no missed run. -/
theorem older_right_iff {orderG orderH orderB : List CardCfg} (horderG : VisitOrder orderG)
    (horderH : VisitOrder orderH) (horderB : VisitOrder orderB) (handCards : ℕ → ℕ)
    (otherCard : Option ℕ) (h : Hand) (hh : h.count = Base.withCard handCards otherCard) {n : ℕ}
    (hn : n ≤ 4) (htotal : total h.count = 3 * n + 2) :
    ((Gui.getHuInfo orderG handCards otherCard = true ↔ Winning h.count n) ∧
        (Hubei.getHuInfo orderH handCards otherCard = true ↔ Winning h.count n) ∧
        Gui.getHuInfo orderG handCards otherCard = Hubei.getHuInfo orderH handCards otherCard ∧
        Gui.getHuInfo orderG handCards otherCard =
          (Base.getHuInfo orderB Base.shipped handCards otherCard).1) ↔
      (LooksWon orderG h.count → Whole h.count) ∧
        (LooksWon orderH h.count → (Whole h.count ↔ NoMissedRun h.count)) := by
  have hgui := gui_iff horderG hh (by omega)
  have hhubei := hubei_iff horderH hh (by omega)
  have hbase : (Base.getHuInfo orderB Base.shipped handCards otherCard).1 = true ↔
      Winning h.count n := by
    rw [Base.getHuInfo_eq_scan horderB, ← hh]
    exact Base.scan_items_iff_winning horderB h hn htotal
  have hwinG := winning_iff_whole horderG hn htotal
  have hwinH := winning_iff_whole horderH hn htotal
  have hagree : Gui.getHuInfo orderG handCards otherCard =
      Hubei.getHuInfo orderH handCards otherCard ↔
        (LooksWon orderG h.count ↔ LooksWon orderH h.count ∧ NoMissedRun h.count) := by
    rw [Bool.eq_iff_iff, hgui, hhubei]
  have hfresh : Gui.getHuInfo orderG handCards otherCard =
      (Base.getHuInfo orderB Base.shipped handCards otherCard).1 ↔
        (LooksWon orderG h.count ↔ Winning h.count n) := by
    rw [Bool.eq_iff_iff, hgui, hbase]
  rw [hgui, hhubei, hagree, hfresh]
  refine ⟨?_, ?_⟩
  · rintro ⟨hg, hhub, -, -⟩
    refine ⟨fun hl => (hwinG.mp (hg.mp hl)).2, fun hl => ⟨fun hw => ?_, fun hm => ?_⟩⟩
    · exact (hhub.mpr (hwinH.mpr ⟨hl, hw⟩)).2
    · exact (hwinH.mp (hhub.mp ⟨hl, hm⟩)).2
  · rintro ⟨hg, hhub⟩
    have hG : LooksWon orderG h.count ↔ Winning h.count n :=
      ⟨fun hl => hwinG.mpr ⟨hl, hg hl⟩, fun hw => (hwinG.mp hw).1⟩
    have hH : LooksWon orderH h.count ∧ NoMissedRun h.count ↔ Winning h.count n := by
      refine ⟨?_, fun hw => ?_⟩
      · rintro ⟨hl, hm⟩
        exact hwinH.mpr ⟨hl, (hhub hl).mpr hm⟩
      · obtain ⟨hl, hwhole⟩ := hwinH.mp hw
        exact ⟨hl, (hhub hl).mp hwhole⟩
    exact ⟨hG, hH, hG.trans hH.symm, hG⟩

/-- The sequences `1 2 3` and `7 8 9` of the first suit, the triplet of its five, a pair of fours
of the second suit and a triplet of the last honour. -/
def twoRuns : List ℕ :=
  [1, 1, 1, 0, 3, 0, 1, 1, 1] ++ [0, 0, 0, 2, 0, 0, 0, 0, 0] ++ List.replicate 15 0 ++ [3]

/-- Both are right about a hand with four melds, one of which reaches the last rank. -/
theorem older_right_iff_twoRuns :
    Winning (ofArray twoRuns) 4 ∧ Gui.getHuInfo colours (ofArray twoRuns) none = true ∧
      Hubei.getHuInfo colours (ofArray twoRuns) none = true := by
  have hwhole : Whole (ofArray twoRuns) := by
    refine ⟨fun cfg hcfg hchi => ⟨0, by decide, ?_⟩, by decide⟩
    have hlast : ∀ cfg ∈ colours, cfg.chi = true →
        splits true 0 0 0 (lastRun (cfg.counts (ofArray twoRuns))) = true := by decide
    exact splits_iff.mp (hlast cfg hcfg hchi)
  have hmiss : NoMissedRun (ofArray twoRuns) := by
    unfold NoMissedRun
    decide
  have hright := (older_right_iff visitOrder_colours visitOrder_colours visitOrder_colours
    (ofArray twoRuns) none (Hand.ofArray twoRuns (by decide) (by decide)) rfl (n := 4)
    (by decide) (by decide)).mpr ⟨fun _ => hwhole, fun _ => iff_of_true hwhole hmiss⟩
  have hgui : Gui.getHuInfo colours (ofArray twoRuns) none = true := by decide +kernel
  exact ⟨hright.1.mp hgui, hgui, hright.2.2.1.symm.trans hgui⟩

/-- One eight and one nine of the first suit. -/
def eightAndNine : List ℕ := [0, 0, 0, 0, 0, 0, 0, 1, 1]

/-- The sequences `1 2 3`, `4 5 6`, `6 7 8` of the first suit and a pair of the first
honour. -/
def threeSequences : List ℕ := [1, 1, 1, 1, 1, 2, 1, 1] ++ List.replicate 19 0 ++ [2]

/-- **Both are wrong**: an eight and a nine are no pair, and are accepted; three
sequences and a pair win, and one of the two rejects them. -/
theorem older_wrong :
    (Gui.getHuInfo colours (ofArray eightAndNine) none = true ∧
      Hubei.getHuInfo colours (ofArray eightAndNine) none = true ∧
      ¬ Winning (ofArray eightAndNine) 0) ∧
    Hubei.getHuInfo colours (ofArray threeSequences) none = false ∧
      Winning (ofArray threeSequences) 3 := by
  have hloses := Base.scan_items_iff_winning visitOrder_colours
    (Hand.ofArray eightAndNine (by decide) (by decide)) (n := 0) (by decide) (by decide)
  have hwins := Base.scan_items_iff_winning visitOrder_colours
    (Hand.ofArray threeSequences (by decide) (by decide)) (n := 3) (by decide) (by decide)
  refine ⟨⟨by decide +kernel, by decide +kernel, fun h => ?_⟩, by decide +kernel,
    hwins.mp (by decide +kernel)⟩
  exact absurd (hloses.mpr h) (by decide +kernel)

end SlgServer.Older
