import SlgServer.MeldTiles

/-!
# Tiles, colours and hands (`mjlib.lua`)

Tiles are stored as indices: 1..9, 10..18 and 19..27 are the three suits, 28..34
the honours. A hand is the count of each index. `mjlib.CardType` describes the
four colours, and every checker visits them in the order in which `pairs`
happens to produce them: `VisitOrder` allows any.

`Winning` says what a winning hand is, in terms of melds and one pair.
`winning_iff` reduces it to the rows of the four colours.
-/

namespace SlgServer

open Melds

/-! ## Colours -/

/-- An entry of `mjlib.CardType`: the range of a colour's indices, and whether
its tiles form sequences. -/
structure CardCfg : Type where
  /-- the first index -/
  min : ℕ
  /-- the last index -/
  max : ℕ
  /-- tiles of this colour can be eaten -/
  chi : Bool
  deriving DecidableEq

/-- The indices of `for i = cfg.min, cfg.max`. -/
def CardCfg.indices (cfg : CardCfg) : List ℕ := List.range' cfg.min (cfg.max + 1 - cfg.min)

/-- The counts of a colour, in the order of its indices. -/
def CardCfg.counts (cfg : CardCfg) (cards : ℕ → ℕ) : List ℕ := cfg.indices.map cards

/-- The row of a colour: its rule on sequences and its counts. -/
def CardCfg.row (cfg : CardCfg) (cards : ℕ → ℕ) : Bool × List ℕ := (cfg.chi, cfg.counts cards)

/-- `mjlib.CardType`, keyed by the colour codes. -/
def cardType : List (ℕ × CardCfg) :=
  [(0x10, ⟨1, 9, true⟩), (0x20, ⟨10, 18, true⟩), (0x30, ⟨19, 27, true⟩), (0x40, ⟨28, 34, false⟩)]

/-- The colours, by rising index. -/
def colours : List CardCfg := cardType.map Prod.snd

theorem mem_colours {cfg : CardCfg} :
    cfg ∈ colours ↔ cfg = ⟨1, 9, true⟩ ∨ cfg = ⟨10, 18, true⟩ ∨ cfg = ⟨19, 27, true⟩ ∨
      cfg = ⟨28, 34, false⟩ := by
  simp only [colours, cardType, List.map_cons, List.map_nil, List.mem_cons, List.not_mem_nil,
    or_false]

/-- An order in which `pairs(mjlib.CardType)` may visit the colours. -/
def VisitOrder (order : List CardCfg) : Prop := order.Perm colours

theorem visitOrder_colours : VisitOrder colours := List.Perm.refl _

/-- A colour has nine kinds at most. -/
theorem VisitOrder.length_counts_le {order : List CardCfg} (horder : VisitOrder order)
    {cfg : CardCfg} (hcfg : cfg ∈ order) (cards : ℕ → ℕ) : (cfg.counts cards).length ≤ 9 := by
  rcases mem_colours.mp (horder.mem_iff.mp hcfg) with rfl | rfl | rfl | rfl <;>
    simp [CardCfg.counts, CardCfg.indices]

/-! ## Hands -/

/-- A hand: how many copies of each of the 34 kinds it holds, at most four. -/
@[ext] structure Hand : Type where
  /-- the copies of a kind -/
  count : ℕ → ℕ
  /-- there are four tiles of each kind -/
  le_four : ∀ i, count i ≤ 4
  /-- the kinds are 1..34 -/
  support : ∀ i, count i ≠ 0 → 1 ≤ i ∧ i ≤ 34

/-- Read a Lua array of counts, indexed from 1. -/
def ofArray (l : List ℕ) (i : ℕ) : ℕ := if i = 0 then 0 else l.getD (i - 1) 0

/-- The hand of a Lua array of 34 counts. -/
def Hand.ofArray (l : List ℕ) (hlen : l.length ≤ 34) (hle : ∀ c ∈ l, c ≤ 4) : Hand where
  count := SlgServer.ofArray l
  le_four i := by
    rw [SlgServer.ofArray]
    split_ifs
    · omega
    · rw [List.getD_eq_getElem?_getD]
      cases h : l[i - 1]? with
      | none => simp
      | some c => exact hle c (List.mem_of_getElem? h)
  support i hi := by
    rw [SlgServer.ofArray] at hi
    split_ifs at hi with h0
    · exact absurd rfl hi
    · have hlt : i - 1 < l.length := by
        by_contra hge
        rw [List.getD_eq_getElem?_getD, List.getElem?_eq_none (by omega)] at hi
        exact hi rfl
      omega

/-- How many tiles the counts hold on the indices 1..34. -/
def total (cards : ℕ → ℕ) : ℕ := ((List.range' 1 34).map cards).sum

theorem flatMap_indices : colours.flatMap CardCfg.indices = List.range' 1 34 := by decide

/-- The tiles of a hand, colour by colour. -/
theorem total_eq {order : List CardCfg} (horder : VisitOrder order) (cards : ℕ → ℕ) :
    (order.map fun cfg => (cfg.counts cards).sum).sum = total cards := by
  have hperm := (horder.map fun cfg : CardCfg => (cfg.counts cards).sum).sum_eq
  rw [hperm, total]
  rw [← flatMap_indices]
  simp only [colours, cardType, List.map_cons, List.map_nil, List.flatMap_cons, List.flatMap_nil,
    List.map_append, List.sum_append, List.sum_cons, List.sum_nil]
  rfl

/-! ## Winning hands -/

/-- Three equal tiles of any kind, or three consecutive tiles of one suit. -/
def LegalMeld : Meld → Prop
  | .triplet i => 1 ≤ i ∧ i ≤ 34
  | .sequence i => (1 ≤ i ∧ i + 2 ≤ 9) ∨ (10 ≤ i ∧ i + 2 ≤ 18) ∨ (19 ≤ i ∧ i + 2 ≤ 27)

instance (m : Meld) : Decidable (LegalMeld m) := by
  cases m <;> unfold LegalMeld <;> infer_instance

/-- The tiles are exactly one pair and `n` melds. -/
def Winning (cards : ℕ → ℕ) (n : ℕ) : Prop :=
  ∃ (p : ℕ) (ms : List Meld), (1 ≤ p ∧ p ≤ 34) ∧ ms.length = n ∧ (∀ m ∈ ms, LegalMeld m) ∧
    Deals ms [p] cards

/-- The rows of the colours, in an order of visit. -/
def rows (order : List CardCfg) (cards : ℕ → ℕ) : List (Bool × List ℕ) :=
  order.map fun cfg => cfg.row cards

theorem LegalMeld.respects {m : Meld} (hm : LegalMeld m) {cfg : CardCfg} (hcfg : cfg ∈ colours) :
    m.Respects cfg.chi cfg.min (cfg.max + 1 - cfg.min) := by
  rw [mem_colours] at hcfg
  cases m with
  | triplet i => trivial
  | sequence i =>
    simp only [LegalMeld] at hm
    rcases hcfg with rfl | rfl | rfl | rfl <;> simp only [Meld.Respects] <;> simp <;> omega

theorem legalMeld_of_within {m : Meld} {cfg : CardCfg} (hcfg : cfg ∈ colours)
    (hm : m.Within cfg.chi cfg.min (cfg.max + 1 - cfg.min)) : LegalMeld m := by
  rw [mem_colours] at hcfg
  cases m with
  | triplet i =>
    simp only [Meld.Within] at hm
    rcases hcfg with rfl | rfl | rfl | rfl <;> simp only [LegalMeld] <;> simp at hm <;> omega
  | sequence i =>
    simp only [Meld.Within] at hm
    rcases hcfg with rfl | rfl | rfl | rfl <;> simp only [LegalMeld] <;> simp at hm <;> omega

/-- Rows that split are dealt out together, the pairs collected. -/
theorem deal_rows {cards : ℕ → ℕ} {order : List CardCfg} {e : ℕ}
    (hsub : ∀ cfg ∈ order, cfg ∈ colours) (h : SplitsAll e (rows order cards)) :
    ∃ (ms : List Meld) (ps : List ℕ), (∀ m ∈ ms, LegalMeld m) ∧ ps.length = e ∧
      (∀ p ∈ ps, 1 ≤ p ∧ p ≤ 34) ∧
      ∀ x, tileCount ms x + 2 * ps.count x =
        (order.map fun cfg => if cfg.min ≤ x ∧ x ≤ cfg.max then cards x else 0).sum := by
  induction order generalizing e with
  | nil => exact ⟨[], [], by simp, Eq.symm h, by simp, by simp⟩
  | cons cfg order ih =>
    obtain ⟨e₁, e₂, rfl, h₁, h₂⟩ := h
    have hcfg : cfg ∈ colours := hsub cfg (List.mem_cons_self ..)
    have hrange : 1 ≤ cfg.min ∧ cfg.min ≤ cfg.max ∧ cfg.max ≤ 34 := by
      rcases mem_colours.mp hcfg with rfl | rfl | rfl | rfl <;> simp
    obtain ⟨ms₁, ps₁, hms₁, hps₁, hlen₁, hdeal₁⟩ := Splits.deals h₁
    obtain ⟨ms₂, ps₂, hms₂, hlen₂, hps₂, hdeal₂⟩ :=
      ih (fun cfg hc => hsub cfg (List.mem_cons_of_mem _ hc)) h₂
    refine ⟨ms₁ ++ ms₂, ps₁ ++ ps₂, ?_, by simp [hlen₁, hlen₂], ?_, fun x => ?_⟩
    · intro m hm
      rcases List.mem_append.mp hm with hm | hm
      · exact legalMeld_of_within hcfg (hms₁ m hm)
      · exact hms₂ m hm
    · intro p hp
      rcases List.mem_append.mp hp with hp | hp
      · have := hps₁ p hp
        omega
      · exact hps₂ p hp
    · have hx₁ := hdeal₁ x
      have hx₂ := hdeal₂ x
      rw [List.map_cons, List.sum_cons, ← hx₂, tileCount_append, List.count_append]
      have hif : (if cfg.min ≤ x ∧ x ≤ cfg.max then cards x else 0) =
          if cfg.min ≤ x ∧ x < cfg.min + (cfg.max + 1 - cfg.min) then cards x else 0 := by
        refine if_congr ?_ rfl rfl
        omega
      rw [hif]
      simp only at hx₁
      omega

/-- The four colours cover the indices 1..34 once. -/
theorem sum_colours (cards : ℕ → ℕ) (x : ℕ) :
    (colours.map fun cfg => if cfg.min ≤ x ∧ x ≤ cfg.max then cards x else 0).sum =
      if 1 ≤ x ∧ x ≤ 34 then cards x else 0 := by
  simp only [colours, cardType, List.map_cons, List.map_nil, List.sum_cons, List.sum_nil]
  split_ifs <;> omega

/-- Counts on the kinds 1..34 whose rows split are dealt out in melds and pairs. -/
theorem exists_deals {cards : ℕ → ℕ} {e : ℕ} (hsupport : ∀ i, cards i ≠ 0 → 1 ≤ i ∧ i ≤ 34)
    (h : SplitsAll e (rows colours cards)) :
    ∃ (ms : List Meld) (ps : List ℕ), (∀ m ∈ ms, LegalMeld m) ∧ ps.length = e ∧
      (∀ p ∈ ps, 1 ≤ p ∧ p ≤ 34) ∧ Deals ms ps cards := by
  obtain ⟨ms, ps, hms, hlen, hps, hdeal⟩ := deal_rows (fun _ h => h) h
  refine ⟨ms, ps, hms, hlen, hps, fun x => ?_⟩
  rw [hdeal x, sum_colours]
  by_cases hx : 1 ≤ x ∧ x ≤ 34
  · rw [if_pos hx]
  · rw [if_neg hx]
    by_contra hne
    exact hx (hsupport x hne)

/-- Legal melds and pairs hold three and two tiles each. -/
theorem total_of_deals {cards : ℕ → ℕ} {ms : List Meld} {ps : List ℕ}
    (hms : ∀ m ∈ ms, LegalMeld m) (hps : ∀ p ∈ ps, 1 ≤ p ∧ p ≤ 34) (hdeals : Deals ms ps cards) :
    total cards = 3 * ms.length + 2 * ps.length := by
  refine hdeals.sum_of_within (fun m hm y hy => ?_) fun p hp => ?_
  · have hlegal := hms m hm
    cases m <;>
    · simp only [LegalMeld] at hlegal
      simp only [Meld.tiles, List.mem_cons, List.not_mem_nil, or_false] at hy
      omega
  · have := hps p hp
    omega

/-- Legal melds and one pair that make up `3 * n + 2` tiles are `n` melds and a pair. -/
theorem winning_of_deals {cards : ℕ → ℕ} {n p : ℕ} {ms : List Meld} (hms : ∀ m ∈ ms, LegalMeld m)
    (hp : 1 ≤ p ∧ p ≤ 34) (hdeals : Deals ms [p] cards) (htotal : total cards = 3 * n + 2) :
    Winning cards n := by
  have hsum := total_of_deals hms (by simpa using hp) hdeals
  rw [List.length_singleton] at hsum
  exact ⟨p, ms, hp, by omega, hms, hdeals⟩

/-- **Winning hands, row by row.** A hand of `3 * n + 2` tiles is one pair and
`n` melds iff the rows of its colours split with one pair in all. -/
theorem winning_iff {h : Hand} {n : ℕ} {order : List CardCfg} (horder : VisitOrder order)
    (htotal : total h.count = 3 * n + 2) :
    Winning h.count n ↔ SplitsAll 1 (rows order h.count) := by
  have hperm : SplitsAll 1 (rows order h.count) ↔ SplitsAll 1 (rows colours h.count) :=
    splitsAll_perm (horder.map _)
  rw [hperm]
  refine ⟨?_, fun hs => ?_⟩
  · rintro ⟨p, ms, hp, -, hms, hdeal⟩
    have hrow : ∀ cfg ∈ colours, Splits cfg.chi 0 0
        (if cfg.min ≤ p ∧ p ≤ cfg.max then 1 else 0) (cfg.counts h.count) := by
      intro cfg hcfg
      have hs := hdeal.splits fun m hm => (hms m hm).respects hcfg
      rw [sum_count_range'] at hs
      have hone : [p].countP (fun y => decide (cfg.min ≤ y ∧
            y < cfg.min + (cfg.max + 1 - cfg.min))) =
          if cfg.min ≤ p ∧ p ≤ cfg.max then 1 else 0 := by
        rw [List.countP_singleton]
        refine if_congr ?_ rfl rfl
        rw [decide_eq_true_eq]
        omega
      rwa [hone] at hs
    refine ⟨_, _, ?_, hrow ⟨1, 9, true⟩ (by decide), _, _, rfl, hrow ⟨10, 18, true⟩ (by decide),
      _, _, rfl, hrow ⟨19, 27, true⟩ (by decide), _, _, rfl, hrow ⟨28, 34, false⟩ (by decide), rfl⟩
    simp only
    split_ifs <;> omega
  · obtain ⟨ms, ps, hms, hlen, hps, hdeals⟩ := exists_deals h.support hs
    obtain ⟨p, rfl⟩ := List.length_eq_one_iff.mp hlen
    exact winning_of_deals hms (hps p (List.mem_singleton_self p)) hdeals htotal

end SlgServer
