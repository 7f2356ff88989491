import SlgServer.GenGuiTable
import SlgServer.MeldSums

/-!
# What the joker tables hold

A run of a generator judges every pair with four melds (`genGuiTable_spec`): what
`tested_tbl` leaves out is the same array, and `hulib` accepts all of them. Melds and
the pair off the key never get in the way (`exists_reached`).

`mem_tables`, `joker_tables_exact`: the tables are exactly the rows that so many jokers
complete.
-/

namespace SlgServer.Gui

open Melds Scan

variable {cfg : GenCfg} {order : List CardCfg}

/-! ## Judging -/

/-- What the numbers of a generator must satisfy, `chi` being the rule on
sequences for its keys. -/
structure GenCfg.Sound (cfg : GenCfg) (chi : Bool) : Prop where
  /-- the pair and the melds lie in two suits -/
  kinds_le : cfg.kinds ≤ 18
  /-- a key is made of kinds that are used -/
  stretch : 1 ≤ cfg.min ∧ cfg.max ≤ cfg.kinds
  /-- the melds put down are melds of those kinds, on the key or off it -/
  melds : ∀ m ∈ cfg.melds, LegalMeld m ∧ (∀ y ∈ m.tiles, 1 ≤ y ∧ y ≤ cfg.kinds) ∧
    m.Respects chi cfg.min (cfg.max + 1 - cfg.min)
  /-- all melds on the key are put down -/
  within : ∀ m, m.Within chi cfg.min (cfg.max + 1 - cfg.min) → m ∈ cfg.melds
  /-- five more kinds are off the key -/
  filler : ∃ f, ∀ i, f ≤ i → i ≤ f + 4 →
    i ∉ cfg.indices ∧ (1 ≤ i ∧ i ≤ cfg.kinds) ∧ .triplet i ∈ cfg.melds

theorem mem_melds_autoGui {m : Meld} : m ∈ autoGui.melds ↔
    (∃ i, (1 ≤ i ∧ i ≤ 18) ∧ m = .triplet i) ∨
      ∃ i, ((1 ≤ i ∧ i ≤ 7) ∨ (10 ≤ i ∧ i ≤ 16)) ∧ m = .sequence i := by
  simp only [GenCfg.melds, autoGui, List.mem_map, List.mem_range'_1]
  refine ⟨?_, ?_⟩
  · rintro ⟨j, hj, rfl⟩
    split_ifs with h₁ h₂
    · exact .inl ⟨j, by omega, rfl⟩
    · exact .inr ⟨j - 18, by omega, rfl⟩
    · exact .inr ⟨j - 16, by omega, rfl⟩
  · rintro (⟨i, hi, rfl⟩ | ⟨i, hi | hi, rfl⟩)
    · exact ⟨i, by omega, if_pos hi.2⟩
    · refine ⟨i + 18, by omega, ?_⟩
      rw [if_neg (by omega), if_pos (by omega), Nat.add_sub_cancel]
    · refine ⟨i + 16, by omega, ?_⟩
      rw [if_neg (by omega), if_neg (by omega), Nat.add_sub_cancel]

theorem mem_melds_autoFengGui {m : Meld} : m ∈ autoFengGui.melds ↔
    (∃ i, (1 ≤ i ∧ i ≤ 16) ∧ m = .triplet i) ∨ ∃ i, (1 ≤ i ∧ i ≤ 7) ∧ m = .sequence i := by
  simp only [GenCfg.melds, autoFengGui, List.mem_map, List.mem_range'_1]
  refine ⟨?_, ?_⟩
  · rintro ⟨j, hj, rfl⟩
    split_ifs with h₁
    · exact .inl ⟨j, by omega, rfl⟩
    · exact .inr ⟨j - 16, by omega, rfl⟩
  · rintro (⟨i, hi, rfl⟩ | ⟨i, hi, rfl⟩)
    · exact ⟨i, by omega, if_pos hi.2⟩
    · refine ⟨i + 16, by omega, ?_⟩
      rw [if_neg (by omega), Nat.add_sub_cancel]

theorem sound_autoGui : autoGui.Sound true where
  kinds_le := by decide
  stretch := by decide
  melds m hm := by
    rcases mem_melds_autoGui.mp hm with ⟨i, hi, rfl⟩ | ⟨i, hi, rfl⟩
    · refine ⟨⟨hi.1, by omega⟩, ?_, trivial⟩
      simpa [Meld.tiles, autoGui] using hi
    · refine ⟨by simp only [LegalMeld]; omega, ?_, ?_⟩
      · simp only [Meld.tiles, autoGui, List.mem_cons, List.not_mem_nil, or_false]
        omega
      · simp only [Meld.Respects, autoGui, true_and]
        omega
  within m hm := by
    rw [mem_melds_autoGui]
    cases m with
    | triplet i =>
      simp only [Meld.Within, autoGui] at hm
      exact .inl ⟨i, by omega, rfl⟩
    | sequence i =>
      simp only [Meld.Within, autoGui] at hm
      exact .inr ⟨i, by omega, rfl⟩
  filler := by
    refine ⟨10, fun i hi hi' => ⟨?_, by simp only [autoGui]; omega,
      mem_melds_autoGui.mpr (.inl ⟨i, by omega, rfl⟩)⟩⟩
    simp only [GenCfg.indices, autoGui, List.mem_range'_1]
    omega

theorem sound_autoFengGui : autoFengGui.Sound false where
  kinds_le := by decide
  stretch := by decide
  melds m hm := by
    rcases mem_melds_autoFengGui.mp hm with ⟨i, hi, rfl⟩ | ⟨i, hi, rfl⟩
    · refine ⟨⟨hi.1, by omega⟩, ?_, trivial⟩
      simpa [Meld.tiles, autoFengGui] using hi
    · refine ⟨by simp only [LegalMeld]; omega, ?_, ?_⟩
      · simp only [Meld.tiles, autoFengGui, List.mem_cons, List.not_mem_nil, or_false]
        omega
      · exact .inl (show i + 2 < 10 by omega)
  within m hm := by
    rw [mem_melds_autoFengGui]
    cases m with
    | triplet i =>
      simp only [Meld.Within, autoFengGui] at hm
      exact .inl ⟨i, by omega, rfl⟩
    | sequence i =>
      simp only [Meld.Within] at hm
      exact absurd hm.1 (by simp)
  filler := by
    refine ⟨1, fun i hi hi' => ⟨?_, by simp only [autoFengGui]; omega,
      mem_melds_autoFengGui.mpr (.inl ⟨i, by omega, rfl⟩)⟩⟩
    simp only [GenCfg.indices, autoFengGui, List.mem_range'_1]
    omega

/-- The kinds that are judged by their number. -/
def GenCfg.testedKey (cfg : GenCfg) (t : ℕ → ℕ) : ℕ :=
  Melds.key ((List.range' 1 cfg.kinds).map t)

/-- The arrays `V` have been judged, and what `check_hu` keeps says so. -/
structure Judged (cfg : GenCfg) (V : Set (ℕ → ℕ)) (s : Gen) : Prop where
  /-- pairs with four melds -/
  reached : ∀ t ∈ V, Reached cfg t
  /-- those with at most four tiles of a kind are in `tested_tbl` -/
  tested : ∀ x, x ∈ s.tested ↔ ∃ t ∈ V, (∀ i, t i ≤ 4) ∧ x = cfg.testedKey t
  /-- and have been parsed -/
  entries : s.entries = {y | ∃ t ∈ V, (∀ i, t i ≤ 4) ∧ y ∈ parsed cfg t}

theorem Judged.set_t {V : Set (ℕ → ℕ)} {s : Gen} (h : Judged cfg V s) (t : ℕ → ℕ) :
    Judged cfg V { s with t := t } := ⟨h.reached, h.tested, h.entries⟩

variable {chi : Bool}

theorem Reached.support (hc : cfg.Sound chi) {t : ℕ → ℕ} (h : Reached cfg t) {x : ℕ}
    (hx : t x ≠ 0) : 1 ≤ x ∧ x ≤ cfg.kinds := by
  obtain ⟨i, ms, hi, -, hms, hdeal⟩ := reached_iff.mp h
  have hxt := hdeal x
  by_cases hin : x ∈ ms.flatMap Meld.tiles
  · obtain ⟨m, hm, hxm⟩ := List.mem_flatMap.mp hin
    exact (hc.melds m (hms m hm)).2.1 x hxm
  · have hzero : tileCount ms x = 0 := List.count_eq_zero_of_not_mem hin
    by_cases hxi : x = i
    · exact hxi ▸ hi
    · have hcount : [i].count x = 0 := List.count_eq_zero_of_not_mem (by simpa using hxi)
      omega

/-- Arrays with the same number are the same. -/
theorem testedKey_injective (hc : cfg.Sound chi) {t u : ℕ → ℕ} (ht : Reached cfg t)
    (hu : Reached cfg u) (ht4 : ∀ i, t i ≤ 4) (hu4 : ∀ i, u i ≤ 4)
    (h : cfg.testedKey t = cfg.testedKey u) : t = u := by
  have hdigits : ∀ v : ℕ → ℕ, (∀ i, v i ≤ 4) → ∀ c ∈ (List.range' 1 cfg.kinds).map v, c < 10 := by
    intro v hv c hcv
    obtain ⟨i, -, rfl⟩ := List.mem_map.mp hcv
    have := hv i
    omega
  have hrow := key_injective_of_length (by simp) (hdigits t ht4) (hdigits u hu4) h
  ext x
  by_cases hx : 1 ≤ x ∧ x ≤ cfg.kinds
  · exact List.map_inj_left.mp hrow x (List.mem_range'_1.mpr (by omega))
  · have htx : t x = 0 := by
      by_contra hne
      exact hx (ht.support hc hne)
    have hux : u x = 0 := by
      by_contra hne
      exact hx (hu.support hc hne)
    rw [htx, hux]

/-- `hulib` accepts what is judged. -/
theorem Reached.accepted (hc : cfg.Sound chi) (horder : VisitOrder order) {t : ℕ → ℕ}
    (h : Reached cfg t) (ht4 : ∀ i, t i ≤ 4) : getHuInfo order t none = true := by
  obtain ⟨i, ms, hi, hlen, hms, hdeal⟩ := reached_iff.mp h
  refine getHuInfo_of_splits horder ht4 (fun col hcol hchi => ⟨?_, ?_⟩) fun col hcol hchi x hx => ?_
  · have := hdeal.sum_le col.min (col.max + 1 - col.min)
    rw [hlen] at this
    exact this
  · have hs := hdeal.splits fun m hm => (hc.melds m (hms m hm)).1.respects hcol
    rw [hchi, sum_count_range'] at hs
    exact ⟨_, List.countP_le_length (l := [i]), hs⟩
  · by_contra hne
    have hx18 := h.support hc hne
    have hkinds := hc.kinds_le
    rcases mem_colours.mp hcol with rfl | rfl | rfl | rfl
    all_goals simp [CardCfg.indices, List.mem_range'_1] at hchi hx
    omega

theorem Judged.reached_insert {V : Set (ℕ → ℕ)} {s : Gen} (hV : Judged cfg V s)
    (hs : Reached cfg s.t) : ∀ t ∈ V ∪ {s.t}, Reached cfg t := by
  rintro t (ht | rfl)
  · exact hV.reached t ht
  · exact hs

/-- An array that brings nothing new: it has too many tiles of a kind, or has been
judged before. -/
theorem Judged.insert_old {V : Set (ℕ → ℕ)} {s : Gen} (hV : Judged cfg V s) (hs : Reached cfg s.t)
    (hold : (∀ i, s.t i ≤ 4) → s.t ∈ V) : Judged cfg (V ∪ {s.t}) s := by
  have hiff : ∀ q : (ℕ → ℕ) → Prop, (∃ t ∈ V ∪ {s.t}, (∀ i, t i ≤ 4) ∧ q t) ↔
      ∃ t ∈ V, (∀ i, t i ≤ 4) ∧ q t := by
    intro q
    refine ⟨?_, ?_⟩
    · rintro ⟨t, ht | rfl, ht4, hq⟩
      · exact ⟨t, ht, ht4, hq⟩
      · exact ⟨s.t, hold ht4, ht4, hq⟩
    · rintro ⟨t, ht, h⟩
      exact ⟨t, .inl ht, h⟩
  refine ⟨hV.reached_insert hs, fun x => ?_, ?_⟩
  · rw [hV.tested, hiff]
  · simp only [hV.entries, hiff]

/-- `check_hu` puts `t` to what has been judged. -/
theorem checkHu_spec (hc : cfg.Sound chi) (horder : VisitOrder order) {V : Set (ℕ → ℕ)} {s : Gen}
    (hV : Judged cfg V s) (hs : Reached cfg s.t) :
    Judged cfg (V ∪ {s.t}) (checkHu cfg order s) ∧ (checkHu cfg order s).t = s.t := by
  -- off the kinds 1..34 there is nothing
  have hfour : ¬ ((List.range' 1 34).any fun i => s.t i > 4) = true → ∀ i, s.t i ≤ 4 := by
    intro hmany i
    by_contra hi
    have hsupport := hs.support hc (x := i) (by omega)
    have hkinds := hc.kinds_le
    exact hmany (List.any_eq_true.mpr
      ⟨i, List.mem_range'_1.mpr (by omega), by simpa using Nat.lt_of_not_le hi⟩)
  simp only [checkHu]
  split_ifs with hmany htested haccept
  · -- more than four tiles of a kind
    refine ⟨hV.insert_old hs fun h4 => ?_, rfl⟩
    obtain ⟨i, -, hi⟩ := List.any_eq_true.mp hmany
    have := h4 i
    simp at hi
    omega
  · -- judged before
    refine ⟨hV.insert_old hs fun h4 => ?_, rfl⟩
    obtain ⟨t, ht, ht4, hkey⟩ := (hV.tested _).mp htested
    rwa [testedKey_injective hc hs (hV.reached t ht) h4 ht4 hkey]
  · -- new: it is entered into `tested_tbl` and parsed
    have h4 := hfour hmany
    have hparse : Entered _ _ (parseTable cfg
        { s with tested := insert (Melds.key ((List.range' 1 cfg.kinds).map s.t)) s.tested }) :=
      parseTable_spec _
    refine ⟨⟨hV.reached_insert hs, fun x => ?_, ?_⟩, hparse.t⟩
    · rw [hparse.tested, Finset.mem_insert, hV.tested]
      refine ⟨?_, ?_⟩
      · rintro (rfl | ⟨t, ht, h⟩)
        · exact ⟨s.t, .inr rfl, h4, rfl⟩
        · exact ⟨t, .inl ht, h⟩
      · rintro ⟨t, ht | rfl, h⟩
        · exact .inr ⟨t, ht, h⟩
        · exact .inl h.2
    · have hentries := hparse.entries
      change _ = s.entries ∪ parsed cfg s.t at hentries
      rw [hentries, hV.entries]
      ext y
      refine ⟨?_, ?_⟩
      · rintro (⟨t, ht, h⟩ | hy)
        · exact ⟨t, .inl ht, h⟩
        · exact ⟨s.t, .inr rfl, h4, hy⟩
      · rintro ⟨t, ht | rfl, h⟩
        · exact .inl ⟨t, ht, h⟩
        · exact .inr h.2
  · -- `hulib` never rejects it
    exact absurd (hs.accepted hc horder (hfour hmany)) haccept

/-- `test_hu_sub` judges what is `t` with the melds still to come, and leaves `t`
as it was. -/
theorem testHuSub_spec (hc : cfg.Sound chi) (horder : VisitOrder order) {num : ℕ} (hnum : num ≤ 4)
    {V : Set (ℕ → ℕ)} {s : Gen} (hV : Judged cfg V s)
    (hreach : ∀ t, Extends cfg (5 - num) s.t t → Reached cfg t) :
    Judged cfg (V ∪ {t | Extends cfg (5 - num) s.t t}) (testHuSub cfg order num s) ∧
      (testHuSub cfg order num s).t = s.t := by
  induction hleft : 4 - num using Nat.strongRecOn generalizing num V s with
  | ind left ih =>
    have hsucc : 5 - num = 4 - num + 1 := by omega
    simp only [hsucc, extends_succ] at hreach ⊢
    rw [testHuSub]
    refine foldl_visits (P := fun V s' => Judged cfg V s' ∧ s'.t = s.t)
      (N := fun j => {t | Extends cfg (4 - num) (putMeld s.t (cfg.meld j)) t}) ?_ ⟨hV, rfl⟩
    rintro j hj W s' ⟨hW, ht⟩
    have hput := fun t ht => hreach t ⟨j, hj, ht⟩
    rw [← ht] at hput ⊢
    -- the round between putting the meld down and taking it up
    have hmid : ∀ u : Gen, Judged cfg W u → (∀ t, Extends cfg (4 - num) u.t t → Reached cfg t) →
        Judged cfg (W ∪ {t | Extends cfg (4 - num) u.t t})
            (if num < 4 then testHuSub cfg order (num + 1) u else checkHu cfg order u) ∧
          (if num < 4 then testHuSub cfg order (num + 1) u else checkHu cfg order u).t = u.t := by
      intro u hu hreach
      have hnext : 4 - num = 5 - (num + 1) := by omega
      by_cases hlt : num < 4
      · rw [if_pos hlt]
        rw [hnext] at hreach ⊢
        exact ih _ (by omega) hlt hu hreach rfl
      · obtain rfl : num = 4 := by omega
        have hlast : {t | Extends cfg (4 - 4) u.t t} = {u.t} := Set.ext fun t => extends_zero
        rw [hlast]
        exact checkHu_spec hc horder hu (hreach u.t (extends_zero.mpr rfl))
    obtain ⟨hjudged, hu⟩ := hmid { s' with t := putMeld s'.t (cfg.meld j) } (hW.set_t _) hput
    refine ⟨hjudged.set_t _, ?_⟩
    change takeMeld _ _ = _
    rw [hu, takeMeld_putMeld]

/-- A whole run judges every pair with four melds. -/
theorem genGuiTable_spec (hc : cfg.Sound chi) (horder : VisitOrder order) :
    Judged cfg {t | Reached cfg t} (genGuiTable cfg order) := by
  have hstart : Judged cfg ∅ ⟨fun _ => 0, fun _ _ => ∅, ∅⟩ := by
    refine ⟨by simp, by simp, ?_⟩
    simp [Gen.entries]
  have hround : ∀ i ∈ List.range' 1 cfg.kinds, ∀ (V : Set (ℕ → ℕ)) (s : Gen),
      (Judged cfg V s ∧ s.t = fun _ => 0) →
      Judged cfg (V ∪ {t | Extends cfg 4 (Function.update (fun _ => 0) i 2) t})
          ((testHuSub cfg order 1 (s.set i 2)).set i 0) ∧
        ((testHuSub cfg order 1 (s.set i 2)).set i 0).t = fun _ => 0 := by
    rintro i hi V s ⟨hV, ht⟩
    have hset : Judged cfg V (s.set i 2) := hV.set_t _
    rw [← ht]
    obtain ⟨hjudged, hu⟩ := testHuSub_spec hc horder (by decide : 1 ≤ 4) hset
      fun t h => ⟨i, hi, by rw [← ht]; exact h⟩
    refine ⟨hjudged.set_t _, ?_⟩
    change Function.update (testHuSub cfg order 1 (s.set i 2)).t i 0 = _
    rw [hu, Gen.set, Function.update_idem, ht]
    exact Function.update_eq_self i _
  have hloop := foldl_visits (P := fun V s => Judged cfg V s ∧ s.t = fun _ => 0) hround
    ⟨hstart, rfl⟩
  rw [Set.empty_union] at hloop
  exact hloop.1

/-! ## What the tables hold -/

/-- What is parsed are rows that the jokers of the table complete. -/
theorem Reached.fills (hc : cfg.Sound chi) {t w : ℕ → ℕ} {k : ℕ} (h : Reached cfg t)
    (ht4 : ∀ i, t i ≤ 4) (hw : Lowers cfg.indices k t w) :
    let eye := decide ((cfg.indices.map t).sum % 3 ≠ 0)
    (cfg.indices.map w).sum + k ≤ 12 + 2 * eye.toNat ∧
      Fills chi eye.toNat k (cfg.indices.map w) := by
  obtain ⟨i, ms, hi, hlen, hms, hdeal⟩ := reached_iff.mp h
  have hs := hdeal.splits fun m hm => (hc.melds m (hms m hm)).2.2
  have hle := hdeal.sum_le cfg.min (cfg.max + 1 - cfg.min)
  rw [sum_count_range'] at hs
  have hone := List.countP_le_length (l := [i])
    (p := fun y => decide (cfg.min ≤ y ∧ y < cfg.min + (cfg.max + 1 - cfg.min)))
  have hmod := hs.sum_mod
  have hsum := hw.2
  change (cfg.indices.map t).sum ≤ _ at hle
  change (cfg.indices.map t).sum % 3 = _ at hmod
  rw [List.length_singleton] at hle hone
  intro eye
  have heye : eye.toNat = [i].countP
      (fun y => decide (cfg.min ≤ y ∧ y < cfg.min + (cfg.max + 1 - cfg.min))) := by
    by_cases hpair : (cfg.indices.map t).sum % 3 = 0
    · rw [show eye = false from decide_eq_false (not_not.mpr hpair), Bool.toNat_false]
      omega
    · rw [show eye = true from decide_eq_true hpair, Bool.toNat_true]
      omega
  rw [heye]
  exact ⟨by omega, hw.fills (fun i _ => ht4 i) hs⟩

/-- One pair: the one on the key, or else one of the kind `f`. -/
theorem exists_pair (hc : cfg.Sound chi) {ps : List ℕ} {e f : ℕ} (he : e ≤ 1) (hlen : ps.length = e)
    (hps : ∀ p ∈ ps, p ∈ cfg.indices) (hoff : f ∉ cfg.indices) (hf : 1 ≤ f ∧ f ≤ cfg.kinds) :
    ∃ p, (1 ≤ p ∧ p ≤ cfg.kinds) ∧ ∀ x, [p].count x =
      if x ∈ cfg.indices then ps.count x else if x = f ∧ e = 0 then 1 else 0 := by
  obtain rfl | rfl : e = 0 ∨ e = 1 := by omega
  · obtain rfl := List.eq_nil_of_length_eq_zero hlen
    refine ⟨f, hf, fun x => ?_⟩
    by_cases hx : x = f
    · subst hx
      simp [hoff]
    · simp [hx, Ne.symm hx]
  · obtain ⟨p, rfl⟩ := List.length_eq_one_iff.mp hlen
    have hpin := hps p (List.mem_singleton_self p)
    refine ⟨p, ?_, fun x => ?_⟩
    · have hstretch := hc.stretch
      rw [GenCfg.indices, List.mem_range'_1] at hpin
      omega
    · by_cases hx : x ∈ cfg.indices
      · rw [if_pos hx]
      · have hne : x ≠ p := fun h => hx (h ▸ hpin)
        simp [hx, Ne.symm hne]

/-- Counts on a key that split are part of an array that is judged: melds and a
pair off the key make up for what is missing. -/
theorem exists_reached (hc : cfg.Sound chi) {u : ℕ → ℕ} {e : ℕ} (he : e ≤ 1)
    (hu4 : ∀ i ∈ cfg.indices, u i ≤ 4) (hu : ∀ i, i ∉ cfg.indices → u i = 0)
    (hsum : (cfg.indices.map u).sum ≤ 12 + 2 * e)
    (hs : Splits chi 0 0 e (cfg.indices.map u)) :
    ∃ t, Reached cfg t ∧ (∀ i, t i ≤ 4) ∧ ∀ i ∈ cfg.indices, t i = u i := by
  have hin : ∀ x, x ∈ cfg.indices ↔ cfg.min ≤ x ∧ x < cfg.min + (cfg.max + 1 - cfg.min) := fun x => by
    rw [GenCfg.indices, List.mem_range'_1]
  obtain ⟨ms, ps, hms, hps, hlen, hdeal⟩ := Splits.deals hs
  obtain ⟨f, hf⟩ := hc.filler
  have hdeals : Deals ms ps u := by
    intro x
    rw [← hdeal x]
    simp only [← hin]
    by_cases hx : x ∈ cfg.indices
    · rw [if_pos hx]
    · rw [if_neg hx, hu x hx]
  have htotal := hdeals.sum_of_within (fun m hm => (hms m hm).tiles) hps
  change (cfg.indices.map u).sum = _ at htotal
  obtain ⟨p, hp, hpair⟩ := exists_pair hc he hlen (fun q hq => (hin q).mpr (hps q hq))
    (hf (f + 4) (by omega) (by omega)).1 (hf (f + 4) (by omega) (by omega)).2.1
  -- triplets of the kinds from `f` on make up the four melds
  have hcount : ∀ x, tileCount (ms ++ (List.range' f (4 - ms.length)).map .triplet) x +
      2 * [p].count x = if x ∈ cfg.indices then u x
        else if f ≤ x ∧ x < f + (4 - ms.length) then 3
        else if x = f + 4 ∧ e = 0 then 2 else 0 := by
    intro x
    have hx := hdeals x
    rw [tileCount_append, tileCount_triplets, hpair]
    by_cases hxin : x ∈ cfg.indices
    · have hoff : ¬ (f ≤ x ∧ x < f + (4 - ms.length)) := fun h => (hf x h.1 (by omega)).1 hxin
      rw [if_pos hxin, if_pos hxin, if_neg hoff, hx, Nat.add_zero]
    · rw [if_neg hxin, if_neg hxin]
      rw [hu x hxin] at hx
      split_ifs <;> omega
  refine ⟨fun x => tileCount (ms ++ (List.range' f (4 - ms.length)).map .triplet) x +
    2 * [p].count x, reached_iff.mpr ⟨p, _, hp, ?_, ?_, fun _ => rfl⟩, fun x => ?_, fun x hx => ?_⟩
  · simp
    omega
  · intro m hm
    rcases List.mem_append.mp hm with hm | hm
    · exact hc.within m (hms m hm)
    · obtain ⟨i, hi, rfl⟩ := List.mem_map.mp hm
      obtain ⟨hi, hi'⟩ := List.mem_range'_1.mp hi
      exact (hf i hi (by omega)).2.2
  · simp only [hcount]
    split_ifs with hx
    · exact hu4 x hx
    all_goals omega
  · simp only [hcount]
    exact if_pos hx

/-- **The joker tables are exact**: a row of digits is in the table for `k` jokers iff
`k` tiles make it split into at most four melds, with one pair in the tables with
eye. -/
theorem mem_tables_digits (hc : cfg.Sound chi) (horder : VisitOrder order) {w : List ℕ}
    (hlen : w.length = cfg.max + 1 - cfg.min) (hw : ∀ c ∈ w, c < 10) {eye : Bool} {k : ℕ} :
    Melds.key w ∈ (genGuiTable cfg order).tables eye k ↔
      k ≤ 4 ∧ w.sum + k ≤ 12 + 2 * eye.toNat ∧ Fills chi eye.toNat k w := by
  have hentries := (genGuiTable_spec hc horder).entries
  have hmem : Melds.key w ∈ (genGuiTable cfg order).tables eye k ↔
      (eye, k, Melds.key w) ∈ (genGuiTable cfg order).entries := Iff.rfl
  rw [hmem, hentries]
  obtain ⟨v, rfl, hv⟩ := exists_map_of_length (indices_nodup cfg)
    (by simpa [GenCfg.indices] using hlen) (fun _ => 0)
  refine ⟨?_, ?_⟩
  · -- rows of one length with digits below ten are told apart by their keys
    rintro ⟨t, ht, ht4, rfl, k, w, rfl, hk, hlow, hkey⟩
    have hrow : cfg.indices.map v = cfg.indices.map w := by
      refine key_injective_of_length (by simp) hw (fun c hc => ?_) hkey
      obtain ⟨i, hi, rfl⟩ := List.mem_map.mp hc
      have := hlow.1 i hi
      have := ht4 i
      omega
    rw [hrow, Nat.zero_add]
    exact ⟨by omega, Reached.fills hc ht ht4 hlow⟩
  · rintro ⟨hk, hsum, hfills⟩
    obtain ⟨u, hlow, hu4, hout, hs⟩ := hfills.exists_counts (indices_nodup cfg)
    have htotal := hlow.2
    obtain ⟨t, ht, ht4, htu⟩ := exists_reached hc (Bool.toNat_le eye) hu4
      (fun i hi => (hout i hi).trans (hv i hi)) (by omega) hs
    have hrow : cfg.indices.map t = cfg.indices.map u := List.map_congr_left htu
    refine ⟨t, ht, ht4, ?_, k, v, (Nat.zero_add k).symm, by omega, ⟨fun i hi => ?_, ?_⟩, rfl⟩
    · have hmod := hs.sum_mod
      rw [hrow]
      cases eye with
      | false => simp [hmod]
      | true => simp [hmod]
    · rw [htu i hi]
      exact hlow.1 i hi
    · rw [hrow, htotal]

/-- A row of counts, none above four, is in the table for `k` jokers iff `k` tiles make
it split. -/
theorem mem_tables (hc : cfg.Sound chi) (horder : VisitOrder order) {w : List ℕ}
    (hlen : w.length = cfg.max + 1 - cfg.min) (hw : ∀ c ∈ w, c ≤ 4) {eye : Bool} {k : ℕ} :
    Melds.key w ∈ (genGuiTable cfg order).tables eye k ↔
      k ≤ 4 ∧ w.sum + k ≤ 12 + 2 * eye.toNat ∧ Fills chi eye.toNat k w := by
  refine mem_tables_digits hc horder hlen fun c hcw => ?_
  have := hw c hcw
  omega

/-! ## The recursions put the array back -/

theorem checkHu_t (s : Gen) : (checkHu cfg order s).t = s.t := by
  simp only [checkHu]
  split_ifs
  · rfl
  · rfl
  · exact (parseTable_spec _).t
  · rfl

/-- `test_hu_sub` leaves `t` as it was. -/
theorem testHuSub_t (num : ℕ) (s : Gen) : (testHuSub cfg order num s).t = s.t := by
  induction hleft : 4 - num using Nat.strongRecOn generalizing num s with
  | ind left ih =>
    have hround : ∀ (js : List ℕ) (s : Gen), (js.foldl (fun s j =>
        let s := { s with t := putMeld s.t (cfg.meld j) }
        let s := if num < 4 then testHuSub cfg order (num + 1) s else checkHu cfg order s
        { s with t := takeMeld s.t (cfg.meld j) }) s).t = s.t := by
      intro js
      induction js with
      | nil => exact fun _ => rfl
      | cons j js ihjs =>
        intro s
        rw [List.foldl_cons, ihjs]
        by_cases hlt : num < 4
        · simp only [if_pos hlt]
          rw [ih _ (by omega) (num + 1) _ rfl, takeMeld_putMeld]
        · simp only [if_neg hlt]
          rw [checkHu_t, takeMeld_putMeld]
    rw [testHuSub]
    exact hround _ s

/-! ## The two generators -/

/-- **The joker tables hold exactly the keys that jokers complete.** After a run of a
generator the table for `k` jokers, without eye or with it, contains a key of nine
digits (of seven, for the honours) iff by adding `k` tiles the digits can be turned into
counts, each at most four, that are the sum of at most four melds and, with eye, a pair;
for the honours there are no sequences. The recursions put the array back. -/
theorem joker_tables_exact (horder : VisitOrder order) :
    (∀ (eye : Bool) (k : ℕ), k ≤ 4 → ∀ w : List ℕ, w.length = 9 → (∀ c ∈ w, c < 10) →
        (Melds.key w ∈ (genGuiTable autoGui order).tables eye k ↔
          Completed true 4 eye.toNat k w)) ∧
      (∀ (eye : Bool) (k : ℕ), k ≤ 4 → ∀ w : List ℕ, w.length = 7 → (∀ c ∈ w, c < 10) →
        (Melds.key w ∈ (genGuiTable autoFengGui order).tables eye k ↔
          Completed false 4 eye.toNat k w)) ∧
      (∀ (cfg : GenCfg) (num : ℕ) (eye : Bool) (s : Gen), num ≤ 4 →
        (parseTableSub cfg num eye s).t = s.t) ∧
      ∀ (cfg : GenCfg) (num : ℕ) (s : Gen), (testHuSub cfg order num s).t = s.t := by
  refine ⟨fun eye k hk w hlen hw => ?_, fun eye k hk w hlen hw => ?_,
    fun cfg num eye s hnum => (parseTableSub_spec hnum eye s).t,
    fun cfg num s => testHuSub_t num s⟩
  · rw [mem_tables_digits sound_autoGui horder hlen hw, completed_iff]
    exact and_iff_right hk
  · rw [mem_tables_digits sound_autoFengGui horder hlen hw, completed_iff]
    exact and_iff_right hk

/-- Two tiles of the first rank and one of the second are completed by two jokers:
a sequence and a pair. -/
theorem joker_tables_exact_twoJokers :
    Melds.key [2, 1, 0, 0, 0, 0, 0, 0, 0] ∈ (genGuiTable autoGui colours).tables true 2 := by
  have hexact := (joker_tables_exact visitOrder_colours).1 true 2 (by decide)
    [2, 1, 0, 0, 0, 0, 0, 0, 0] rfl (by decide)
  exact hexact.mpr ⟨[3, 1, 1, 0, 0, 0, 0, 0, 0], by simp, rfl, by decide, [.sequence 1], [1],
    by decide, rfl, by simp [Meld.Within], by simp, by decide⟩

end SlgServer.Gui
