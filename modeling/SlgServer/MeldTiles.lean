import SlgServer.Melds
import Mathlib.Tactic.Ring
import Mathlib.Algebra.BigOperators.Group.List.Basic

/-!
# Melds as sets of tiles

`Splits` speaks of counts; here the melds themselves are tiles on a line. A
`Meld` is a triplet or a sequence, `Meld.tiles` lists its three places, and a
row of counts on a stretch of the line splits iff its tiles can be dealt out
into melds inside the stretch and pairs (`Splits.deals`, `Deals.splits`).
-/

namespace Melds

/-- A meld: three tiles of one place, or one tile of three neighbouring places,
named by the first. -/
inductive Meld : Type where
  /-- three tiles at `i` -/
  | triplet (i : ℕ)
  /-- one tile at each of `i`, `i + 1`, `i + 2` -/
  | sequence (i : ℕ)
  deriving DecidableEq

/-- The places of the three tiles of a meld. -/
def Meld.tiles : Meld → List ℕ
  | .triplet i => [i, i, i]
  | .sequence i => [i, i + 1, i + 2]

/-- The meld lies on the `n` places from `lo`; sequences only where `chi`. -/
def Meld.Within (chi : Bool) (lo n : ℕ) : Meld → Prop
  | .triplet i => lo ≤ i ∧ i < lo + n
  | .sequence i => chi = true ∧ lo ≤ i ∧ i + 2 < lo + n

@[simp] theorem Meld.length_tiles (m : Meld) : m.tiles.length = 3 := by
  cases m <;> rfl

/-- How often the place `x` occurs among the tiles of some melds. -/
def tileCount (ms : List Meld) (x : ℕ) : ℕ := (ms.flatMap Meld.tiles).count x

@[simp] theorem tileCount_nil (x : ℕ) : tileCount [] x = 0 := rfl

@[simp] theorem tileCount_cons (m : Meld) (ms : List Meld) (x : ℕ) :
    tileCount (m :: ms) x = m.tiles.count x + tileCount ms x := by
  rw [tileCount, List.flatMap_cons, List.count_append]
  rfl

@[simp] theorem tileCount_append (ms ms' : List Meld) (x : ℕ) :
    tileCount (ms ++ ms') x = tileCount ms x + tileCount ms' x := by
  rw [tileCount, List.flatMap_append, List.count_append]
  rfl

@[simp] theorem tileCount_replicate (t : ℕ) (m : Meld) (x : ℕ) :
    tileCount (List.replicate t m) x = t * m.tiles.count x := by
  induction t with
  | zero => simp
  | succ t ih =>
    rw [List.replicate_succ, tileCount_cons, ih]
    ring

theorem tileCount_eq_zero {ms : List Meld} {x : ℕ} (h : ∀ m ∈ ms, m.tiles.count x = 0) :
    tileCount ms x = 0 := by
  induction ms with
  | nil => rfl
  | cons m ms ih =>
    obtain ⟨hm, hms⟩ := List.forall_mem_cons.mp h
    rw [tileCount_cons, hm, ih hms]

theorem Meld.count_triplet (i x : ℕ) :
    (Meld.triplet i).tiles.count x = if i = x then 3 else 0 := by
  by_cases h : i = x <;> simp [Meld.tiles, h]

theorem Meld.count_sequence (i x : ℕ) :
    (Meld.sequence i).tiles.count x = if i ≤ x ∧ x ≤ i + 2 then 1 else 0 := by
  simp only [Meld.tiles, List.count_cons, List.count_nil, beq_iff_eq]
  by_cases h : i ≤ x ∧ x ≤ i + 2
  · obtain rfl | rfl | rfl : x = i ∨ x = i + 1 ∨ x = i + 2 := by omega
    all_goals simp
  · rw [if_neg h, if_neg (by omega), if_neg (by omega), if_neg (by omega)]

/-- Summing the counts of a list over a stretch counts its members there. -/
theorem sum_count_range' (l : List ℕ) (lo n : ℕ) :
    ((List.range' lo n).map fun x => l.count x).sum =
      l.countP fun y => decide (lo ≤ y ∧ y < lo + n) := by
  have hone : ∀ y, ((List.range' lo n).map fun x => if y = x then 1 else 0).sum =
      if lo ≤ y ∧ y < lo + n then 1 else 0 := by
    intro y
    induction n generalizing lo with
    | zero => rw [if_neg (by omega)]; rfl
    | succ n ih =>
      rw [List.range'_succ, List.map_cons, List.sum_cons, ih]
      split_ifs <;> omega
  induction l with
  | nil => simp
  | cons y l ih =>
    simp only [List.count_cons, beq_iff_eq, List.sum_map_add, ih, hone, List.countP_cons,
      decide_eq_true_eq]

theorem length_flatMap_tiles (ms : List Meld) :
    (ms.flatMap Meld.tiles).length = 3 * ms.length := by
  induction ms with
  | nil => rfl
  | cons m ms ih =>
    rw [List.flatMap_cons, List.length_append, Meld.length_tiles, List.length_cons, ih]
    omega

/-! ## Counting the melds of a deal -/

/-- How many sequences of `ms` begin two places before `k`. -/
def begun (ms : List Meld) : ℕ → ℕ
  | 0 => 0
  | 1 => 0
  | k + 2 => ms.count (.sequence k)

/-- The tiles at a place come from its triplets and the sequences begun here, one
place before and two places before. -/
theorem tileCount_eq (ms : List Meld) (x : ℕ) :
    tileCount ms x =
      3 * ms.count (.triplet x) + begun ms (x + 2) + begun ms (x + 1) + begun ms x := by
  have hbegun : ∀ (m : Meld) (ms : List Meld) (k : ℕ),
      begun (m :: ms) k = begun ms k + if m = .sequence (k - 2) ∧ 2 ≤ k then 1 else 0 := by
    intro m ms k
    match k with
    | 0 => simp [begun]
    | 1 => simp [begun]
    | k + 2 => simp [begun, List.count_cons]
  induction ms with
  | nil =>
    match x with
    | 0 => rfl
    | 1 => rfl
    | x + 2 => simp [begun]
  | cons m ms ih =>
    rw [tileCount_cons, ih, hbegun, hbegun, hbegun, List.count_cons]
    cases m with
    | triplet i =>
      rw [Meld.count_triplet]
      by_cases h : i = x
      · simp [h]
        omega
      · simp [h]
    | sequence i =>
      rw [Meld.count_sequence]
      simp only [beq_iff_eq, reduceCtorEq, if_false, Meld.sequence.injEq]
      split_ifs <;> omega

/-- **Counts of multiplicities split.** If on a stretch the count at each place
is made of `t` triplets, the sequences `S` and `d` pairs, and no sequence runs
over the end, the row of counts splits. -/
theorem splits_of_multiplicities {chi : Bool} {h t S d : ℕ → ℕ} {lo n : ℕ}
    (hcount : ∀ i, lo ≤ i → i < lo + n →
      h i = 3 * t i + S (i + 2) + S (i + 1) + S i + 2 * d i)
    (hchi : chi = false → ∀ i, lo ≤ i → i < lo + n → S (i + 2) = 0)
    (hend : S (lo + n) = 0 ∧ S (lo + n + 1) = 0) :
    Splits chi (S (lo + 1)) (S lo) ((List.range' lo n).map d).sum
      ((List.range' lo n).map h) := by
  induction n generalizing lo with
  | zero => exact splits_nil.mpr ⟨hend.2, hend.1, rfl⟩
  | succ n ih =>
    rw [List.range'_succ, List.map_cons, List.map_cons, List.sum_cons]
    refine .cons (t lo) (S (lo + 2)) (d lo) (fun hf => hchi hf lo (Nat.le_refl _) (by omega))
      (hcount lo (Nat.le_refl _) (by omega)) ?_
    refine @ih (lo + 1) (fun i hi hi' => hcount i (by omega) (by omega))
      (fun hf i hi hi' => hchi hf i (by omega) (by omega)) ?_
    have heq : lo + 1 + n = lo + (n + 1) := by omega
    rwa [heq]

/-! ## Dealing a row out -/

/-- The tiles owed to sequences begun before `lo`. -/
def owed (a b lo x : ℕ) : ℕ := (if lo ≤ x ∧ x ≤ lo + 1 then a else 0) + if x = lo then b else 0

/-- **A row that splits can be dealt out** into melds within its stretch and
pairs, apart from the tiles owed to the left. -/
theorem Splits.deal {chi : Bool} {h : ℕ → ℕ} {a b e lo n : ℕ}
    (hs : Splits chi a b e ((List.range' lo n).map h)) :
    ∃ (ms : List Meld) (ps : List ℕ), (∀ m ∈ ms, m.Within chi lo n) ∧
      (∀ p ∈ ps, lo ≤ p ∧ p < lo + n) ∧ ps.length = e ∧
      ∀ x, tileCount ms x + 2 * ps.count x + owed a b lo x =
        if lo ≤ x ∧ x < lo + n then h x else 0 := by
  induction n generalizing a b e lo with
  | zero =>
    obtain ⟨rfl, rfl, rfl⟩ := splits_nil.mp hs
    refine ⟨[], [], by simp, by simp, rfl, fun x => ?_⟩
    rw [if_neg (by omega)]
    simp [owed]
  | succ n ih =>
    rw [List.range'_succ, List.map_cons] at hs
    obtain ⟨t, s, d, e', hchi, hc, rfl, hrest⟩ := splits_cons.mp hs
    obtain ⟨ms, ps, hms, hps, hlen, hcount⟩ := ih hrest
    -- a sequence begun here finds both its other tiles in the stretch
    have hroom : s ≠ 0 → lo + 2 < lo + (n + 1) := by
      intro hne
      have h2 := hcount (lo + 2)
      simp only [owed] at h2
      split_ifs at h2 <;> omega
    refine ⟨List.replicate t (.triplet lo) ++ (List.replicate s (.sequence lo) ++ ms),
      List.replicate d lo ++ ps, ?_, ?_, by simp [hlen], fun x => ?_⟩
    · intro m hm
      rcases List.mem_append.mp hm with hm | hm
      · obtain ⟨-, rfl⟩ := List.mem_replicate.mp hm
        exact ⟨Nat.le_refl _, by omega⟩
      · rcases List.mem_append.mp hm with hm | hm
        · obtain ⟨hne, rfl⟩ := List.mem_replicate.mp hm
          refine ⟨?_, Nat.le_refl _, hroom hne⟩
          cases chi with
          | true => rfl
          | false => exact absurd (hchi rfl) hne
        · have := hms m hm
          cases m with
          | triplet i => exact ⟨by have := this.1; omega, by have := this.2; omega⟩
          | sequence i => exact ⟨this.1, by have := this.2.1; omega, by have := this.2.2; omega⟩
    · intro p hp
      rcases List.mem_append.mp hp with hp | hp
      · obtain ⟨-, rfl⟩ := List.mem_replicate.mp hp
        omega
      · have := hps p hp
        omega
    · have hx := hcount x
      simp only [tileCount_append, tileCount_replicate, Meld.count_triplet, Meld.count_sequence,
        List.count_append, List.count_replicate, beq_iff_eq, owed] at hx ⊢
      by_cases hlo : x = lo
      · subst hlo
        rw [if_neg (by omega), if_neg (by omega), if_neg (by omega)] at hx
        simp
        omega
      · have hlo' : ¬ lo = x := fun h => hlo h.symm
        rw [if_neg hlo', if_neg hlo', if_neg hlo]
        split_ifs at hx ⊢ <;> omega

/-- The melds `ms` and the pairs at the places `ps` are exactly the tiles of the
counts `h`. -/
def Deals (ms : List Meld) (ps : List ℕ) (h : ℕ → ℕ) : Prop :=
  ∀ x, h x = tileCount ms x + 2 * ps.count x

/-- A row that splits, with nothing owed, is dealt out into melds and pairs of
its own stretch. -/
theorem Splits.deals {chi : Bool} {h : ℕ → ℕ} {e lo n : ℕ}
    (hs : Splits chi 0 0 e ((List.range' lo n).map h)) :
    ∃ (ms : List Meld) (ps : List ℕ), (∀ m ∈ ms, m.Within chi lo n) ∧
      (∀ p ∈ ps, lo ≤ p ∧ p < lo + n) ∧ ps.length = e ∧
      Deals ms ps fun x => if lo ≤ x ∧ x < lo + n then h x else 0 := by
  obtain ⟨ms, ps, hms, hps, hlen, hcount⟩ := hs.deal
  refine ⟨ms, ps, hms, hps, hlen, fun x => ?_⟩
  have hx := hcount x
  simp only [owed, ite_self, Nat.add_zero] at hx
  exact hx.symm

/-- The meld does not cross the borders of the stretch, and inside it keeps to
the rule `chi` on sequences. -/
def Meld.Respects (chi : Bool) (lo n : ℕ) : Meld → Prop
  | .triplet _ => True
  | .sequence i => i + 2 < lo ∨ lo + n ≤ i ∨ (chi = true ∧ lo ≤ i ∧ i + 2 < lo + n)

theorem begun_eq_zero {ms : List Meld} {k : ℕ} (h : ∀ i, k = i + 2 → Meld.sequence i ∉ ms) :
    begun ms k = 0 := by
  match k with
  | 0 => rfl
  | 1 => rfl
  | k + 2 => exact List.count_eq_zero_of_not_mem (h k rfl)

/-- **A deal splits every stretch** whose borders its melds respect; the pairs of
the row are those dealt at its places. -/
theorem Deals.splits {chi : Bool} {h : ℕ → ℕ} {lo n : ℕ} {ms : List Meld} {ps : List ℕ}
    (hd : Deals ms ps h) (hms : ∀ m ∈ ms, m.Respects chi lo n) :
    Splits chi 0 0 ((List.range' lo n).map fun x => ps.count x).sum
      ((List.range' lo n).map h) := by
  -- no sequence crosses a border, so nothing is owed at either end
  have hzero : ∀ k, (k = lo ∨ k = lo + 1 ∨ k = lo + n ∨ k = lo + n + 1) → begun ms k = 0 := by
    intro k hk
    refine begun_eq_zero fun i hi hmem => ?_
    have := hms _ hmem
    simp only [Meld.Respects] at this
    omega
  have hs : Splits chi (begun ms (lo + 1)) (begun ms lo)
      ((List.range' lo n).map fun x => ps.count x).sum ((List.range' lo n).map h) := by
    refine splits_of_multiplicities (t := fun x => ms.count (.triplet x)) (S := begun ms)
      (d := fun x => ps.count x) (fun i _ _ => by rw [hd i, tileCount_eq]) ?_
      ⟨hzero _ (.inr (.inr (.inl rfl))), hzero _ (.inr (.inr (.inr rfl)))⟩
    rintro rfl i hi hi'
    refine begun_eq_zero fun j hj hmem => ?_
    have := hms _ hmem
    simp only [Meld.Respects, reduceCtorEq, false_and, or_false] at this
    omega
  rwa [hzero _ (.inl rfl), hzero _ (.inr (.inl rfl))] at hs

/-- The tiles of a stretch are those dealt to its places. -/
theorem Deals.sum_eq {h : ℕ → ℕ} {ms : List Meld} {ps : List ℕ} (hd : Deals ms ps h) (lo n : ℕ) :
    ((List.range' lo n).map h).sum =
      (ms.flatMap Meld.tiles).countP (fun y => decide (lo ≤ y ∧ y < lo + n)) +
        2 * ps.countP fun y => decide (lo ≤ y ∧ y < lo + n) := by
  rw [← sum_count_range', ← sum_count_range', Nat.two_mul, ← List.sum_map_add, ← List.sum_map_add]
  refine congrArg List.sum (List.map_congr_left fun x _ => ?_)
  rw [hd x, Nat.two_mul]
  rfl

/-- A stretch holds no more tiles than the deal. -/
theorem Deals.sum_le {h : ℕ → ℕ} {ms : List Meld} {ps : List ℕ} (hd : Deals ms ps h) (lo n : ℕ) :
    ((List.range' lo n).map h).sum ≤ 3 * ms.length + 2 * ps.length := by
  have hle := List.countP_le_length (l := ms.flatMap Meld.tiles)
    (p := fun y => decide (lo ≤ y ∧ y < lo + n))
  have hle' := List.countP_le_length (l := ps) (p := fun y => decide (lo ≤ y ∧ y < lo + n))
  have htiles := length_flatMap_tiles ms
  rw [hd.sum_eq]
  omega

/-- A stretch on which all was dealt holds three tiles a meld and two a pair. -/
theorem Deals.sum_of_within {h : ℕ → ℕ} {ms : List Meld} {ps : List ℕ} (hd : Deals ms ps h)
    {lo n : ℕ} (hms : ∀ m ∈ ms, ∀ y ∈ m.tiles, lo ≤ y ∧ y < lo + n)
    (hps : ∀ p ∈ ps, lo ≤ p ∧ p < lo + n) :
    ((List.range' lo n).map h).sum = 3 * ms.length + 2 * ps.length := by
  have htiles : (ms.flatMap Meld.tiles).countP (fun y => decide (lo ≤ y ∧ y < lo + n)) =
      (ms.flatMap Meld.tiles).length := by
    refine List.countP_eq_length.mpr fun y hy => ?_
    obtain ⟨m, hm, hym⟩ := List.mem_flatMap.mp hy
    exact decide_eq_true (hms m hm y hym)
  have hpairs : ps.countP (fun y => decide (lo ≤ y ∧ y < lo + n)) = ps.length :=
    List.countP_eq_length.mpr fun p hp => decide_eq_true (hps p hp)
  rw [hd.sum_eq, htiles, hpairs, length_flatMap_tiles]

theorem Meld.Within.tiles {chi : Bool} {lo n : ℕ} {m : Meld} (hm : m.Within chi lo n) :
    ∀ y ∈ m.tiles, lo ≤ y ∧ y < lo + n := by
  intro y hy
  cases m <;>
  · simp only [Meld.Within] at hm
    simp only [Meld.tiles, List.mem_cons, List.not_mem_nil, or_false] at hy
    omega

/-- One triplet at each place of a stretch. -/
theorem tileCount_triplets (lo n x : ℕ) :
    tileCount ((List.range' lo n).map .triplet) x = if lo ≤ x ∧ x < lo + n then 3 else 0 := by
  induction n generalizing lo with
  | zero =>
    rw [if_neg (by omega)]
    rfl
  | succ n ih =>
    rw [List.range'_succ, List.map_cons, tileCount_cons, ih, Meld.count_triplet]
    split_ifs <;> omega

end Melds
