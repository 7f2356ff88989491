import SlgServer.Timer
import Mathlib.Algebra.Order.Group.Nat
import Mathlib.Algebra.Order.Ring.Nat
import Mathlib.Tactic.IntervalCases
import Mathlib.Tactic.Ring

/-!
# Where a timer lies

The wheel knows times up to `2 ^ 32` only, but what it holds is due less than `2 ^ 31` ticks
from now, and so its lists can be described with times that never run over: `place due now`
is the list in which a node lies at the tick `now` (`slotOf_eq`).

From one tick to the next a node changes its list only if its list is the one that
`timer_shift` moves (`place_stays`). Then it goes to a list of a lower level
(`depth_place_lt`), and all lists of lower levels are empty (`le_depth_place`).
-/

namespace SlgServer.Timer

/-! ## Levels -/

/-- How many bits of a time say the position within one list of level `k`. -/
def bits (k : ℕ) : ℕ := 8 + 6 * k

/-- At which level a node lies: the first, 4 at most, at which `due` and `now` do not differ
any more. Level 0 is `near`, and level `k + 1` is `t[k]`. -/
def depth (due now : ℕ) : ℕ :=
  (List.range 4).findIdx fun k => due / 2 ^ bits k = now / 2 ^ bits k

/-- The list in which a node lies. -/
def place (due now : ℕ) : Slot :=
  match depth due now with
  | 0 => .near (due % 2 ^ 8)
  | k + 1 => .level k (due / 2 ^ bits k % 64)

/-- How many levels run over at the tick `now`. -/
def runOver (now : ℕ) : ℕ := (List.range 4).findIdx fun k => ¬ 2 ^ bits k ∣ now

/-- The list that `timer_shift` moves at the tick `now`. -/
def moved (now : ℕ) : Option Slot :=
  match runOver now with
  | 0 => none
  | k + 1 => some (.level k (now / 2 ^ bits k % 64))

/-- The level of a list. -/
def Slot.depth : Slot → ℕ
  | .near _ => 0
  | .level k _ => k + 1

@[simp] theorem depth_place (due now : ℕ) : (place due now).depth = depth due now := by
  rw [place]
  split <;> simp_all [Slot.depth]

theorem bits_le {j k : ℕ} (h : j ≤ k) : bits j ≤ bits k :=
  Nat.add_le_add_left (Nat.mul_le_mul_left 6 h) 8

theorem pow_bits_succ (k : ℕ) : 2 ^ bits (k + 1) = 2 ^ bits k * 64 := by
  rw [bits, bits, Nat.mul_succ, ← Nat.add_assoc, pow_add]
  rfl

theorem div_pow_bits_succ (n k : ℕ) : n / 2 ^ bits (k + 1) = n / 2 ^ bits k / 64 := by
  rw [pow_bits_succ, Nat.div_div_eq_div_mul]

/-- What does not differ at a level does not differ at any higher one. -/
theorem div_congr {a b j k : ℕ} (h : a / 2 ^ bits j = b / 2 ^ bits j) (hjk : j ≤ k) :
    a / 2 ^ bits k = b / 2 ^ bits k := by
  obtain ⟨d, hd⟩ := Nat.exists_eq_add_of_le (bits_le hjk)
  rw [hd, pow_add, ← Nat.div_div_eq_div_mul, h, Nat.div_div_eq_div_mul]

/-- The first `k` below `n` at which `p` holds. -/
theorem lt_findIdx_range {p : ℕ → Bool} (hp : ∀ j k, j ≤ k → p j → p k) {n k : ℕ} :
    k < (List.range n).findIdx p ↔ k < n ∧ p k = false := by
  constructor
  · intro h
    have hn : k < n := by
      have := Nat.lt_of_lt_of_le h List.findIdx_le_length
      rwa [List.length_range] at this
    have := List.not_of_lt_findIdx h
    exact ⟨hn, by simpa using this⟩
  · rintro ⟨hn, hk⟩
    by_contra hle
    have hlt : (List.range n).findIdx p < (List.range n).length := by
      rw [List.length_range]
      exact Nat.lt_of_le_of_lt (Nat.le_of_not_lt hle) hn
    have hfound := List.findIdx_getElem (w := hlt)
    rw [List.getElem_range] at hfound
    rw [hp _ _ (Nat.le_of_not_lt hle) hfound] at hk
    cases hk

theorem lt_depth_iff {due now k : ℕ} :
    k < depth due now ↔ k < 4 ∧ due / 2 ^ bits k ≠ now / 2 ^ bits k := by
  rw [depth, lt_findIdx_range fun j k hjk h => by simpa using div_congr (by simpa using h) hjk,
    decide_eq_false_iff_not]

theorem lt_runOver_iff {now k : ℕ} : k < runOver now ↔ k < 4 ∧ 2 ^ bits k ∣ now := by
  rw [runOver, lt_findIdx_range, decide_eq_false_iff_not, not_not]
  intro j k hjk h
  have hdvd : 2 ^ bits j ∣ 2 ^ bits k := pow_dvd_pow 2 (bits_le hjk)
  exact decide_eq_true fun hk => of_decide_eq_true h (hdvd.trans hk)

theorem depth_le_four (due now : ℕ) : depth due now ≤ 4 :=
  Nat.le_of_not_lt fun h => absurd (lt_depth_iff.mp h).1 (by decide)

/-! ## From one tick to the next -/

/-- A level that runs over goes on by one. -/
theorem succ_div_of_lt {now k : ℕ} (h : k < runOver (now + 1)) :
    (now + 1) / 2 ^ bits k = now / 2 ^ bits k + 1 :=
  Nat.succ_div_of_dvd (lt_runOver_iff.mp h).2

/-- The other levels stay. -/
theorem succ_div_of_le {now k : ℕ} (h : runOver (now + 1) ≤ k) (hk : k < 4) :
    (now + 1) / 2 ^ bits k = now / 2 ^ bits k :=
  Nat.succ_div_of_not_dvd fun hdvd => Nat.not_lt_of_le h (lt_runOver_iff.mpr ⟨hk, hdvd⟩)

variable {due now : ℕ}

/-- Whatever is not due yet lies at a level that does not run over, or at the last that
does. -/
theorem runOver_le_depth (h : now < due) : runOver (now + 1) ≤ depth due now := by
  refine le_of_forall_lt fun k hk => lt_depth_iff.mpr ⟨(lt_runOver_iff.mp hk).1, fun heq => ?_⟩
  have hle : (now + 1) / 2 ^ bits k ≤ due / 2 ^ bits k := Nat.div_le_div_right h
  rw [succ_div_of_lt hk, heq] at hle
  exact Nat.not_succ_le_self _ hle

/-- A node either stays at its level or goes below the levels that run over. -/
theorem depth_succ_of_le (h : now < due) (hle : runOver (now + 1) ≤ depth due (now + 1)) :
    depth due (now + 1) = depth due now := by
  refine eq_of_forall_lt_iff fun k => ?_
  rcases Nat.lt_or_ge k (runOver (now + 1)) with hk | hk
  · exact iff_of_true (Nat.lt_of_lt_of_le hk hle) (Nat.lt_of_lt_of_le hk (runOver_le_depth h))
  · rw [lt_depth_iff, lt_depth_iff]
    exact and_congr_right fun h4 => by rw [succ_div_of_le hk h4]

/-- The node lies in the list that is moved if and only if it goes below the levels that run
over. -/
theorem moved_eq_place_iff (h : now < due) (hfar : due < now + 2 ^ 31) :
    moved (now + 1) = some (place due now) ↔ depth due (now + 1) < runOver (now + 1) := by
  rw [moved, place]
  cases hr : runOver (now + 1) with
  | zero => exact iff_of_false (by simp) (Nat.not_lt_zero _)
  | succ r =>
    have hrr : r < runOver (now + 1) := hr ▸ Nat.lt_succ_self r
    have h4 : r < 4 := (lt_runOver_iff.mp hrr).1
    have hlt : depth due (now + 1) < r + 1 ↔ due / 2 ^ bits r = (now + 1) / 2 ^ bits r := by
      rw [Nat.lt_succ_iff, ← not_lt, lt_depth_iff, not_and, not_not]
      exact ⟨fun hd => hd h4, fun hd _ => hd⟩
    have hle : r + 1 ≤ depth due now := hr ▸ runOver_le_depth h
    rw [hlt]
    cases hd : depth due now with
    | zero => exact absurd hle (hd ▸ Nat.not_succ_le_zero r)
    | succ d =>
      dsimp only
      rw [Option.some_inj, Slot.level.injEq]
      constructor
      · -- same level and same list of it, and nothing differs above
        rintro ⟨rfl, hdigit⟩
        have hup : due / 2 ^ bits r / 64 = (now + 1) / 2 ^ bits r / 64 ∨
            (r = 3 ∧ due / 2 ^ bits r ≤ (now + 1) / 2 ^ bits r + 32) := by
          rcases Nat.lt_or_ge (r + 1) 4 with h4 | h4
          · left
            have hnot : ¬ r + 1 < depth due now := hd ▸ lt_irrefl _
            rw [lt_depth_iff, not_and, not_not] at hnot
            rw [← div_pow_bits_succ, ← div_pow_bits_succ, hnot h4]
            exact (succ_div_of_le hr.le h4).symm
          · obtain rfl : r = 3 := by omega
            refine .inr ⟨rfl, ?_⟩
            have hdiv : due / 2 ^ bits 3 ≤ (now + 1 + 2 ^ 26 * 32) / 2 ^ bits 3 :=
              Nat.div_le_div_right (by omega)
            rwa [bits, Nat.add_mul_div_left _ _ (by decide)] at hdiv
        have hge : (now + 1) / 2 ^ bits r ≤ due / 2 ^ bits r := Nat.div_le_div_right h
        omega
      · intro heq
        have hdr : d = r := by
          have hnot : ¬ r + 1 < depth due now := by
            rw [lt_depth_iff, not_and, not_not]
            exact fun h4 => (div_congr heq (Nat.le_succ r)).trans (succ_div_of_le hr.le h4)
          rw [hd] at hnot hle
          omega
        subst hdr
        exact ⟨rfl, by rw [heq]⟩

/-- A node stays in its list, unless its list is the one that is moved. -/
theorem place_stays (h : now < due) (hfar : due < now + 2 ^ 31)
    (hne : moved (now + 1) ≠ some (place due now)) : place due (now + 1) = place due now := by
  rw [Ne, moved_eq_place_iff h hfar, Nat.not_lt] at hne
  rw [place, place, depth_succ_of_le h hne]

/-- A node whose list is moved goes to a lower level. -/
theorem depth_place_lt (h : now < due) (hfar : due < now + 2 ^ 31) {slot : Slot}
    (hslot : moved (now + 1) = some slot) (hdue : place due now = slot) :
    (place due (now + 1)).depth < slot.depth := by
  subst hdue
  rw [depth_place, depth_place]
  exact Nat.lt_of_lt_of_le ((moved_eq_place_iff h hfar).mp hslot) (runOver_le_depth h)

/-- Below the list that is moved there is nothing. -/
theorem le_depth_place (h : now < due) {slot : Slot} (hslot : moved (now + 1) = some slot) :
    slot.depth ≤ (place due now).depth := by
  rw [depth_place]
  refine le_trans (le_of_eq ?_) (runOver_le_depth h)
  rw [moved] at hslot
  cases hr : runOver (now + 1) with
  | zero => simp [hr] at hslot
  | succ r =>
    rw [hr] at hslot
    rw [← Option.some.inj hslot, Slot.depth]

/-! ## The words of the source -/

/-- The lower `k` bits set: then only what is above them counts. -/
theorem or_mask_eq_iff (a b k : ℕ) :
    a ||| (2 ^ k - 1) = b ||| (2 ^ k - 1) ↔ a / 2 ^ k = b / 2 ^ k := by
  constructor
  · intro h
    have hmask : (2 ^ k - 1) >>> k = 0 := by
      rw [Nat.shiftRight_eq_div_pow]
      exact Nat.div_eq_of_lt (Nat.sub_lt (Nat.two_pow_pos k) Nat.one_pos)
    have hshift := congrArg (· >>> k) h
    simp only [Nat.shiftRight_or_distrib, hmask, Nat.or_zero] at hshift
    rwa [Nat.shiftRight_eq_div_pow, Nat.shiftRight_eq_div_pow] at hshift
  · intro h
    refine Nat.eq_of_testBit_eq fun i => ?_
    rw [Nat.testBit_or, Nat.testBit_or, Nat.testBit_two_pow_sub_one]
    rcases Nat.lt_or_ge i k with hi | hi
    · simp [hi]
    · obtain ⟨j, rfl⟩ := Nat.exists_eq_add_of_le hi
      have hbit := congrArg (·.testBit j) h
      simp only [Nat.testBit_div_two_pow] at hbit
      rw [Nat.add_comm, hbit]

/-- Times that are less than `2 ^ 31` apart differ at a level if and only if their words do. -/
theorem mod_div_eq_iff (hle : now ≤ due) (hfar : due < now + 2 ^ 31) {k : ℕ} (hk : k < 4) :
    due % 2 ^ 32 / 2 ^ bits k = now % 2 ^ 32 / 2 ^ bits k ↔
      due / 2 ^ bits k = now / 2 ^ bits k := by
  obtain ⟨d, hd⟩ : ∃ d, 31 = bits k + d :=
    Nat.exists_eq_add_of_le (le_trans (bits_le (Nat.le_of_lt_succ hk)) (by decide))
  have hsplit : 2 ^ 32 = 2 ^ bits k * 2 ^ (d + 1) := by
    rw [← pow_add, ← Nat.add_assoc, ← hd]
  rw [hsplit, Nat.mod_mul_right_div_self, Nat.mod_mul_right_div_self]
  refine ⟨fun h => ?_, fun h => by rw [h]⟩
  have hge : now / 2 ^ bits k ≤ due / 2 ^ bits k := Nat.div_le_div_right hle
  have hlt : due / 2 ^ bits k ≤ now / 2 ^ bits k + 2 ^ d := by
    have := Nat.div_le_div_right (c := 2 ^ bits k) (Nat.le_of_lt hfar)
    rwa [hd, pow_add, Nat.add_mul_div_left _ _ (Nat.two_pow_pos _)] at this
  have hdvd : 2 ^ (d + 1) ∣ due / 2 ^ bits k - now / 2 ^ bits k :=
    (Nat.modEq_iff_dvd' hge).mp h.symm
  have hzero := Nat.eq_zero_of_dvd_of_lt hdvd (by
    rw [pow_succ]
    have := Nat.two_pow_pos d
    omega)
  exact le_antisymm (Nat.sub_eq_zero_iff_le.mp hzero) hge

/-- Six bits of a time are in its word too. -/
theorem mod_div_mod_eq (n : ℕ) {k : ℕ} (hk : k < 4) :
    n % 2 ^ 32 / 2 ^ bits k % 64 = n / 2 ^ bits k % 64 := by
  have hbits : bits k ≤ 26 := bits_le (Nat.le_of_lt_succ hk)
  obtain ⟨d, hd⟩ : ∃ d, 26 = bits k + d := Nat.exists_eq_add_of_le hbits
  have hsplit : 2 ^ 32 = 2 ^ bits k * (64 * 2 ^ d) := by
    rw [Nat.mul_left_comm, ← pow_add, ← hd]
    rfl
  rw [hsplit, Nat.mod_mul_right_div_self]
  exact Nat.mod_mul_right_mod ..

theorem and_levelMask (time : UInt32) : (time &&& timeLevelMask).toNat = time.toNat % 64 := by
  have hmask : timeLevelMask.toNat = 2 ^ 6 - 1 := rfl
  rw [UInt32.toNat_and, hmask, Nat.and_two_pow_sub_one_eq_mod]

theorem digit_eq (n : ℕ) {k : ℕ} (hk : k < 4) {s : UInt32} (hs : s.toNat = bits k) :
    ((UInt32.ofNat n >>> s) &&& timeLevelMask).toNat = n / 2 ^ bits k % 64 := by
  have hmod : bits k % 32 = bits k :=
    Nat.mod_eq_of_lt (Nat.lt_of_le_of_lt (bits_le (Nat.le_of_lt_succ hk)) (by decide))
  rw [and_levelMask, UInt32.toNat_shiftRight, UInt32.toNat_ofNat', hs, hmod,
    Nat.shiftRight_eq_div_pow, mod_div_mod_eq n hk]

/-- A comparison of `add_node`. -/
theorem word_or_mask_eq_iff (hle : now ≤ due) (hfar : due < now + 2 ^ 31) {k : ℕ} (hk : k < 4)
    {m : UInt32} (hm : m.toNat = 2 ^ bits k - 1) :
    UInt32.ofNat due ||| m = UInt32.ofNat now ||| m ↔
      due / 2 ^ bits k = now / 2 ^ bits k := by
  rw [← UInt32.toNat_inj, UInt32.toNat_or, UInt32.toNat_or, UInt32.toNat_ofNat',
    UInt32.toNat_ofNat', hm, or_mask_eq_iff, mod_div_eq_iff hle hfar hk]

theorem near_eq (n : ℕ) : (UInt32.ofNat n &&& timeNearMask).toNat = n % 2 ^ 8 := by
  have hmask : timeNearMask.toNat = 2 ^ 8 - 1 := rfl
  rw [UInt32.toNat_and, UInt32.toNat_ofNat', hmask, Nat.and_two_pow_sub_one_eq_mod]
  exact Nat.mod_mod_of_dvd n (pow_dvd_pow 2 (by decide))

/-- The mask of the next level. -/
theorem mask_shiftLeft {m : UInt32} {k : ℕ} (hm : m.toNat = 2 ^ bits k) (hk : k + 1 < 4) :
    (m <<< timeLevelShift).toNat = 2 ^ bits (k + 1) := by
  have hshift : timeLevelShift.toNat % 32 = 6 := rfl
  have hbits : bits (k + 1) < 32 := Nat.lt_of_le_of_lt (bits_le (Nat.le_of_lt_succ hk)) (by decide)
  have hlt : 2 ^ bits (k + 1) < 2 ^ 32 := Nat.pow_lt_pow_right (by decide) hbits
  rw [UInt32.toNat_shiftLeft, hm, hshift, Nat.shiftLeft_eq, ← pow_add]
  exact Nat.mod_eq_of_lt hlt

theorem mask_sub_one {m : UInt32} {k : ℕ} (hm : m.toNat = 2 ^ bits k) :
    (m - 1).toNat = 2 ^ bits k - 1 := by
  have hle : (1 : UInt32) ≤ m := by
    rw [UInt32.le_iff_toNat_le, hm]
    exact Nat.one_le_two_pow
  rw [UInt32.toNat_sub_of_le _ _ hle, hm]
  rfl

/-- The loop of `add_node` finds the level. -/
theorem findLevel_eq (hle : now ≤ due) (hfar : due < now + 2 ^ 31) {n k : ℕ} {m : UInt32}
    (hn : n + k = 3) (hm : 0 < n → m.toNat = 2 ^ bits (k + 1)) (hk : k < depth due now) :
    findLevel (UInt32.ofNat due) (UInt32.ofNat now) n m k + 1 = depth due now := by
  induction n generalizing k m with
  | zero =>
    obtain rfl : k = 3 := by rw [← hn, Nat.zero_add]
    exact le_antisymm hk (depth_le_four due now)
  | succ n ih =>
    have hk4 : k + 1 < 4 := by omega
    have hmask := word_or_mask_eq_iff hle hfar hk4 (mask_sub_one (hm (Nat.succ_pos n)))
    rw [findLevel]
    split_ifs with hsame
    · refine le_antisymm hk (Nat.le_of_not_lt fun hlt => ?_)
      exact (lt_depth_iff.mp hlt).2 (hmask.mp hsame)
    · refine ih (by omega) (fun hn => ?_) (lt_depth_iff.mpr ⟨hk4, mt hmask.mpr hsame⟩)
      exact mask_shiftLeft (hm (Nat.succ_pos n)) (by omega)

/-- `add_node` puts a node where it belongs. -/
theorem slotOf_eq (hle : now ≤ due) (hfar : due < now + 2 ^ 31) :
    slotOf (UInt32.ofNat due) (UInt32.ofNat now) = place due now := by
  have hnear := word_or_mask_eq_iff hle hfar (k := 0) (m := timeNearMask) (by decide) (by decide)
  rw [slotOf, place]
  split_ifs with hsame
  · have hdepth : depth due now = 0 :=
      Nat.eq_zero_of_not_pos fun hpos => (lt_depth_iff.mp hpos).2 (hnear.mp hsame)
    rw [hdepth, near_eq]
  · have hpos : 0 < depth due now := lt_depth_iff.mpr ⟨by decide, mt hnear.mpr hsame⟩
    have hlevel := findLevel_eq hle hfar (n := 3) (m := timeNear <<< timeLevelShift) rfl
      (fun _ => by decide) hpos
    have h4 := depth_le_four due now
    rw [← hlevel] at h4 ⊢
    dsimp only
    rw [digit_eq due h4]
    generalize findLevel _ _ _ _ _ = i at h4
    have hi : i < 4 := h4
    interval_cases i <;> rfl

/-! ## The shift -/

theorem pow_bits_succ_dvd_iff {n k : ℕ} (h : 2 ^ bits k ∣ n) :
    2 ^ bits (k + 1) ∣ n ↔ n / 2 ^ bits k % 64 = 0 := by
  rw [pow_bits_succ, ← Nat.dvd_div_iff_mul_dvd h, Nat.dvd_iff_mod_eq_zero]

/-- The condition of the loop of `timer_shift`. -/
theorem and_mask_eq_zero_iff (n : ℕ) {k : ℕ} (hk : k < 4) {m : UInt32}
    (hm : m.toNat = 2 ^ bits k) : UInt32.ofNat n &&& (m - 1) = 0 ↔ 2 ^ bits k ∣ n := by
  have hdvd : 2 ^ bits k ∣ 2 ^ 32 :=
    pow_dvd_pow 2 (le_trans (bits_le (Nat.le_of_lt_succ hk)) (by decide))
  rw [← UInt32.toNat_inj, UInt32.toNat_and, mask_sub_one hm, UInt32.toNat_ofNat',
    Nat.and_two_pow_sub_one_eq_mod, Nat.mod_mod_of_dvd n hdvd, Nat.dvd_iff_mod_eq_zero]
  rfl

/-- What the wheel looks like after the lists of the next level moved. -/
def Wheel.moveDown (T : Wheel) (now : ℕ) : Wheel :=
  match runOver now with
  | 0 => T
  | k + 1 => T.moveList k (now / 2 ^ bits k % 64)

/-- The loop of `timer_shift` moves the list of the last level that runs over. -/
theorem shiftLoop_eq (T : Wheel) {now : ℕ} (hnow : ¬ 2 ^ 32 ∣ now) {n k : ℕ} {m time : UInt32}
    (hn : n + k = 4) (hm : 0 < n → m.toNat = 2 ^ bits k)
    (htime : time.toNat = now % 2 ^ 32 / 2 ^ bits k)
    (hk : k ≤ runOver now) (hlast : 0 < k → 2 ^ bits k ∣ now) :
    T.shiftLoop (UInt32.ofNat now) n m time k = T.moveDown now := by
  induction n generalizing k m time with
  | zero =>
    obtain rfl : k = 4 := by rw [← hn, Nat.zero_add]
    exact absurd (hlast (by decide)) hnow
  | succ n ih =>
    have hk4 : k < 4 := by omega
    have hmask := and_mask_eq_zero_iff now hk4 (hm (Nat.succ_pos n))
    have hidx : (time &&& timeLevelMask).toNat = now / 2 ^ bits k % 64 := by
      rw [and_levelMask, htime, mod_div_mod_eq now hk4]
    rw [Wheel.shiftLoop]
    split_ifs with hrun
    · have hdvd := hmask.mp hrun
      have hlt : k < runOver now := lt_runOver_iff.mpr ⟨hk4, hdvd⟩
      have hnext : 2 ^ bits (k + 1) ∣ now ↔ time &&& timeLevelMask = 0 := by
        rw [pow_bits_succ_dvd_iff hdvd, ← hidx]
        exact UInt32.toNat_inj (b := 0)
      dsimp only
      split_ifs with hmove
      · -- the lists of this level are the last that run over
        have hover : runOver now = k + 1 :=
          le_antisymm (Nat.le_of_not_lt fun h => hmove (hnext.mp (lt_runOver_iff.mp h).2)) hlt
        rw [Wheel.moveDown, hover, hidx]
      · refine ih (by omega) (fun hn => mask_shiftLeft (hm (Nat.succ_pos _)) (by omega)) ?_ hlt
          fun _ => hnext.mpr (not_not.mp hmove)
        rw [UInt32.toNat_shiftRight, htime, div_pow_bits_succ]
        exact Nat.shiftRight_eq_div_pow _ 6
    · -- nothing runs over
      have hzero : k = 0 := Nat.eq_zero_of_not_pos fun hpos => hrun (hmask.mpr (hlast hpos))
      subst hzero
      have hover : runOver now = 0 :=
        Nat.eq_zero_of_not_pos fun hpos => hrun (hmask.mpr (lt_runOver_iff.mp hpos).2)
      rw [Wheel.moveDown, hover]

/-- `timer_shift`: the next tick, and the list that is moved at it. -/
theorem timerShift_eq {T : Wheel} (hT : T.time = UInt32.ofNat now) :
    T.timerShift = ({ T with time := UInt32.ofNat (now + 1) } : Wheel).moveDown (now + 1) := by
  have hct : T.time + 1 = UInt32.ofNat (now + 1) := by
    rw [hT, UInt32.ofNat_add]
    rfl
  have hzero : UInt32.ofNat (now + 1) = 0 ↔ 2 ^ 32 ∣ now + 1 := by
    rw [← UInt32.toNat_inj, UInt32.toNat_ofNat', Nat.dvd_iff_mod_eq_zero]
    rfl
  rw [Wheel.timerShift, hct]
  split_ifs with hwrap
  · -- the word of the time is zero again, and so everything runs over
    have hbits : 32 = bits (3 + 1) := rfl
    have hdvd := hzero.mp hwrap
    rw [hbits] at hdvd
    have hdvd' : 2 ^ bits 3 ∣ now + 1 := (pow_dvd_pow 2 (bits_le (Nat.le_succ 3))).trans hdvd
    have hover : runOver (now + 1) = 3 + 1 :=
      le_antisymm (Nat.le_of_not_lt fun h => absurd (lt_runOver_iff.mp h).1 (lt_irrefl _))
        (lt_runOver_iff.mpr ⟨Nat.lt_succ_self 3, hdvd'⟩)
    rw [Wheel.moveDown, hover, hwrap]
    dsimp only
    rw [(pow_bits_succ_dvd_iff hdvd').mp hdvd]
  · refine shiftLoop_eq _ (mt hzero.mpr hwrap) rfl (fun _ => by decide) ?_ (Nat.zero_le _)
      fun h => absurd h (lt_irrefl 0)
    rw [UInt32.toNat_shiftRight, UInt32.toNat_ofNat']
    exact Nat.shiftRight_eq_div_pow _ 8

end SlgServer.Timer
