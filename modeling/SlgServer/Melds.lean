import Mathlib.Algebra.Ring.Nat
import Mathlib.Data.List.Basic
import Mathlib.Data.List.Perm.Basic

/-!
# Taking a row of counts apart into melds and pairs

A row of tiles is a list of counts. `Splits chi a b e l` says that the row `l`
is the sum of triplets (three tiles of one place), of sequences (one tile of
three neighbouring places; only when `chi` allows them) and of `e` pairs. The
parameters `a` and `b` make it a relation on suffixes: `a` sequences begun one
place to the left still need a tile of the first two places of `l`, and `b`
sequences begun two places to the left need one tile of the first place.

* `splits` decides the relation: three sequences begun at one place are three
  triplets, so at most two sequences need to begin anywhere and the number is
  forced by the count modulo 3.
* `SplitsAll` takes several rows apart together, and `runs` cuts a row at its
  empty places: a row splits iff its runs do (`splits_iff_runs`).
-/

namespace Melds

/-- The row of counts `l` is a sum of melds and `e` pairs, on top of `a` and `b`
tiles owed to sequences begun one and two places to the left. -/
inductive Splits (chi : Bool) : ℕ → ℕ → ℕ → List ℕ → Prop
  /-- nothing is left and nothing is owed -/
  | nil : Splits chi 0 0 0 []
  /-- `t` triplets, `s` new sequences and `d` pairs at the first place -/
  | cons {a b e c : ℕ} {l : List ℕ} (t s d : ℕ) (hs : chi = false → s = 0)
      (hc : c = 3 * t + s + a + b + 2 * d) (h : Splits chi s a e l) :
      Splits chi a b (d + e) (c :: l)

variable {chi : Bool} {a b e : ℕ} {c : ℕ} {l : List ℕ}

theorem splits_nil : Splits chi a b e [] ↔ a = 0 ∧ b = 0 ∧ e = 0 := by
  refine ⟨fun h => ?_, ?_⟩
  · cases h
    exact ⟨rfl, rfl, rfl⟩
  · rintro ⟨rfl, rfl, rfl⟩
    exact .nil

theorem splits_cons :
    Splits chi a b e (c :: l) ↔
      ∃ t s d e', (chi = false → s = 0) ∧ c = 3 * t + s + a + b + 2 * d ∧ e = d + e' ∧
        Splits chi s a e' l := by
  refine ⟨fun h => ?_, ?_⟩
  · cases h with
    | @cons _ _ e' _ _ t s d hs hc h => exact ⟨t, s, d, e', hs, hc, rfl, h⟩
  · rintro ⟨t, s, d, e', hs, hc, rfl, h⟩
    exact .cons t s d hs hc h

/-! ## How many tiles -/

/-- The tiles of a row: three a meld, two a pair, and those owed to the left. -/
theorem Splits.sum (h : Splits chi a b e l) : ∃ m, l.sum = 3 * m + 2 * e + 2 * a + b := by
  induction h with
  | nil => exact ⟨0, rfl⟩
  | @cons a b e c l t s d hs hc h ih =>
    obtain ⟨m, hm⟩ := ih
    refine ⟨m + t + s, ?_⟩
    rw [List.sum_cons, hm, hc]
    omega

theorem Splits.sum_mod (h : Splits chi 0 0 e l) : l.sum % 3 = 2 * e % 3 := by
  obtain ⟨m, hm⟩ := h.sum
  omega

/-- A pair can be taken out where it lies. -/
theorem Splits.exists_pair (h : Splits chi a b (e + 1) l) :
    ∃ l₁ c l₂, l = l₁ ++ (c + 2) :: l₂ ∧ Splits chi a b e (l₁ ++ c :: l₂) := by
  induction l generalizing a b e with
  | nil =>
    have he := (splits_nil.mp h).2.2
    omega
  | cons c l ih =>
    obtain ⟨t, s, d, e', hs, hc, he, hrest⟩ := splits_cons.mp h
    cases d with
    | succ d =>
      refine ⟨[], 3 * t + s + a + b + 2 * d, l, ?_, ?_⟩
      · rw [List.nil_append, hc]
        exact congrArg (· :: l) (by omega)
      · exact splits_cons.mpr ⟨t, s, d, e', hs, rfl, by omega, hrest⟩
    | zero =>
      obtain rfl : e' = e + 1 := by omega
      obtain ⟨l₁, c', l₂, rfl, hl⟩ := ih hrest
      exact ⟨c :: l₁, c', l₂, rfl, splits_cons.mpr ⟨t, s, 0, e, hs, hc, by omega, hl⟩⟩

/-- A pair can be put anywhere. -/
theorem Splits.put_pair {l₁ l₂ : List ℕ} (h : Splits chi a b e (l₁ ++ c :: l₂)) :
    Splits chi a b (e + 1) (l₁ ++ (c + 2) :: l₂) := by
  induction l₁ generalizing a b e with
  | nil =>
    obtain ⟨t, s, d, e', hs, hc, he, hrest⟩ := splits_cons.mp h
    exact splits_cons.mpr ⟨t, s, d + 1, e', hs, by omega, by omega, hrest⟩
  | cons c' l₁ ih =>
    obtain ⟨t, s, d, e', hs, hc, he, hrest⟩ := splits_cons.mp h
    exact splits_cons.mpr ⟨t, s, d, e' + 1, hs, hc, by omega, ih hrest⟩

/-! ## The decision procedure -/

/-- Three sequences owed are three triplets: a debt may be lowered by three. -/
theorem Splits.lower (h : Splits chi a b e l) :
    (∀ a', a = a' + 3 → Splits chi a' b e l) ∧ (∀ b', b = b' + 3 → Splits chi a b' e l) := by
  induction h with
  | nil => exact ⟨fun a' h => by omega, fun b' h => by omega⟩
  | cons t s d hs hc h ih =>
    refine ⟨?_, ?_⟩
    · rintro a' rfl
      exact .cons (t + 1) s d hs (by omega) (ih.2 a' rfl)
    · rintro b' rfl
      exact .cons (t + 1) s d hs (by omega) h

/-- Only the debt modulo three matters. -/
theorem Splits.lower_mod (h : Splits chi a b e l) : Splits chi (a % 3) b e l := by
  induction a using Nat.strongRecOn with
  | ind a ih =>
    by_cases ha : a < 3
    · rwa [Nat.mod_eq_of_lt ha]
    · have h' := ih (a - 3) (by omega) (h.lower.1 (a - 3) (by omega))
      rwa [← Nat.mod_eq_sub_mod (by omega)] at h'

/-- Decide `Splits`. At each place the number of pairs is tried; what is left
over then forces the number of new sequences to be its remainder modulo 3. -/
def splits (chi : Bool) : ℕ → ℕ → ℕ → List ℕ → Bool
  | a, b, e, [] => a == 0 && b == 0 && e == 0
  | a, b, e, c :: l => (List.range (e + 1)).any fun d =>
      Nat.ble (a + b + 2 * d) c &&
        (chi || (c - (a + b + 2 * d)) % 3 == 0) &&
          splits chi ((c - (a + b + 2 * d)) % 3) a (e - d) l

theorem splits_iff : splits chi a b e l = true ↔ Splits chi a b e l := by
  induction l generalizing a b e with
  | nil => simp [splits, splits_nil, and_assoc]
  | cons c l ih =>
    simp only [splits, List.any_eq_true, List.mem_range, Bool.and_eq_true, Nat.ble_eq,
      Bool.or_eq_true, beq_iff_eq, ih, splits_cons]
    refine ⟨?_, ?_⟩
    · rintro ⟨d, hd, ⟨hle, hchi⟩, h⟩
      refine ⟨(c - (a + b + 2 * d)) / 3, (c - (a + b + 2 * d)) % 3, d, e - d, ?_, by omega,
        by omega, h⟩
      rintro rfl
      simpa using hchi
    · rintro ⟨t, s, d, e', hs, rfl, rfl, h⟩
      have hmod : (3 * t + s + a + b + 2 * d - (a + b + 2 * d)) % 3 = s % 3 := by omega
      refine ⟨d, by omega, ⟨by omega, ?_⟩, ?_⟩
      · cases chi with
        | true => exact .inl rfl
        | false => exact .inr (by rw [hmod, hs rfl])
      · rw [hmod, Nat.add_sub_cancel_left]
        exact h.lower_mod

instance : Decidable (Splits chi a b e l) := decidable_of_iff _ splits_iff

/-! ## Rows side by side -/

/-- An empty place ends every sequence. -/
theorem splits_zero_cons :
    Splits chi a b e (0 :: l) ↔ a = 0 ∧ b = 0 ∧ Splits chi 0 0 e l := by
  rw [splits_cons]
  refine ⟨?_, ?_⟩
  · rintro ⟨t, s, d, e', -, hc, rfl, h⟩
    obtain ⟨rfl, rfl, rfl, rfl, rfl⟩ : t = 0 ∧ s = 0 ∧ a = 0 ∧ b = 0 ∧ d = 0 := by omega
    exact ⟨rfl, rfl, by rwa [Nat.zero_add]⟩
  · rintro ⟨rfl, rfl, h⟩
    exact ⟨0, 0, 0, e, fun _ => rfl, rfl, (Nat.zero_add e).symm, h⟩

/-- A row splits at an empty place. -/
theorem splits_append_zero {l₁ l₂ : List ℕ} :
    Splits chi a b e (l₁ ++ 0 :: l₂) ↔
      ∃ e₁ e₂, e = e₁ + e₂ ∧ Splits chi a b e₁ l₁ ∧ Splits chi 0 0 e₂ l₂ := by
  induction l₁ generalizing a b e with
  | nil =>
    simp only [List.nil_append, splits_zero_cons, splits_nil]
    refine ⟨?_, ?_⟩
    · rintro ⟨rfl, rfl, h⟩
      exact ⟨0, e, (Nat.zero_add e).symm, ⟨rfl, rfl, rfl⟩, h⟩
    · rintro ⟨e₁, e₂, rfl, ⟨rfl, rfl, rfl⟩, h⟩
      exact ⟨rfl, rfl, by rwa [Nat.zero_add]⟩
  | cons c l₁ ih =>
    simp only [List.cons_append, splits_cons, ih]
    refine ⟨?_, ?_⟩
    · rintro ⟨t, s, d, e', hs, hc, rfl, e₁, e₂, rfl, h₁, h₂⟩
      exact ⟨d + e₁, e₂, by omega, ⟨t, s, d, e₁, hs, hc, rfl, h₁⟩, h₂⟩
    · rintro ⟨e₁, e₂, rfl, ⟨t, s, d, e', hs, hc, rfl, h₁⟩, h₂⟩
      exact ⟨t, s, d, e' + e₂, hs, hc, by omega, e', e₂, rfl, h₁, h₂⟩

/-- Several rows, each with its own rule on sequences, split with `e` pairs in
all. -/
def SplitsAll : ℕ → List (Bool × List ℕ) → Prop
  | e, [] => e = 0
  | e, r :: rs => ∃ e₁ e₂, e = e₁ + e₂ ∧ Splits r.1 0 0 e₁ r.2 ∧ SplitsAll e₂ rs

theorem splitsAll_append {rs₁ rs₂ : List (Bool × List ℕ)} :
    SplitsAll e (rs₁ ++ rs₂) ↔ ∃ e₁ e₂, e = e₁ + e₂ ∧ SplitsAll e₁ rs₁ ∧ SplitsAll e₂ rs₂ := by
  induction rs₁ generalizing e with
  | nil =>
    simp only [List.nil_append, SplitsAll]
    refine ⟨fun h => ?_, ?_⟩
    · exact ⟨0, e, (Nat.zero_add e).symm, rfl, h⟩
    · rintro ⟨e₁, e₂, rfl, rfl, h⟩
      rwa [Nat.zero_add]
  | cons r rs ih =>
    simp only [List.cons_append, SplitsAll, ih]
    refine ⟨?_, ?_⟩
    · rintro ⟨e₁, _, rfl, h₁, e₂, e₃, rfl, h₂, h₃⟩
      exact ⟨e₁ + e₂, e₃, by omega, ⟨e₁, e₂, rfl, h₁, h₂⟩, h₃⟩
    · rintro ⟨_, e₃, rfl, ⟨e₁, e₂, rfl, h₁, h₂⟩, h₃⟩
      exact ⟨e₁, e₂ + e₃, by omega, h₁, e₂, e₃, rfl, h₂, h₃⟩

/-- The order of the rows does not matter. -/
theorem splitsAll_perm {rs rs' : List (Bool × List ℕ)} (hp : rs.Perm rs') :
    SplitsAll e rs ↔ SplitsAll e rs' := by
  induction hp generalizing e with
  | nil => rfl
  | cons r _ ih => simp only [SplitsAll, ih]
  | swap r r' rs =>
    simp only [SplitsAll]
    constructor <;>
    · rintro ⟨e₁, _, rfl, h₁, e₂, e₃, rfl, h₂, h₃⟩
      exact ⟨e₂, e₁ + e₃, by omega, h₂, e₁, e₃, rfl, h₁, h₃⟩
  | trans _ _ ih₁ ih₂ => rw [ih₁, ih₂]

theorem splitsAll_cons {r : Bool × List ℕ} {rs : List (Bool × List ℕ)} :
    SplitsAll e (r :: rs) ↔
      ∃ e₁ e₂, e = e₁ + e₂ ∧ Splits r.1 0 0 e₁ r.2 ∧ SplitsAll e₂ rs := Iff.rfl

/-- Rows may be split further, each on its own. -/
theorem splitsAll_flatMap {κ : Type*} {f : κ → Bool × List ℕ} {g : κ → List (Bool × List ℕ)}
    {ks : List κ} (h : ∀ k ∈ ks, ∀ e, Splits (f k).1 0 0 e (f k).2 ↔ SplitsAll e (g k)) :
    SplitsAll e (ks.map f) ↔ SplitsAll e (ks.flatMap g) := by
  induction ks generalizing e with
  | nil => rfl
  | cons k ks ih =>
    have ih' := fun e => ih (e := e) fun k hk => h k (List.mem_cons_of_mem _ hk)
    rw [List.map_cons, List.flatMap_cons, splitsAll_append, splitsAll_cons]
    simp only [h k (List.mem_cons_self ..), ih']

/-- Each of several rows takes its share of the pairs. -/
theorem SplitsAll.exists_of_mem {rs : List (Bool × List ℕ)} (h : SplitsAll e rs)
    {r : Bool × List ℕ} (hr : r ∈ rs) : ∃ e', e' ≤ e ∧ Splits r.1 0 0 e' r.2 := by
  induction rs generalizing e with
  | nil => exact absurd hr List.not_mem_nil
  | cons r' rs ih =>
    obtain ⟨e₁, e₂, rfl, h₁, h₂⟩ := splitsAll_cons.mp h
    rcases List.mem_cons.mp hr with rfl | hr
    · exact ⟨e₁, by omega, h₁⟩
    · obtain ⟨e', he', hs⟩ := ih h₂ hr
      exact ⟨e', by omega, hs⟩

/-- The tiles of rows that split: three a meld, two a pair. -/
theorem SplitsAll.sum_mod {rs : List (Bool × List ℕ)} (h : SplitsAll e rs) :
    (rs.map fun r => r.2.sum).sum % 3 = 2 * e % 3 := by
  induction rs generalizing e with
  | nil =>
    obtain rfl := h
    rfl
  | cons r rs ih =>
    obtain ⟨e₁, e₂, rfl, h₁, h₂⟩ := h
    have := ih h₂
    have := h₁.sum_mod
    rw [List.map_cons, List.sum_cons]
    omega

/-- Without sequences every place stands alone. -/
theorem splits_false_iff :
    Splits false 0 0 e l ↔ SplitsAll e (l.map fun c => (false, [c])) := by
  induction l generalizing e with
  | nil => simp [splits_nil, SplitsAll]
  | cons c l ih =>
    rw [List.map_cons, splitsAll_cons, splits_cons]
    simp only [← ih]
    refine ⟨?_, ?_⟩
    · rintro ⟨t, s, d, e', hs, hc, rfl, h⟩
      obtain rfl := hs trivial
      refine ⟨d, e', rfl, ?_, h⟩
      exact splits_cons.mpr ⟨t, 0, d, 0, fun _ => rfl, hc, rfl, .nil⟩
    · rintro ⟨e₁, e₂, rfl, h₁, h₂⟩
      obtain ⟨t, s, d, e', hs, hc, rfl, hnil⟩ := splits_cons.mp h₁
      obtain ⟨rfl, -, rfl⟩ := splits_nil.mp hnil
      exact ⟨t, 0, d, e₂, fun _ => rfl, hc, rfl, h₂⟩

/-! ## Runs -/

/-- The maximal stretches without an empty place; `acc` is the stretch being
read. -/
def runsFrom (acc : List ℕ) : List ℕ → List (List ℕ)
  | [] => if acc = [] then [] else [acc]
  | 0 :: l => if acc = [] then runsFrom [] l else acc :: runsFrom [] l
  | (c + 1) :: l => runsFrom (acc ++ [c + 1]) l

/-- The maximal stretches of a row without an empty place. -/
def runs (l : List ℕ) : List (List ℕ) := runsFrom [] l

theorem splits_append_iff_runsFrom (acc l : List ℕ) :
    Splits chi 0 0 e (acc ++ l) ↔ SplitsAll e ((runsFrom acc l).map (chi, ·)) := by
  induction l generalizing acc e with
  | nil =>
    rw [List.append_nil, runsFrom]
    by_cases hacc : acc = []
    · subst hacc
      simp [splits_nil, SplitsAll]
    · simp [hacc, SplitsAll]
  | cons c l ih =>
    cases c with
    | zero =>
      rw [splits_append_zero, runsFrom]
      by_cases hacc : acc = []
      · subst hacc
        rw [if_pos rfl, ← ih, List.nil_append]
        simp only [splits_nil]
        refine ⟨?_, fun h => ?_⟩
        · rintro ⟨e₁, e₂, rfl, ⟨-, -, rfl⟩, h⟩
          rwa [Nat.zero_add]
        · exact ⟨0, e, (Nat.zero_add e).symm, ⟨trivial, trivial, rfl⟩, h⟩
      · rw [if_neg hacc, List.map_cons, splitsAll_cons]
        simp only [← ih, List.nil_append]
    | succ c =>
      rw [runsFrom, ← ih, List.append_assoc, List.singleton_append]

/-- **A row splits iff its runs do.** -/
theorem splits_iff_runs : Splits chi 0 0 e l ↔ SplitsAll e ((runs l).map (chi, ·)) :=
  splits_append_iff_runsFrom [] l

/-- What holds of the counts above zero of a row holds of the counts of its
runs; runs are never empty and never longer or heavier than the row. -/
theorem mem_runsFrom {r acc l : List ℕ} (h : r ∈ runsFrom acc l) :
    r ≠ [] ∧ (∀ c ∈ r, c ∈ acc ∨ c ∈ l ∧ c ≠ 0) ∧ r.length ≤ acc.length + l.length ∧
      r.sum ≤ acc.sum + l.sum := by
  induction l generalizing acc with
  | nil =>
    rw [runsFrom] at h
    by_cases hacc : acc = []
    · simp [hacc] at h
    · obtain rfl : r = acc := by simpa [hacc] using h
      exact ⟨hacc, fun c hc => .inl hc, by simp, by simp⟩
  | cons c l ih =>
    cases c with
    | zero =>
      rw [runsFrom] at h
      have hrest : r ∈ runsFrom [] l →
          r ≠ [] ∧ (∀ c ∈ r, c ∈ acc ∨ c ∈ 0 :: l ∧ c ≠ 0) ∧
            r.length ≤ acc.length + (0 :: l).length ∧ r.sum ≤ acc.sum + (0 :: l).sum := by
        intro h
        obtain ⟨h₁, h₂, h₃, h₄⟩ := ih h
        refine ⟨h₁, fun c hc => ?_, ?_, ?_⟩
        · obtain h | h := h₂ c hc
          · exact absurd h List.not_mem_nil
          · exact .inr ⟨List.mem_cons_of_mem _ h.1, h.2⟩
        · simp at h₃ ⊢
          omega
        · simp at h₄ ⊢
          omega
      by_cases hacc : acc = []
      · rw [if_pos hacc] at h
        exact hrest h
      · rw [if_neg hacc] at h
        rcases List.mem_cons.mp h with h | h
        · subst h
          exact ⟨hacc, fun c hc => .inl hc, by simp, by simp⟩
        · exact hrest h
    | succ c =>
      rw [runsFrom] at h
      obtain ⟨h₁, h₂, h₃, h₄⟩ := ih h
      refine ⟨h₁, fun x hx => ?_, ?_, ?_⟩
      · obtain h | ⟨h, hne⟩ := h₂ x hx
        · rcases List.mem_append.mp h with h | h
          · exact .inl h
          · obtain rfl := List.mem_singleton.mp h
            exact .inr ⟨List.mem_cons_self .., by omega⟩
        · exact .inr ⟨List.mem_cons_of_mem _ h, hne⟩
      · simp at h₃ ⊢
        omega
      · simp at h₄ ⊢
        omega

theorem mem_runs {r l : List ℕ} (h : r ∈ runs l) :
    r ≠ [] ∧ (∀ c ∈ r, c ∈ l ∧ c ≠ 0) ∧ r.length ≤ l.length ∧ r.sum ≤ l.sum := by
  obtain ⟨h₁, h₂, h₃, h₄⟩ := mem_runsFrom h
  refine ⟨h₁, fun c hc => ?_, by simpa using h₃, by simpa using h₄⟩
  obtain h | h := h₂ c hc
  · exact absurd h List.not_mem_nil
  · exact h

/-! ## Stretches that end before the last place -/

/-- The maximal stretches that have an empty place behind them; `acc` is the
stretch being read. -/
def innerRunsFrom (acc : List ℕ) : List ℕ → List (List ℕ)
  | [] => []
  | 0 :: l => if acc = [] then innerRunsFrom [] l else acc :: innerRunsFrom [] l
  | (c + 1) :: l => innerRunsFrom (acc ++ [c + 1]) l

/-- The maximal stretches of a row that have an empty place behind them. -/
def innerRuns (l : List ℕ) : List (List ℕ) := innerRunsFrom [] l

/-- The stretch that reaches the last place; empty if that place is. -/
def lastRunFrom (acc : List ℕ) : List ℕ → List ℕ
  | [] => acc
  | 0 :: l => lastRunFrom [] l
  | (c + 1) :: l => lastRunFrom (acc ++ [c + 1]) l

/-- The stretch of a row that reaches the last place. -/
def lastRun (l : List ℕ) : List ℕ := lastRunFrom [] l

theorem runsFrom_eq (acc l : List ℕ) :
    runsFrom acc l =
      innerRunsFrom acc l ++ if lastRunFrom acc l = [] then [] else [lastRunFrom acc l] := by
  induction l generalizing acc with
  | nil => rfl
  | cons c l ih =>
    cases c with
    | zero =>
      rw [runsFrom, innerRunsFrom, lastRunFrom, ih]
      split_ifs <;> rfl
    | succ c => rw [runsFrom, innerRunsFrom, lastRunFrom, ih]

theorem mem_runs_of_mem_innerRuns {r l : List ℕ} (h : r ∈ innerRuns l) : r ∈ runs l := by
  rw [runs, runsFrom_eq]
  exact List.mem_append_left _ h

/-- The runs of a row are the inner ones and the one that reaches the end. -/
theorem forall_mem_runs {P : List ℕ → Prop} (hnil : P []) {l : List ℕ} :
    (∀ r ∈ runs l, P r) ↔ (∀ r ∈ innerRuns l, P r) ∧ P (lastRun l) := by
  rw [runs, runsFrom_eq, List.forall_mem_append]
  refine and_congr_right fun _ => ?_
  change _ ↔ P (lastRunFrom [] l)
  split_ifs with h
  · rw [h]
    exact iff_of_true (by simp) hnil
  · rw [List.forall_mem_singleton]

/-- An inner run leaves a place free. -/
theorem length_lt_of_mem_innerRunsFrom {r acc l : List ℕ} (h : r ∈ innerRunsFrom acc l) :
    r.length < acc.length + l.length := by
  induction l generalizing acc with
  | nil => exact absurd h List.not_mem_nil
  | cons c l ih =>
    rw [List.length_cons]
    cases c with
    | zero =>
      rw [innerRunsFrom] at h
      have hrest : r ∈ innerRunsFrom [] l → r.length < acc.length + (l.length + 1) := by
        intro h
        have := ih h
        rw [List.length_nil] at this
        omega
      by_cases hacc : acc = []
      · rw [if_pos hacc] at h
        exact hrest h
      · rw [if_neg hacc] at h
        rcases List.mem_cons.mp h with h | h
        · subst h
          omega
        · exact hrest h
    | succ c =>
      rw [innerRunsFrom] at h
      have := ih h
      rw [List.length_append, List.length_singleton] at this
      omega

end Melds
