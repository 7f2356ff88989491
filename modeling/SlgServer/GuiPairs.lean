import SlgServer.BaseCollect
import SlgServer.GuiHulib

/-!
# Finding the pair of a run, by table and by search (`mjlib/gui/hulib.lua`)

`check_wave_and_eye` looks a run up in the table with eye, and only if it is not there
searches for the pair. The table was made by putting a pair before, behind or onto the
runs without one, so the search finds what the table has (`pairFound_of_mem`).

`pair_search_agrees`: what the search looks up are the runs that are left when two tiles of
one place are taken away.
-/

namespace SlgServer.Gui

open Melds

/-! ## What the search looks up -/

/-- Two tiles can be taken away at `i` so that only runs of `wave_table` are left. -/
def LeavesWaves (tbl : List ℕ) (i : ℕ) (h : i < tbl.length) : Prop :=
  2 ≤ tbl[i] ∧ ∀ l ∈ runs (tbl.set i (tbl[i] - 2)), checkWave l = true

/-- A row without an empty place is one run. -/
theorem runs_of_pos {l : List ℕ} (hl : ∀ c ∈ l, c ≠ 0) : runs l = if l = [] then [] else [l] := by
  have happend : runsFrom [] (l ++ []) = runsFrom ([] ++ l) [] := Base.runsFrom_append hl
  rw [List.append_nil, List.nil_append] at happend
  rw [runs, happend]
  rfl

/-- An empty place between two runs. -/
theorem runs_append_zero {l₁ l₂ : List ℕ} (h₁ : ∀ c ∈ l₁, c ≠ 0) (h₂ : ∀ c ∈ l₂, c ≠ 0) :
    runs (l₁ ++ 0 :: l₂) = [l₁, l₂].filter fun l => l ≠ [] := by
  have hsecond : runsFrom [] l₂ = if l₂ = [] then [] else [l₂] := runs_of_pos h₂
  rw [runs, Base.runsFrom_append h₁, List.nil_append, runsFrom, hsecond]
  by_cases hl₁ : l₁ = []
  · by_cases hl₂ : l₂ = [] <;> simp [hl₁, hl₂]
  · by_cases hl₂ : l₂ = [] <;> simp [hl₁, hl₂]

/-- A run, seen from one of its places. -/
theorem exists_split {tbl : List ℕ} {i : ℕ} (hi : i < tbl.length) :
    ∃ l₁ v l₂, tbl = l₁ ++ v :: l₂ ∧ i = l₁.length ∧ v = tbl[i] := by
  refine ⟨tbl.take i, tbl[i], tbl.drop (i + 1), ?_, ?_, rfl⟩
  · rw [List.getElem_cons_drop, List.take_append_drop]
  · rw [List.length_take]
    omega

/-- A run of two counts or more has a neighbour for each. -/
theorem ne_nil_of_split {l₁ l₂ : List ℕ} {v : ℕ} (hlen : 2 ≤ (l₁ ++ v :: l₂).length) :
    l₁ ≠ [] ∨ l₂ ≠ [] := by
  by_contra hnil
  obtain ⟨rfl, rfl⟩ := not_or.mp hnil |>.imp not_not.mp not_not.mp
  simp at hlen

/-- The search goes through all places. -/
theorem pairFound_iff {tbl : List ℕ} (hlen : 2 ≤ tbl.length) :
    Older.PairFound tables tbl ↔
      ∃ (i : ℕ) (h : i < tbl.length), checkWithoutPair tbl i tbl[i] = true := by
  refine ⟨?_, ?_⟩
  · rintro ⟨l₁, v, l₂, rfl, hfound⟩
    have hlt : l₁.length < (l₁ ++ v :: l₂).length := by simp
    have hget : (l₁ ++ v :: l₂)[l₁.length] = v := by simp
    refine ⟨l₁.length, hlt, ?_⟩
    rw [hget]
    exact (Older.checkWithoutPair_iff (t := tables) (ne_nil_of_split hlen)).mpr hfound
  · rintro ⟨i, hi, hround⟩
    obtain ⟨l₁, v, l₂, htbl, rfl, hv⟩ := exists_split hi
    rw [← hv] at hround
    subst htbl
    exact ⟨l₁, v, l₂, rfl,
      (Older.checkWithoutPair_iff (t := tables) (ne_nil_of_split hlen)).mp hround⟩

/-- **One round of the search** looks up the runs that are left when two tiles are taken
away at `i`. -/
theorem checkWithoutPair_iff_leavesWaves {tbl : List ℕ} (hlen : 2 ≤ tbl.length)
    (hpos : ∀ c ∈ tbl, 1 ≤ c) {i : ℕ} (hi : i < tbl.length) :
    checkWithoutPair tbl i tbl[i] = true ↔ LeavesWaves tbl i hi := by
  obtain ⟨l₁, v, l₂, rfl, rfl, -⟩ := exists_split hi
  have hget : (l₁ ++ v :: l₂)[l₁.length] = v := by simp
  have hset : ∀ c, (l₁ ++ v :: l₂).set l₁.length c = l₁ ++ c :: l₂ := fun c => by simp
  have hne := ne_nil_of_split hlen
  have hnz : (∀ c ∈ l₁, c ≠ 0) ∧ ∀ c ∈ l₂, c ≠ 0 := by
    refine ⟨fun c hc => ?_, fun c hc => ?_⟩
    · have := hpos c (List.mem_append_left _ hc)
      omega
    · have := hpos c (List.mem_append_right _ (List.mem_cons_of_mem _ hc))
      omega
  have hround : checkWithoutPair (l₁ ++ v :: l₂) l₁.length v = true ↔ _ :=
    Older.checkWithoutPair_iff (t := tables) hne
  rw [LeavesWaves, hget, hset, hround]
  obtain hlt | rfl | hgt : v < 2 ∨ v = 2 ∨ 2 < v := by omega
  · refine iff_of_false ?_ ?_ <;> omega
  · rw [runs_append_zero hnz.1 hnz.2]
    simp only [lt_irrefl, false_and, false_or, true_and, Nat.le_refl, List.mem_filter,
      decide_eq_true_eq, and_imp]
    rfl
  · have hlow : ∀ c ∈ l₁ ++ (v - 2) :: l₂, c ≠ 0 := by
      simp only [List.forall_mem_append, List.forall_mem_cons]
      exact ⟨hnz.1, by omega, hnz.2⟩
    have hv : v ≠ 2 := by omega
    rw [runs_of_pos hlow, if_neg (by simp)]
    simp only [hgt, hv, true_and, false_and, or_false, List.mem_singleton, forall_eq, hgt.le]
    rfl

/-! ## What the table has -/

/-- The keys of nine digits were made by putting a pair before a run or behind it. -/
theorem autoTableWithEye_long : ∀ n ∈ autoTableWithEye, 10 ^ 8 ≤ n →
    (n / 10 ^ 8 = 2 ∧ n % 10 ^ 8 ∈ autoTable) ∨ (n % 10 = 2 ∧ n / 10 ∈ autoTable) := by
  decide +kernel

theorem keyFrom_eq (k : ℕ) (l : List ℕ) : keyFrom k l = k * 10 ^ l.length + key l := by
  induction l generalizing k with
  | nil => simp [key]
  | cons c l ih =>
    have hkey : key (c :: l) = keyFrom (0 * 10 + c) l := rfl
    rw [keyFrom_cons, hkey, ih, ih (0 * 10 + c), List.length_cons, Nat.pow_succ]
    ring

/-- The key of a run of `n` counts has `n` digits. -/
theorem key_lt {l : List ℕ} (hl : ∀ c ∈ l, c < 10) : key l < 10 ^ l.length := by
  have hrev : ∀ c ∈ l.reverse, c < 10 := fun c hc => hl c (List.mem_reverse.mp hc)
  rw [key_eq_ofDigits, ← List.length_reverse]
  exact Nat.ofDigits_lt_base_pow_length (by decide) hrev

/-- The table with eye has melds and a pair only. -/
theorem isRow_of_mem_autoTableWithEye {r : List ℕ} (hr : ∀ c ∈ r, 1 ≤ c ∧ c ≤ 4)
    (h : key r ∈ autoTableWithEye) : IsRow 9 14 r ∧ Splits true 0 0 1 r := by
  have hmem := (List.isSublist_iff_sublist.mp autoTableWithEye_sublist).subset h
  rw [← Base.baseAutoTableWithEye_eq] at hmem
  obtain ⟨l, hl, hs, hkey⟩ := (mem_rowKeys_start (by decide)).mp (List.mem_of_mem_erase hmem)
  have hdigits : ∀ c ∈ r, 0 < c ∧ c < 10 := fun c hc => by
    have := hr c hc
    omega
  obtain rfl := key_injective hdigits (Base.IsRun.digits hl) hkey
  exact ⟨hl, hs⟩

/-- **The search finds what the table has.** A run of eight counts or less is melds and a
pair, and all such melds are in the table without; a run of nine begins or ends with the
pair. -/
theorem pairFound_of_mem {r : List ℕ} (hr : ∀ c ∈ r, 1 ≤ c ∧ c ≤ 4)
    (h : key r ∈ autoTableWithEye) : Older.PairFound tables r := by
  obtain ⟨hrow, hs⟩ := isRow_of_mem_autoTableWithEye hr h
  by_cases hlen : r.length ≤ 8
  · refine Older.pairFound_of_splits (fun l hl hne => (checkWave_iff hl hne).mpr) ?_ hs
    exact ⟨hlen, hrow.counts, hrow.sum_le⟩
  have hnine : r.length = 9 := by
    have := hrow.length_le
    omega
  have hwave : ∀ l, key l ∈ autoTable → Older.checkWave tables l = true :=
    fun l h => Older.checkWave_eq_true.mpr h
  -- the first count and the rest
  obtain ⟨c, l, rfl⟩ : ∃ c l, r = c :: l := List.exists_cons_of_length_eq_add_one hnine
  obtain ⟨hc, hl⟩ := List.forall_mem_cons.mp hr
  rw [List.length_cons, Nat.succ_inj] at hnine
  have hkey : key (c :: l) = c * 10 ^ 8 + key l := by
    rw [key, keyFrom_cons, keyFrom_eq, hnine, Nat.zero_mul, Nat.zero_add]
  have hlt : key l < 10 ^ 8 := by
    rw [← hnine]
    exact key_lt fun c hc => by
      have := hl c hc
      omega
  rcases autoTableWithEye_long _ h (by omega) with ⟨htwo, hmem⟩ | ⟨htwo, hmem⟩
  · obtain rfl : c = 2 := by omega
    have hrest : (key (2 :: l)) % 10 ^ 8 = key l := by omega
    rw [hrest] at hmem
    refine ⟨[], 2, l, rfl, .inr ⟨rfl, ?_⟩⟩
    simp [hwave l hmem]
  · -- the last count and those before it
    obtain ⟨l', d, hsplit⟩ : ∃ l' d, c :: l = l' ++ [d] :=
      ⟨_, _, (List.dropLast_append_getLast (List.cons_ne_nil c l)).symm⟩
    rw [hsplit] at htwo hmem hr ⊢
    have hd := hr d (by simp)
    have hkey' : key (l' ++ [d]) = key l' * 10 + d := by
      rw [key, keyFrom_append]
      rfl
    obtain rfl : d = 2 := by omega
    have hrest : key (l' ++ [2]) / 10 = key l' := by omega
    rw [hrest] at hmem
    refine ⟨l', 2, [], rfl, .inr ⟨rfl, ?_⟩⟩
    simp [hwave l' hmem]

/-! ## Table and search agree -/

/-- **The fast way and the slow way to a pair agree.** For a run of two counts or more the
rounds of the search are the ways of taking two tiles away; the table with eye accepts no
run that the search would reject; and so `check_wave_and_eye` accepts the run iff two
tiles can be taken away at some place so that only runs of `wave_table` are left. -/
theorem pair_search_agrees {tbl : List ℕ} (hlen : 2 ≤ tbl.length)
    (hcounts : ∀ c ∈ tbl, 1 ≤ c ∧ c ≤ 4) :
    (∀ (i : ℕ) (h : i < tbl.length),
        checkWithoutPair tbl i tbl[i] = true ↔ LeavesWaves tbl i h) ∧
      (key tbl ∈ autoTableWithEye →
        ∃ (i : ℕ) (h : i < tbl.length), checkWithoutPair tbl i tbl[i] = true) ∧
      (checkWaveAndEye tbl = true ↔ ∃ (i : ℕ) (h : i < tbl.length), LeavesWaves tbl i h) := by
  have hround : ∀ (i : ℕ) (h : i < tbl.length),
      checkWithoutPair tbl i tbl[i] = true ↔ LeavesWaves tbl i h := fun i h =>
    checkWithoutPair_iff_leavesWaves hlen (fun c hc => (hcounts c hc).1) h
  have hsearch := pairFound_iff hlen
  have hshortcut : key tbl ∈ autoTableWithEye → Older.PairFound tables tbl :=
    pairFound_of_mem hcounts
  refine ⟨hround, fun h => hsearch.mp (hshortcut h), ?_⟩
  have hcheck : checkWaveAndEye tbl = Older.checkWaveAndEye tables tbl := rfl
  have hone : tbl.length ≠ 1 := by omega
  simp only [← hround]
  rw [hcheck, Older.checkWaveAndEye_iff, ← hsearch]
  refine ⟨?_, fun h => .inr (.inr h)⟩
  rintro (h | h | h)
  · exact absurd h hone
  · exact hshortcut h
  · exact h

/-- A pair of the first rank before a triplet. -/
theorem pair_search_agrees_pairFirst : checkWaveAndEye [2, 3] = true := by
  refine (pair_search_agrees (by decide) (by decide)).2.2.mpr ⟨0, by decide, by decide, ?_⟩
  intro l hl
  obtain rfl : l = [3] := by simpa [runs, runsFrom] using hl
  decide

end SlgServer.Gui
