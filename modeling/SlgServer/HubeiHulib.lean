import SlgServer.GuiHulib
import SlgServer.HubeiTables

/-!
# The checker of `mjlib/hubei_huanghuang` (`mjlib.lua`)

The functions of the older checker, with the tables of this directory: those of
`mjlib/gui` less two runs of melds and the runs these make with a pair, which
the searches that filled the tables never met. So the runs of `missedRuns` are
rejected, and no others (`decides`).
-/

namespace SlgServer.Hubei

open Melds Scan

/-- The tables of this directory. -/
def tables : Older.Tables := ⟨autoTable, autoTableWithEye⟩

/-- `get_hu_info`. -/
def getHuInfo (order : List CardCfg) (handCards : ℕ → ℕ) (otherCard : Option ℕ) : Bool :=
  Older.getHuInfo tables order handCards otherCard

/-! ## The runs that are missed -/

/-- The runs of melds that the table lacks. -/
def missedWaves : List (List ℕ) := [[1, 1, 1, 1, 1, 2, 1, 1], [1, 1, 2, 1, 1, 1, 1, 1]]

/-- The missed runs: these two, and each with a pair added at one of its places. -/
def missedRuns : List (List ℕ) :=
  missedWaves.flatMap fun r => r :: (List.range 8).map fun i => r.modify i (· + 2)

/-- Runs of nine counts with a pair that the table with eye lacks. -/
def longRuns : List (List ℕ) :=
  [[1, 1, 1, 1, 1, 2, 1, 1, 2], [1, 1, 2, 1, 1, 1, 1, 1, 2],
    [2, 1, 1, 1, 1, 1, 2, 1, 1], [2, 1, 1, 2, 1, 1, 1, 1, 1]]

theorem autoTable_eq :
    autoTable = Gui.autoTable.filter fun k => decide (k ∉ missedWaves.map key) := by
  decide +kernel

theorem autoTableWithEye_eq :
    autoTableWithEye =
      Gui.autoTableWithEye.filter fun k => decide (k ∉ (missedRuns ++ longRuns).map key) := by
  decide +kernel

theorem mem_autoTableWithEye {k : ℕ} :
    k ∈ autoTableWithEye ↔
      k ∈ Gui.autoTableWithEye ∧ k ∉ (missedRuns ++ longRuns).map key := by
  rw [autoTableWithEye_eq, List.mem_filter, decide_eq_true_iff]

/-- The runs in question have the digits of rows. -/
theorem digits_missed :
    ∀ r ∈ missedWaves ++ (missedRuns ++ longRuns), ∀ c ∈ r, 0 < c ∧ c < 10 := by decide

/-- A run whose key is among those of some of these runs is one of them. -/
theorem mem_of_key_mem {rs : List (List ℕ)}
    (hrs : rs ⊆ missedWaves ++ (missedRuns ++ longRuns)) {n w : ℕ} {r : List ℕ} (hr : IsRow n w r)
    (h : key r ∈ rs.map key) : r ∈ rs := by
  obtain ⟨l, hl, hkey⟩ := List.mem_map.mp h
  rwa [← key_injective (digits_missed l (hrs hl)) (Gui.digits_of_isRow hr) hkey]

/-- **A run of melds** is found unless it is one of the two. -/
theorem checkWave_iff {r : List ℕ} (hr : IsRow 8 12 r) (hne : r ≠ []) :
    Older.checkWave tables r = true ↔ Splits true 0 0 0 r ∧ r ∉ missedWaves := by
  have hkey : key r ∈ autoTable ↔ key r ∈ Gui.autoTable ∧ key r ∉ missedWaves.map key := by
    rw [autoTable_eq, List.mem_filter, decide_eq_true_iff]
  rw [← Gui.checkWave_iff hr hne, Older.checkWave_eq_true, Older.checkWave_eq_true]
  refine hkey.trans (and_congr_right fun _ => not_congr ?_)
  exact ⟨mem_of_key_mem (List.subset_append_left _ _) hr, List.mem_map_of_mem⟩

/-- The missed runs whose sum allows no pair are the two runs of melds. -/
theorem mem_missedWaves_of_mem :
    ∀ r ∈ missedRuns, r.sum % 3 = 0 → r ∈ missedWaves := by decide

theorem mem_missedRuns_of_mem : ∀ r ∈ missedWaves, r ∈ missedRuns := by decide

/-- The missed runs with a pair are not found by the search either. -/
theorem checkWaveAndEye_missedRuns :
    ∀ r ∈ missedRuns, r.sum % 3 = 2 → Older.checkWaveAndEye tables r = false := by
  decide +kernel

/-- A pair that the search finds with the tables of `mjlib/gui` is found here, too,
unless the run is missed. -/
theorem pairFound_of_gui {r : List ℕ} (hr : IsRow 8 14 r) (hmiss : r ∉ missedRuns)
    (h : Older.PairFound Gui.tables r) : Older.PairFound tables r := by
  have hfound : ∀ l, IsRow 8 12 l → l ≠ [] → l ∉ missedWaves →
      Older.checkWave Gui.tables l = true → Older.checkWave tables l = true :=
    fun l hl hne hmiss hl' => (checkWave_iff hl hne).mpr ⟨(Gui.checkWave_iff hl hne).mp hl', hmiss⟩
  obtain ⟨l₁, v, l₂, rfl, ⟨hv, hleft⟩ | ⟨rfl, hleft⟩⟩ := h
  · refine ⟨l₁, v, l₂, rfl, .inl ⟨hv, hfound _ (hr.without_pair.1 hv) (by simp) ?_ hleft⟩⟩
    -- one of the two runs, with the pair added back
    intro hmem
    refine hmiss (List.mem_flatMap.mpr ⟨_, hmem, List.mem_cons_of_mem _ ?_⟩)
    have hlen := hr.length_le
    rw [List.length_append, List.length_cons] at hlen
    refine List.mem_map.mpr ⟨l₁.length, List.mem_range.mpr (by omega), ?_⟩
    have hv' : v - 2 + 2 = v := by omega
    simp [List.modify_eq_set, hv']
  · refine ⟨l₁, 2, l₂, rfl, .inr ⟨rfl, fun l hl hne => ?_⟩⟩
    -- the two runs have eight counts, and each part fewer
    have hlen := hr.length_le
    rw [List.length_append, List.length_cons] at hlen
    have hshort : ∀ l ∈ missedWaves, l.length = 8 := by decide
    obtain ⟨hrow₁, hrow₂⟩ := hr.without_pair.2 rfl
    rcases List.mem_pair.mp hl with rfl | rfl
    · refine hfound _ hrow₁ hne (fun hmem => ?_) (hleft _ hl hne)
      have := hshort _ hmem
      omega
    · refine hfound _ hrow₂ hne (fun hmem => ?_) (hleft _ hl hne)
      have := hshort _ hmem
      omega

/-- **The tables of this directory miss the runs of `missedRuns`** and no other
inner run. -/
theorem decides : Older.Decides tables missedRuns where
  wave r hr hne := by
    rw [checkWave_iff hr hne]
    refine and_congr_right fun hs => not_congr ⟨mem_missedRuns_of_mem r, fun h => ?_⟩
    exact mem_missedWaves_of_mem r h hs.sum_mod
  waveAndEye r hr hne hmod := by
    have hgui := Gui.decides.waveAndEye r hr hne hmod
    simp only [List.not_mem_nil, not_false_iff, and_true] at hgui
    refine ⟨fun h => ?_, ?_⟩
    · have hmiss : r ∉ missedRuns := by
        intro hmem
        rw [checkWaveAndEye_missedRuns r hmem hmod] at h
        exact Bool.false_ne_true h
      refine ⟨?_, hmiss⟩
      rcases Older.checkWaveAndEye_iff.mp h with hone | hkey | hpair
      · exact hgui.mp (Older.checkWaveAndEye_iff.mpr (.inl hone))
      · apply Gui.splits_of_mem_autoTableWithEye hr
        exact (mem_autoTableWithEye.mp hkey).1
      · refine hpair.splits (fun l hl hwave => ?_) hr
        by_cases hnil : l = []
        · rw [hnil]
          exact .nil
        · exact ((checkWave_iff hl hnil).mp hwave).1
    · rintro ⟨hs, hmiss⟩
      rcases Older.checkWaveAndEye_iff.mp (hgui.mpr hs) with hone | hkey | hpair
      · exact Older.checkWaveAndEye_iff.mpr (.inl hone)
      · refine Older.checkWaveAndEye_iff.mpr (.inr (.inl ?_))
        refine mem_autoTableWithEye.mpr ⟨hkey, fun hmem => ?_⟩
        rcases List.mem_append.mp (mem_of_key_mem (List.subset_append_right _ _) hr hmem) with h | h
        · exact hmiss h
        · have hlong : ∀ l ∈ longRuns, l.length = 9 := by decide
          have := hlong r h
          have := hr.length_le
          omega
      · exact Older.checkWaveAndEye_iff.mpr (.inr (.inr (pairFound_of_gui hr hmiss hpair)))

end SlgServer.Hubei
