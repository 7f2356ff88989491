import SlgServer.TidyHands

/-!
# The tables of `base` are complete

A judged hand may spend its one entry on the second suit. But a run of up to eight counts
gets two hands, one for each of two places in the first suit, and what they have in the
second suit is the same run `p`: the later of the two finds `p` in its table. For a run of
nine counts an earlier hand has entered `p` (`FirstHand.spare_of_nine`).

`main_exact`: the tables hold the sums of melds, and of melds and a pair, and nothing else.
-/

namespace SlgServer.Base

open Melds Scan NestedLoops

variable {order : List CardCfg}

/-! ## Runs in the first suit -/

/-- The run `r` in a suit, behind `d` empty places. -/
def place (d : ℕ) (r : List ℕ) : List ℕ :=
  List.replicate d 0 ++ (r ++ List.replicate (9 - d - r.length) 0)

theorem sum_place (d : ℕ) (r : List ℕ) : (place d r).sum = r.sum := by
  simp [place]

theorem runs_place (d : ℕ) {r : List ℕ} (hne : r ≠ []) (hr : ∀ c ∈ r, c ≠ 0) :
    runs (place d r) = [r] := by
  have hzeros : ∀ (d : ℕ) (l : List ℕ), runs (List.replicate d 0 ++ l) = runs l := by
    intro d l
    induction d with
    | zero => rfl
    | succ d ih => exact ih
  rw [place, hzeros, runs_append_zeros hne hr]

/-- The round in which a meld of the first suit is put down. -/
def roundOf : Meld → ℕ
  | .triplet i => i
  | .sequence i => i + 18

theorem meldAt_roundOf {m : Meld} (hm : m.Within true 1 9) :
    meldAt (roundOf m) = m ∧ 1 ≤ roundOf m ∧ roundOf m ≤ 32 := by
  cases m with
  | triplet i =>
    simp only [Meld.Within] at hm
    rw [roundOf, meldAt, if_pos (by omega)]
    exact ⟨rfl, by omega, by omega⟩
  | sequence i =>
    simp only [Meld.Within, true_and] at hm
    rw [roundOf, meldAt, if_neg (by omega), if_pos (by omega), Nat.add_sub_cancel]
    exact ⟨rfl, by omega, by omega⟩

/-- Counts that are zero off the places of a run are the run put there. -/
theorem place_eq {d : ℕ} {r : List ℕ} {h : ℕ → ℕ} (hd : d + r.length ≤ 9)
    (hrow : r = (List.range' (1 + d) r.length).map h)
    (hout : ∀ x, x ∉ List.range' (1 + d) r.length → h x = 0) : place d r = suitRow 1 h := by
  have hzero : ∀ lo n, (∀ x, lo ≤ x → x < lo + n → x < 1 + d ∨ 1 + d + r.length ≤ x) →
      (List.range' lo n).map h = List.replicate n 0 := by
    intro lo n hoff
    refine List.eq_replicate_iff.mpr ⟨by simp, fun y hy => ?_⟩
    obtain ⟨x, hx, rfl⟩ := List.mem_map.mp hy
    rw [List.mem_range'_1] at hx
    refine hout x fun hmem => ?_
    rw [List.mem_range'_1] at hmem
    have := hoff x hx.1 hx.2
    omega
  have hrange : List.range' 1 9 = List.range' 1 d ++
      (List.range' (1 + d) r.length ++ List.range' (1 + d + r.length) (9 - d - r.length)) := by
    rw [List.range'_append_1, List.range'_append_1]
    exact congrArg (List.range' 1) (by omega)
  rw [suitRow, hrange, List.map_append, List.map_append, ← hrow,
    hzero 1 d (fun x hx hx' => by omega), hzero _ _ (fun x hx hx' => by omega), place]

/-- The melds and the pairs of a run, wherever it is put. -/
theorem exists_deals_place {d e : ℕ} {r : List ℕ} (hd : d + r.length ≤ 9)
    (hr : SumOf true 4 e r) :
    ∃ (h : ℕ → ℕ) (ms : List Meld) (ps : List ℕ), place d r = suitRow 1 h ∧ Deals ms ps h ∧
      ms.length ≤ 4 ∧ (∀ m ∈ ms, m.Within true 1 9) ∧ ps.length = e ∧
      ∀ p ∈ ps, 1 ≤ p ∧ p ≤ 9 := by
  obtain ⟨hs, hsum⟩ := sumOf_iff.mp hr
  have hnd : (List.range' (1 + d) r.length).Nodup := List.nodup_range'
  obtain ⟨h, hrow, hout⟩ := exists_map_of_length (w := r) hnd (by simp) fun _ => 0
  rw [hrow] at hs
  obtain ⟨ms, ps, hms, hps, hlen, hdeal⟩ := hs.deals
  have hdeal' : Deals ms ps h := by
    intro x
    rw [← hdeal x]
    by_cases hx : x ∈ List.range' (1 + d) r.length
    · exact (if_pos (List.mem_range'_1.mp hx)).symm
    · exact (hout x hx).trans (if_neg fun h => hx (List.mem_range'_1.mpr h)).symm
  have htotal := hdeal'.sum_of_within (fun m hm => (hms m hm).tiles) hps
  rw [← hrow] at htotal
  refine ⟨h, ms, ps, place_eq hd hrow hout, hdeal', by omega, fun m hm => ?_, hlen,
    fun p hp => ?_⟩
  · have := hms m hm
    cases m <;>
    · simp only [Meld.Within, true_and] at this ⊢
      omega
  · have := hps p hp
    omega

/-- A pair elsewhere, if there is none in the first suit. -/
theorem exists_pair_choice {ps : List ℕ} (hlen : ps.length ≤ 1) (hps : ∀ p ∈ ps, 1 ≤ p ∧ p ≤ 9) :
    ∃ i, (1 ≤ i ∧ i ≤ 18) ∧ ∀ x, x ≤ 9 → [i].count x = ps.count x := by
  cases ps with
  | nil =>
    refine ⟨10, by decide, fun x hx => List.count_eq_zero_of_not_mem ?_⟩
    rw [List.mem_singleton]
    omega
  | cons p ps =>
    obtain rfl : ps = [] := List.eq_nil_of_length_eq_zero (by simpa using hlen)
    have := hps p (List.mem_singleton_self p)
    exact ⟨p, by omega, fun _ _ => rfl⟩

/-- **Every sum of melds is put down**, at each of its places in the first suit. -/
theorem exists_hand {d e : ℕ} {r : List ℕ} (he : e ≤ 1) (hd : d + r.length ≤ 9)
    (hr : SumOf true 4 e r) : ∃ c ∈ choices, suitRow 1 (handOf c) = place d r := by
  obtain ⟨h, ms, ps, hrow, hdeal, hms4, hms, hlen, hps⟩ := exists_deals_place hd hr
  obtain ⟨i, hi, hcount⟩ := exists_pair_choice (by omega) hps
  have hround := fun m hm => meldAt_roundOf (hms m hm)
  -- triplets of 10 make up the four melds
  refine ⟨i :: (ms.map roundOf ++ List.replicate (4 - ms.length) 10), ?_, ?_⟩
  · refine mem_choices.mpr ⟨i, _, rfl, hi, ?_, fun j hj => ?_⟩
    · rw [List.length_append, List.length_map, List.length_replicate]
      omega
    · rcases List.mem_append.mp hj with hj | hj
      · obtain ⟨m, hm, rfl⟩ := List.mem_map.mp hj
        exact (hround m hm).2
      · rw [List.eq_of_mem_replicate hj]
        decide
  · rw [hrow]
    apply List.map_congr_left
    intro x hx
    rw [List.mem_range'_1] at hx
    have hmelds : (ms.map roundOf).map meldAt = ms := by
      rw [List.map_map]
      exact (List.map_congr_left fun m hm => (hround m hm).1).trans (List.map_id _)
    have hten : meldAt 10 = .triplet 10 := rfl
    rw [deals_handOf, List.map_append, List.map_replicate, hmelds, tileCount_append,
      tileCount_replicate, hten, Meld.count_triplet, if_neg (by omega), hcount x (by omega),
      Nat.mul_zero, Nat.add_zero, hdeal x]

theorem exists_firstHand_place {d e : ℕ} {r : List ℕ} (he : e ≤ 1) (hd : d + r.length ≤ 9)
    (hcounts : ∀ c ∈ r, 1 ≤ c ∧ c ≤ 4) (hr : SumOf true 4 e r) :
    ∃ pre c, FirstHand (place d r) pre c := by
  apply exists_firstHand (exists_hand he hd hr)
  intro n hn
  simp only [place, List.mem_append, List.mem_replicate] at hn
  rcases hn with hn | hn | hn
  · omega
  · exact (hcounts n hn).2
  · omega

/-! ## Everything is collected -/

/-- Tables with nothing but the flags. -/
def onlyFlags : Tables := ⟨⟨[], true⟩, ⟨[], true⟩⟩

theorem soundTables_onlyFlags : SoundTables onlyFlags :=
  ⟨⟨rfl, rfl⟩, fun _ hn => absurd hn List.not_mem_nil, fun _ hn => absurd hn List.not_mem_nil⟩

namespace FirstHand

variable {s : List ℕ} {pre : List (List ℕ)} {c : List ℕ}

theorem collects (horder : VisitOrder order) (h : FirstHand s pre c) :
    Collects (after order onlyFlags pre).tables := by
  obtain ⟨post, hsplit⟩ := h.split
  refine (soundTables_after horder soundTables_onlyFlags fun b hb => ?_).collects
  rw [hsplit]
  exact List.mem_append_left _ hb

/-- If the second suit is visited first, what was put aside there is entered. -/
theorem present_spare (horder : VisitOrder order)
    (hsecond : ∀ t, suitRuns order t = runs (suitRow 10 t) ++ runs (suitRow 1 t))
    (h : FirstHand s pre c) (hs : (14 - s.sum) % 3 ≠ 1) :
    ∀ p ∈ spareRuns (14 - s.sum), Present (after order onlyFlags (pre ++ [c])).tables p := by
  intro p hp
  rcases spareRuns_cases hs with ⟨hnil, -⟩ | ⟨p', hp', hsum⟩
  · rw [hnil] at hp
    exact absurd hp List.not_mem_nil
  · rw [hp'] at hp
    obtain rfl := List.mem_singleton.mp hp
    have hruns : suitRuns order (handOf c) = [] ++ p :: runs s := by
      rw [hsecond, h.runs_second, h.row, hp']
      rfl
    refine h.present horder (h.collects horder) hruns (by simp) (by omega) ?_
    simpa using (Item.run p).pairs_le_one

/-- The run in the first suit is entered, if what was put aside is there already. -/
theorem present_run (horder : VisitOrder order)
    (hsecond : ∀ t, suitRuns order t = runs (suitRow 10 t) ++ runs (suitRow 1 t))
    (h : FirstHand s pre c) {r : List ℕ} (hruns : runs s = [r]) (hsum : s.sum = r.sum)
    (hle : r.sum ≤ 14) (hr : r.sum % 3 ≠ 1)
    (hspare : ∀ p ∈ spareRuns (14 - s.sum), Present (after order onlyFlags pre).tables p) :
    Present (after order onlyFlags (pre ++ [c])).tables r := by
  have hall : suitRuns order (handOf c) = spareRuns (14 - s.sum) ++ [r] := by
    rw [hsecond, h.runs_second, h.row, hruns]
  refine h.present horder (h.collects horder) hall hspare hr ?_
  -- the pair is in one of the two
  have hone := (Item.run r).pairs_le_one
  rcases spareRuns_cases (n := 14 - s.sum) (by omega) with ⟨hnil, -⟩ | ⟨p, hp, hpsum⟩
  · rw [hnil]
    simpa using hone
  · rw [hp]
    simp only [List.map_cons, List.map_nil, List.sum_cons, List.sum_nil, Item.pairs]
    split_ifs <;> omega

end FirstHand

/-- A pair and four triplets that are runs by themselves. -/
def loneTriplets : List ℕ := [1, 3, 5, 7, 9]

/-- A pair beside a triplet, and three triplets side by side. -/
def pairAndTriplet : List ℕ := [1, 2, 4, 5, 6]

/-- Eleven tiles on nine places leave no room for a pair on the first and a triplet. -/
theorem FirstHand.three_lt {r : List ℕ} {pre : List (List ℕ)} {j : ℕ} {js : List ℕ}
    (h : FirstHand (place 0 r) pre (1 :: j :: js)) (hlen : r.length = 9) (hpos : ∀ x ∈ r, 1 ≤ x)
    (hsum : r.sum = 11) (hj : 1 ≤ j) : 3 < j := by
  by_contra hle
  have hplace : place 0 r = r := by
    rw [place, hlen]
    simp
  have hrow := h.row
  rw [hplace] at hrow
  have hone : ∀ x ∈ List.range' 1 9, 1 ≤ handOf (1 :: j :: js) x := by
    intro x hx
    refine hpos _ ?_
    rw [← hrow]
    exact List.mem_map_of_mem hx
  have hpair : 2 ≤ handOf (1 :: j :: js) 1 := by
    rw [deals_handOf]
    simp
  have htriplet : 3 + (if j = 1 then 2 else 0) ≤ handOf (1 :: j :: js) j := by
    rw [deals_handOf, List.map_cons, tileCount_cons, show meldAt j = .triplet j from
      if_pos (by omega), Meld.count_triplet, if_pos rfl]
    split_ifs with h1
    · subst h1
      simp
    · omega
  rw [← hrow] at hsum
  simp [suitRow, List.range'] at hsum hone
  obtain rfl | rfl | rfl : j = 1 ∨ j = 2 ∨ j = 3 := by omega
  · simp at htriplet
    omega
  · simp at htriplet
    omega
  · simp at htriplet
    omega

/-- A hand that fills the first suit is judged by that suit alone: a run behind pairs there
is known to all first hands that come later. -/
theorem FirstHand.present_of_full (horder : VisitOrder order)
    (hsecond : ∀ t, suitRuns order t = runs (suitRow 10 t) ++ runs (suitRow 1 t))
    {s : List ℕ} {pre : List (List ℕ)} {c g : List ℕ} (h : FirstHand s pre c) (hg : g ∈ choices)
    (hlegal : Legal (handOf g)) (hfull : (suitRow 1 (handOf g)).sum = 14) (hlt : g < c)
    {rs rs' : List (List ℕ)} {p : List ℕ} (hruns : runs (suitRow 1 (handOf g)) = rs ++ p :: rs')
    (hrs : ∀ x ∈ rs, x = [2]) (hp : p.sum % 3 ≠ 1)
    (hpairs : (rs.map fun x => (Item.run x).pairs).sum + (Item.run p).pairs ≤ 1) :
    Present (after order onlyFlags pre).tables p := by
  obtain ⟨pre₀, c₀, h₀⟩ := exists_firstHand ⟨g, hg, rfl⟩ (hlegal.le_four (.inl rfl))
  have hall : suitRuns order (handOf c₀) = rs ++ p :: rs' := by
    rw [hsecond, h₀.runs_second, h₀.row, hfull, hruns]
    rfl
  refine h₀.present_of_lt horder h ((h₀.least g hg hlegal rfl).trans_lt hlt)
    (h₀.present horder (h₀.collects horder) hall (fun x hx => ?_) hp hpairs)
  rw [hrs x hx]
  exact .inr ⟨rfl, .inl rfl⟩

/-- **What is put aside for a run of nine counts** was entered with a hand that comes
before: a triplet with `loneTriplets`, a pair and a triplet with `pairAndTriplet`. -/
theorem FirstHand.spare_of_nine (horder : VisitOrder order)
    (hsecond : ∀ t, suitRuns order t = runs (suitRow 10 t) ++ runs (suitRow 1 t))
    {r : List ℕ} {pre : List (List ℕ)} {c : List ℕ} (h : FirstHand (place 0 r) pre c)
    (hlen : r.length = 9) (hpos : ∀ x ∈ r, 1 ≤ x) (hle : r.sum ≤ 14) (hr : r.sum % 3 ≠ 1) :
    ∀ p ∈ spareRuns (14 - r.sum), Present (after order onlyFlags pre).tables p := by
  have hnine := List.length_le_sum_of_one_le r hpos
  obtain ⟨i, js, rfl, hi, hjlen, hjs⟩ := mem_choices.mp h.mem
  have htiles := sum_suitRow hi.1 hjs
  rw [h.row, sum_place, hjlen] at htiles
  intro p hp
  obtain h9 | h11 | h12 | h14 : r.sum = 9 ∨ r.sum = 11 ∨ r.sum = 12 ∨ r.sum = 14 := by omega
  · -- the pair is not in the first suit
    rw [h9] at hp htiles
    obtain rfl := List.mem_singleton.mp hp
    have hlt : pairAndTriplet < i :: js := by
      apply List.Lex.rel
      split_ifs at htiles <;> omega
    have hruns : runs (suitRow 1 (handOf pairAndTriplet)) = [] ++ [2, 3] :: [[3, 3, 3]] := rfl
    exact h.present_of_full horder hsecond
      (mem_choices.mpr ⟨1, [2, 4, 5, 6], rfl, by decide, rfl, by decide⟩) (by decide) rfl hlt hruns
      (by simp) (by decide) (by decide)
  · -- the melds in the first suit are sequences
    rw [h11] at hp
    obtain rfl := List.mem_singleton.mp hp
    have hlt : loneTriplets < i :: js := by
      obtain rfl | hgt : i = 1 ∨ 1 < i := by omega
      · cases js with
        | nil => cases hjlen
        | cons j js =>
          have hj := (hjs j (List.mem_cons_self ..)).1
          exact List.Lex.cons (List.Lex.rel (h.three_lt hlen hpos h11 hj))
      · exact List.Lex.rel hgt
    have hruns : runs (suitRow 1 (handOf loneTriplets)) = [[2]] ++ [3] :: [[3], [3], [3]] := rfl
    exact h.present_of_full horder hsecond
      (mem_choices.mpr ⟨1, [3, 5, 7, 9], rfl, by decide, rfl, by decide⟩) (by decide) rfl hlt hruns
      (by simp) (by decide) (by decide)
  · rw [h12] at hp
    obtain rfl := List.mem_singleton.mp hp
    exact .inr ⟨rfl, .inl rfl⟩
  · rw [h14] at hp
    exact absurd hp List.not_mem_nil

/-- A run of up to eight counts is put at two places of the first suit; of the two hands the
later one finds what the earlier may have been spent on. -/
theorem present_of_short (horder : VisitOrder order)
    (hsecond : ∀ t, suitRuns order t = runs (suitRow 10 t) ++ runs (suitRow 1 t))
    {r : List ℕ} {pre pre' : List (List ℕ)} {c c' : List ℕ} (h : FirstHand (place 0 r) pre c)
    (h' : FirstHand (place 1 r) pre' c') (hne : r ≠ []) (hnz : ∀ n ∈ r, n ≠ 0) (hle : r.sum ≤ 14)
    (hr : r.sum % 3 ≠ 1) : Present (after order onlyFlags choices).tables r := by
  have hsum := sum_place 0 r
  have hsum' := sum_place 1 r
  have hspare := h.present_spare horder hsecond (by omega)
  have hspare' := h'.present_spare horder hsecond (by omega)
  rw [hsum] at hspare
  rw [hsum'] at hspare'
  rcases lt_trichotomy c c' with hlt | rfl | hlt
  · refine h'.present_end horder
      (h'.present_run horder hsecond (runs_place 1 hne hnz) hsum' hle hr ?_)
    rw [hsum']
    exact fun p hp => h.present_of_lt horder h' hlt (hspare p hp)
  · have hsame := h.row.symm.trans h'.row
    cases r with
    | nil => exact absurd rfl hne
    | cons x r => exact absurd (List.cons.inj hsame).1 (hnz x (List.mem_cons_self ..))
  · refine h.present_end horder
      (h.present_run horder hsecond (runs_place 0 hne hnz) hsum hle hr ?_)
    rw [hsum]
    exact fun p hp => h'.present_of_lt horder h hlt (hspare' p hp)

/-- **Every sum of melds is collected**, and every sum of melds and a pair. -/
theorem present_of_sumOf (horder : VisitOrder order) {e : ℕ} {r : List ℕ} (he : e ≤ 1)
    (hlen : 1 ≤ r.length ∧ r.length ≤ 9) (hcounts : ∀ c ∈ r, 1 ≤ c ∧ c ≤ 4)
    (hr : SumOf true 4 e r) : Present (after order onlyFlags choices).tables r := by
  obtain ⟨hs, hle⟩ := sumOf_iff.mp hr
  have hmod := hs.sum_mod
  have hne : r ≠ [] := List.length_pos_iff.mp hlen.1
  have hnz : ∀ c ∈ r, c ≠ 0 := fun c hc => by
    have := hcounts c hc
    omega
  have hsum := sum_place 0 r
  obtain ⟨pre, c, h⟩ := exists_firstHand_place (d := 0) he (by omega) hcounts hr
  rcases suitRuns_eq horder with hfirst | hsecond
  · -- the run is looked up before anything else
    have hruns : suitRuns order (handOf c) = [] ++ r :: runs (suitRow 10 (handOf c)) := by
      rw [hfirst, h.row, runs_place 0 hne hnz]
      rfl
    refine h.present_end horder
      (h.present horder (h.collects horder) hruns (by simp) (by omega) ?_)
    simpa using (Item.run r).pairs_le_one
  · by_cases hnine : r.length = 9
    · refine h.present_end horder (h.present_run horder hsecond (runs_place 0 hne hnz) hsum
        (by omega) (by omega) ?_)
      rw [hsum]
      exact h.spare_of_nine horder hsecond hnine (fun x hx => (hcounts x hx).1) (by omega)
        (by omega)
    · obtain ⟨pre', c', h'⟩ := exists_firstHand_place (d := 1) he (by omega) hcounts hr
      exact present_of_short horder hsecond h h' hne hnz (by omega) (by omega)

/-- **The generated tables are exact**: started on tables with nothing but the flag, the
generator collects the runs that are sums of at most four melds of one suit, and those that
are sums of at most four melds and one pair, whatever the order in which the colours are
visited. -/
theorem main_exact (horder : VisitOrder order) :
    (∀ n, n ∈ (main order [] []).tables.waveTable.keys ↔ RunKey 1 0 n) ∧
      ∀ n, n ∈ (main order [] []).tables.waveTableEye.keys ↔ RunKey 2 1 n := by
  have hmain : main order [] [] = after order onlyFlags choices := genAutoTable_eq onlyFlags
  have hsound : SoundTables (after order onlyFlags choices).tables :=
    soundTables_after horder soundTables_onlyFlags fun _ h => h
  rw [hmain]
  refine ⟨fun n => ⟨hsound.wave n, ?_⟩, fun n => ⟨hsound.waveEye n, ?_⟩⟩
  · rintro ⟨r, hlen, hcounts, hr, rfl⟩
    have hmod := (sumOf_iff.mp hr).1.sum_mod
    rcases present_of_sumOf horder (Nat.zero_le 1) hlen hcounts hr with ⟨-, hmem⟩ | ⟨h2, -⟩
    · exact hmem
    · omega
  · rintro ⟨r, hlen, hcounts, hr, rfl⟩
    have hmod := (sumOf_iff.mp hr).1.sum_mod
    rcases present_of_sumOf horder le_rfl (by omega) hcounts hr with ⟨h0, -⟩ | ⟨-, h1 | hmem⟩
    · omega
    · omega
    · exact hmem

/-- With the colours visited by rising index: one tile of each kind, and a pair beside a
triplet. -/
theorem main_exact_colours : 111111111 ∈ (main colours [] []).tables.waveTable.keys ∧
    23 ∈ (main colours [] []).tables.waveTableEye.keys := by
  have hexact := main_exact visitOrder_colours
  refine ⟨(hexact.1 _).mpr ?_, (hexact.2 _).mpr ?_⟩
  · exact ⟨List.replicate 9 1, by decide, by decide, sumOf_iff.mpr (by decide), rfl⟩
  · exact ⟨[2, 3], by decide, by decide, sumOf_iff.mpr (by decide), rfl⟩

end SlgServer.Base
