import SlgServer.BaseWinning

/-!
# What a judged hand leaves behind

The shipped tables of `base` still have `collect` set, so `check_wave` and
`check_wave_and_eye` write a key they do not find. Judging a hand therefore
leaves the tables alone exactly if its scan never looks up a missing key:
`Misses` says, of the hand's items alone, that it does. `getHuInfo_frame_iff`
lifts this to any sequence of calls: all later answers are those of freshly
loaded tables iff no call of the sequence misses.
-/

namespace SlgServer.Base

open Melds Scan

/-! ## Misses -/

/-- The scan of the items reaches `it`, all items before it being accepted with
at most one pair among them and `it`, and the tables lack the key of `it`. -/
def MissesAt (eye : Bool) (its : List Item) (it : Item) : Prop :=
  ∃ pre post, its = pre ++ it :: post ∧ (∀ x ∈ pre, x.Accepted) ∧
    eye.toNat + (pre.map Item.pairs).sum + it.pairs ≤ 1 ∧ it.LacksKey

/-- The first item at which the scan of a hand fails is a run whose key is
missing. -/
def Misses (order : List CardCfg) (cards : ℕ → ℕ) : Prop :=
  ∃ it, MissesAt false (items order cards) it

theorem Item.LacksKey.not_accepted {it : Item} (h : it.LacksKey) : ¬ it.Accepted := by
  cases it with
  | zi count => exact h.elim
  | run tbl =>
    simp only [Item.LacksKey] at h
    simp only [Item.Accepted]
    rintro (⟨h0, hmem⟩ | ⟨h2, hlen | hmem⟩)
    · rcases h with ⟨-, hnot⟩ | ⟨h2, -, -⟩
      · exact hnot hmem
      · omega
    · rcases h with ⟨h0, -⟩ | ⟨-, hne, -⟩
      · omega
      · exact hne hlen
    · rcases h with ⟨h0, -⟩ | ⟨-, -, hnot⟩
      · omega
      · exact hnot hmem

theorem missesAt_cons {eye : Bool} {it it' : Item} {its : List Item} :
    MissesAt eye (it :: its) it' ↔
      (it' = it ∧ eye.toNat + it.pairs ≤ 1 ∧ it.LacksKey) ∨
        (it.Accepted ∧ eye.toNat + it.pairs ≤ 1 ∧ MissesAt (eye || it.pairs == 1) its it') := by
  refine ⟨?_, ?_⟩
  · rintro ⟨pre, post, hits, hpre, hle, hlacks⟩
    cases pre with
    | nil =>
      obtain ⟨rfl, rfl⟩ := List.cons.inj hits
      exact .inl ⟨rfl, by simpa using hle, hlacks⟩
    | cons x pre =>
      obtain ⟨rfl, rfl⟩ := List.cons.inj hits
      rw [List.map_cons, List.sum_cons] at hle
      refine .inr ⟨hpre _ (List.mem_cons_self ..), by omega, pre, post, rfl,
        fun y hy => hpre y (List.mem_cons_of_mem _ hy), ?_, hlacks⟩
      rw [Item.toNat_eye (by omega)]
      omega
  · rintro (⟨rfl, hle, hlacks⟩ | ⟨hacc, hle, pre, post, rfl, hpre, hle', hlacks⟩)
    · exact ⟨[], its, rfl, by simp, by simpa using hle, hlacks⟩
    · refine ⟨it :: pre, post, rfl, ?_, ?_, hlacks⟩
      · intro y hy
        rcases List.mem_cons.mp hy with rfl | hy
        · exact hacc
        · exact hpre y hy
      · rw [Item.toNat_eye hle] at hle'
        rw [List.map_cons, List.sum_cons]
        omega

/-- **What a scan of fresh tables leaves behind**: the tables with the missing
key written into them, or the tables as they were. -/
theorem scan_shipped_tables (its : List Item) (eye : Bool) :
    (∃ it, MissesAt eye its it ∧
        (scanAll checkItem its ⟨shipped, eye⟩).2.tables = record shipped it) ∨
      ((∀ it, ¬ MissesAt eye its it) ∧
        (scanAll checkItem its ⟨shipped, eye⟩).2.tables = shipped) := by
  induction its generalizing eye with
  | nil =>
    refine .inr ⟨fun it => ?_, rfl⟩
    rintro ⟨pre, post, hits, -⟩
    simp at hits
  | cons it its ih =>
    have hit := checkItem_shipped it eye
    simp only [missesAt_cons]
    by_cases hle : eye.toNat + it.pairs ≤ 1
    · rw [if_pos hle] at hit
      by_cases hacc : it.Accepted
      · rw [if_pos hacc] at hit
        have hnot : ¬ it.LacksKey := fun h => h.not_accepted hacc
        rw [scanAll_cons_true hit]
        simpa [hle, hacc, hnot] using ih (eye || it.pairs == 1)
      · rw [if_neg hacc] at hit
        by_cases hlacks : it.LacksKey
        · rw [if_pos hlacks] at hit
          rw [scanAll_cons_false (by rw [hit]), hit]
          exact .inl ⟨it, .inl ⟨rfl, hle, hlacks⟩, rfl⟩
        · rw [if_neg hlacks] at hit
          rw [scanAll_cons_false (by rw [hit]), hit]
          refine .inr ⟨fun it' => ?_, rfl⟩
          simp [hlacks, hacc]
    · rw [if_neg hle] at hit
      rw [scanAll_cons_false (by rw [hit]), hit]
      refine .inr ⟨fun it' => ?_, rfl⟩
      simp [hle]

/-- The same for a call. -/
theorem getHuInfo_shipped_tables {order : List CardCfg} (horder : VisitOrder order)
    (handCards : ℕ → ℕ) (otherCard : Option ℕ) :
    (∃ it, MissesAt false (items order (withCard handCards otherCard)) it ∧
        (getHuInfo order shipped handCards otherCard).2 = record shipped it) ∨
      (¬ Misses order (withCard handCards otherCard) ∧
        (getHuInfo order shipped handCards otherCard).2 = shipped) := by
  rw [getHuInfo_eq_scan horder]
  obtain h | ⟨hno, htables⟩ :=
    scan_shipped_tables (items order (withCard handCards otherCard)) false
  · exact .inl h
  · exact .inr ⟨fun ⟨it, hit⟩ => hno it hit, htables⟩

/-! ## Tables only grow -/

/-- Every key of `w` is a key of `w'`. -/
def Grows (w w' : Tables) : Prop :=
  w.waveTable.keys ⊆ w'.waveTable.keys ∧ w.waveTableEye.keys ⊆ w'.waveTableEye.keys

theorem Grows.refl (w : Tables) : Grows w w := ⟨List.Subset.refl _, List.Subset.refl _⟩

theorem Grows.trans {w₁ w₂ w₃ : Tables} (h : Grows w₁ w₂) (h' : Grows w₂ w₃) : Grows w₁ w₃ :=
  ⟨List.Subset.trans h.1 h'.1, List.Subset.trans h.2 h'.2⟩

theorem LookupTable.keys_look (t : LookupTable) (num : ℕ) : t.keys ⊆ (t.look num).2.keys := by
  rw [LookupTable.look]
  split_ifs
  · exact List.Subset.refl _
  · exact List.subset_cons_self _ _
  · exact List.Subset.refl _

theorem checkItem_grows (it : Item) (info : Info) :
    Grows info.tables (checkItem it info).2.tables := by
  cases it with
  | zi count =>
    simp only [checkItem, checkColorCount]
    split_ifs <;> exact Grows.refl _
  | run tbl =>
    simp only [checkItem, checkSub, checkWaveAndEye, checkWave]
    split_ifs
    · exact Grows.refl _
    · exact Grows.refl _
    · exact Grows.refl _
    · exact ⟨List.Subset.refl _, info.tables.waveTableEye.keys_look _⟩
    · exact ⟨info.tables.waveTable.keys_look _, List.Subset.refl _⟩

theorem scan_grows (its : List Item) (info : Info) :
    Grows info.tables (scanAll checkItem its info).2.tables :=
  scanAll_invariant (I := fun info' : Info => Grows info.tables info'.tables)
    (fun it _ _ h => h.trans (checkItem_grows it _)) (Grows.refl _)

theorem getHuInfo_grows {order : List CardCfg} (horder : VisitOrder order) (w : Tables)
    (handCards : ℕ → ℕ) (otherCard : Option ℕ) :
    Grows w (getHuInfo order w handCards otherCard).2 := by
  rw [getHuInfo_eq_scan horder]
  exact scan_grows _ ⟨w, false⟩

/-! ## The hand of a single run -/

theorem runsFrom_append {acc r l : List ℕ} (hr : ∀ c ∈ r, c ≠ 0) :
    runsFrom acc (r ++ l) = runsFrom (acc ++ r) l := by
  induction r generalizing acc with
  | nil => rw [List.nil_append, List.append_nil]
  | cons c r ih =>
    obtain ⟨c, rfl⟩ := Nat.exists_eq_succ_of_ne_zero (hr c (List.mem_cons_self ..))
    rw [List.cons_append, runsFrom, ih fun x hx => hr x (List.mem_cons_of_mem _ hx),
      List.append_assoc]
    rfl

theorem runsFrom_replicate_zero (acc : List ℕ) (k : ℕ) :
    runsFrom acc (List.replicate k 0) = if acc = [] then [] else [acc] := by
  induction k generalizing acc with
  | zero => rfl
  | succ k ih =>
    rw [List.replicate_succ, runsFrom, ih]
    simp

/-- A run with empty places behind it. -/
theorem runs_append_zeros {r : List ℕ} (hne : r ≠ []) (hr : ∀ c ∈ r, c ≠ 0) (k : ℕ) :
    runs (r ++ List.replicate k 0) = [r] := by
  rw [runs, runsFrom_append hr, List.nil_append, runsFrom_replicate_zero, if_neg hne]

/-- An array read over a stretch: what it holds there, then zeros. -/
theorem ofArray_range' (r : List ℕ) (n : ℕ) (hn : r.length ≤ n) :
    (List.range' 1 n).map (ofArray r) = r ++ List.replicate (n - r.length) 0 := by
  refine List.ext_getElem (by simp; omega) fun i h₁ h₂ => ?_
  simp only [List.getElem_map, List.getElem_range', ofArray, List.getElem_append,
    List.getElem_replicate]
  rw [if_neg (by omega)]
  have hi : 1 + 1 * i - 1 = i := by omega
  rw [hi]
  split_ifs with hlt
  · simp [List.getD_eq_getElem?_getD, hlt]
  · rw [List.getD_eq_getElem?_getD, List.getElem?_eq_none (by omega)]
    rfl

/-- The items of the hand that holds a single run at the start of a suit. -/
theorem items_ofArray {r : List ℕ} (hne : r ≠ []) (hlen : r.length ≤ 9)
    (hr : ∀ c ∈ r, c ≠ 0) :
    items colours (ofArray r) = .run r :: List.replicate 7 (.zi 0) := by
  have hzero : ∀ i, 10 ≤ i → ofArray r i = 0 := by
    intro i hi
    rw [ofArray, if_neg (by omega), List.getD_eq_getElem?_getD,
      List.getElem?_eq_none (by omega)]
    rfl
  have hfirst : (CardCfg.mk 1 9 true).counts (ofArray r) =
      r ++ List.replicate (9 - r.length) 0 := ofArray_range' r 9 hlen
  have hrest : ∀ lo n, 10 ≤ lo → (List.range' lo n).map (ofArray r) = List.replicate n 0 := by
    intro lo n hlo
    refine List.ext_getElem (by simp) fun i h₁ h₂ => ?_
    simp only [List.getElem_map, List.getElem_range', List.getElem_replicate]
    exact hzero _ (by omega)
  have hwan : colourItems (ofArray r) ⟨1, 9, true⟩ = [.run r] := by
    rw [colourItems, hfirst, runs_append_zeros hne hr]
    rfl
  have hsuit : ∀ lo hi, 10 ≤ lo → colourItems (ofArray r) ⟨lo, hi, true⟩ = [] := by
    intro lo hi hlo
    simp only [colourItems, CardCfg.counts, CardCfg.indices, if_true]
    rw [hrest lo _ hlo, runs, runsFrom_replicate_zero]
    rfl
  have hzi : colourItems (ofArray r) ⟨28, 34, false⟩ = List.replicate 7 (.zi 0) := by
    simp only [colourItems, CardCfg.counts, CardCfg.indices, Bool.false_eq_true, if_false]
    rw [hrest 28 _ (by decide), List.map_replicate]
  simp only [items, colours, cardType, List.map_cons, List.map_nil, List.flatMap_cons,
    List.flatMap_nil, hwan, hzi]
  rw [hsuit 10 18 (by decide), hsuit 19 27 (by decide)]
  rfl

/-- In every order of visit the run stands among honours that are not there. -/
theorem items_ofArray_split {order : List CardCfg} (horder : VisitOrder order) {r : List ℕ}
    (hne : r ≠ []) (hlen : r.length ≤ 9) (hr : ∀ c ∈ r, c ≠ 0) :
    ∃ pre post, items order (ofArray r) = pre ++ .run r :: post ∧
      (∀ x ∈ pre, x = .zi 0) ∧ ∀ x ∈ post, x = .zi 0 := by
  have hperm : (items order (ofArray r)).Perm (.run r :: List.replicate 7 (.zi 0)) := by
    rw [← items_ofArray hne hlen hr]
    exact horder.flatMap_right _
  obtain ⟨pre, post, hsplit⟩ :=
    List.append_of_mem (hperm.mem_iff.mpr (List.mem_cons_self ..))
  rw [hsplit] at hperm
  -- the run stands once among the items, so the others are the honours
  have hrest := (List.perm_middle.symm.trans hperm).cons_inv
  refine ⟨pre, post, hsplit, fun x hx => ?_, fun x hx => ?_⟩
  · exact List.eq_of_mem_replicate (hrest.mem_iff.mp (List.mem_append_left _ hx))
  · exact List.eq_of_mem_replicate (hrest.mem_iff.mp (List.mem_append_right _ hx))

theorem scan_zeros {its : List Item} (h : ∀ x ∈ its, x = .zi 0) (info : Info) :
    scanAll checkItem its info = (true, info) := by
  refine scanAll_of_true fun x hx => ?_
  obtain rfl := h x hx
  rfl

/-- The hand of a single run is judged by the check of that run. -/
theorem getHuInfo_ofArray {order : List CardCfg} (horder : VisitOrder order) (w : Tables)
    {r : List ℕ} (hne : r ≠ []) (hlen : r.length ≤ 9) (hr : ∀ c ∈ r, c ≠ 0) :
    (getHuInfo order w (ofArray r) none).1 = (checkSub r ⟨w, false⟩).1 := by
  obtain ⟨pre, post, hsplit, hpre, hpost⟩ := items_ofArray_split horder hne hlen hr
  rw [getHuInfo_eq_scan horder]
  simp only [withCard, hsplit]
  rw [scanAll_append_of_true (scan_zeros hpre _)]
  have hrun : checkItem (.run r) ⟨w, false⟩ = checkSub r ⟨w, false⟩ := rfl
  rcases he : checkSub r ⟨w, false⟩ with ⟨_ | _, info⟩
  · rw [he] at hrun
    rw [scanAll_cons_false (by rw [hrun])]
  · rw [he] at hrun
    rw [scanAll_cons_true hrun, scan_zeros hpost]

/-- A run whose key was written is accepted from then on. -/
theorem checkSub_of_grows {r : List ℕ} (hlacks : (Item.run r).LacksKey) {w : Tables}
    (hw : Grows (record shipped (.run r)) w) : (checkSub r ⟨w, false⟩).1 = true := by
  simp only [Item.LacksKey] at hlacks
  rcases hlacks with ⟨h0, -⟩ | ⟨h2, hlen, -⟩
  · have hmem : key r ∈ w.waveTable.keys := by
      refine hw.1 ?_
      simp [record, h0]
    simp [checkSub, h0, checkWave, LookupTable.look, hmem]
  · have hmem : key r ∈ w.waveTableEye.keys := by
      refine hw.2 ?_
      simp [record, h2]
    simp [checkSub, h2, hlen, checkWaveAndEye, LookupTable.look, hmem]

/-! ## Sequences of calls -/

/-- A call of `get_hu_info`: its arguments, and the hand they make up. -/
structure Call : Type where
  /-- `hand_cards` -/
  handCards : ℕ → ℕ
  /-- `other_card` -/
  otherCard : Option ℕ
  /-- the hand that is judged -/
  hand : Hand
  /-- it is the hand with the other card -/
  judged : hand.count = withCard handCards otherCard

/-- The answer to a call. -/
def answer (order : List CardCfg) (w : Tables) (c : Call) : Bool :=
  (getHuInfo order w c.handCards c.otherCard).1

/-- The tables after some calls, one after the other. -/
def afterCalls (order : List CardCfg) (w : Tables) (calls : List Call) : Tables :=
  calls.foldl (fun w c => (getHuInfo order w c.handCards c.otherCard).2) w

theorem afterCalls_grows {order : List CardCfg} (horder : VisitOrder order) (w : Tables)
    (calls : List Call) : Grows w (afterCalls order w calls) := by
  induction calls generalizing w with
  | nil => exact Grows.refl w
  | cons c calls ih => exact (getHuInfo_grows horder w _ _).trans (ih _)

/-- Calls that do not miss leave the tables as shipped. -/
theorem afterCalls_shipped {order : List CardCfg} (horder : VisitOrder order)
    {calls : List Call} (h : ∀ c ∈ calls, ¬ Misses order c.hand.count) :
    afterCalls order shipped calls = shipped := by
  induction calls with
  | nil => rfl
  | cons c calls ih =>
    have hc := h c (List.mem_cons_self ..)
    rw [c.judged] at hc
    rw [afterCalls, List.foldl_cons]
    obtain ⟨it, hit, -⟩ | ⟨-, htables⟩ :=
      getHuInfo_shipped_tables horder c.handCards c.otherCard
    · exact absurd ⟨it, hit⟩ hc
    · rw [htables]
      exact ih fun c hc => h c (List.mem_cons_of_mem _ hc)

/-- The first call that misses leaves the key of its run in the tables for good. -/
theorem afterCalls_of_misses {order : List CardCfg} (horder : VisitOrder order)
    {calls : List Call} (h : ¬ ∀ c ∈ calls, ¬ Misses order c.hand.count) :
    ∃ c ∈ calls, ∃ it, MissesAt false (items order c.hand.count) it ∧
      Grows (record shipped it) (afterCalls order shipped calls) := by
  induction calls with
  | nil => exact absurd (by simp) h
  | cons c calls ih =>
    rw [afterCalls, List.foldl_cons]
    obtain ⟨it, hit, htables⟩ | ⟨hno, htables⟩ :=
      getHuInfo_shipped_tables horder c.handCards c.otherCard
    · rw [htables]
      rw [← c.judged] at hit
      exact ⟨c, List.mem_cons_self .., it, hit, afterCalls_grows horder _ calls⟩
    · rw [htables]
      rw [← c.judged] at hno
      have hrest : ¬ ∀ c ∈ calls, ¬ Misses order c.hand.count := by
        intro hall
        refine h fun c' hc' => ?_
        rcases List.mem_cons.mp hc' with rfl | hc'
        · exact hno
        · exact hall c' hc'
      obtain ⟨c', hc', it, hit, hgrows⟩ := ih hrest
      exact ⟨c', List.mem_cons_of_mem _ hc', it, hit, hgrows⟩

/-- The run of an item of a hand, as a hand of its own. -/
theorem run_of_mem_items {order : List CardCfg} (horder : VisitOrder order) {h : Hand}
    {r : List ℕ} (hr : Item.run r ∈ items order h.count) :
    r ≠ [] ∧ r.length ≤ 9 ∧ (∀ c ∈ r, c ≠ 0) ∧ ∀ c ∈ r, c ≤ 4 := by
  obtain ⟨cfg, hcfg, hmem⟩ := List.mem_flatMap.mp hr
  have hwidth := horder.length_counts_le hcfg h.count
  rw [colourItems] at hmem
  split_ifs at hmem
  · obtain ⟨r', hr', heq⟩ := List.mem_map.mp hmem
    obtain rfl := Item.run.inj heq
    obtain ⟨hne, hcounts, hlen, -⟩ := mem_runs hr'
    refine ⟨hne, by omega, fun c hc => (hcounts c hc).2, fun c hc => ?_⟩
    obtain ⟨i, -, rfl⟩ := List.mem_map.mp (hcounts c hc).1
    exact h.le_four i
  · obtain ⟨c, -, heq⟩ := List.mem_map.mp hmem
    cases heq

/-- **When judging leaves no trace.** After any sequence of calls on freshly
loaded tables, every call is answered as on fresh tables iff no call of the
sequence missed; and iff no call missed the tables are as they were. -/
theorem getHuInfo_frame_iff {order : List CardCfg} (horder : VisitOrder order)
    (calls : List Call) :
    ((∀ c, answer order (afterCalls order shipped calls) c = answer order shipped c) ↔
        ∀ c ∈ calls, ¬ Misses order c.hand.count) ∧
      (afterCalls order shipped calls = shipped ↔
        ∀ c ∈ calls, ¬ Misses order c.hand.count) := by
  have hsame : (∀ c ∈ calls, ¬ Misses order c.hand.count) →
      afterCalls order shipped calls = shipped := afterCalls_shipped horder
  -- a call that missed shows in the answer for the hand of the missing run
  have hdiffer : (∀ c, answer order (afterCalls order shipped calls) c = answer order shipped c) →
      ∀ c ∈ calls, ¬ Misses order c.hand.count := by
    intro hanswers
    by_contra hmiss
    obtain ⟨c, -, it, hit, hgrows⟩ := afterCalls_of_misses horder hmiss
    obtain ⟨pre, post, hits, -, hle, hlacks⟩ := hit
    cases it with
    | zi count => exact hlacks
    | run r =>
      obtain ⟨hne, hlen, hnz, h4⟩ :=
        run_of_mem_items horder (h := c.hand) (r := r) (by rw [hits]; simp)
      have h := hanswers ⟨ofArray r, none, Hand.ofArray r (by omega) h4, rfl⟩
      simp only [answer] at h
      rw [getHuInfo_ofArray horder _ hne hlen hnz, getHuInfo_ofArray horder _ hne hlen hnz,
        checkSub_of_grows hlacks hgrows] at h
      have hfresh := checkItem_shipped (.run r) false
      rw [if_pos (by simpa using (Item.run r).pairs_le_one), if_neg hlacks.not_accepted,
        if_pos hlacks] at hfresh
      simp only [checkItem] at hfresh
      rw [hfresh] at h
      cases h
  refine ⟨⟨hdiffer, fun h => ?_⟩, ⟨fun h => ?_, hsame⟩⟩
  · rw [hsame h]
    exact fun _ => rfl
  · refine hdiffer ?_
    rw [h]
    exact fun _ => rfl

/-- One tile `1` and two tiles `2`. -/
def oneTwoTwo : Call :=
  ⟨ofArray [1, 2], none, Hand.ofArray [1, 2] (by decide) (by decide), rfl⟩

theorem getHuInfo_frame_iff_oneTwoTwo :
    (∀ c, answer colours (afterCalls colours shipped [oneTwoTwo]) c = answer colours shipped c) ↔
      ∀ c ∈ [oneTwoTwo], ¬ Misses colours c.hand.count :=
  (getHuInfo_frame_iff visitOrder_colours [oneTwoTwo]).1

/-- `1 2 2` is no set of melds, but the second time it is judged it passes as one. -/
theorem judging_changes_answers :
    ¬ ∀ (calls : List Call) (c : Call),
      answer colours (afterCalls colours shipped calls) c = answer colours shipped c := by
  intro h
  have := h [oneTwoTwo] oneTwoTwo
  revert this
  decide +kernel

end SlgServer.Base
