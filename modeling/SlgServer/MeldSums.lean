import SlgServer.MeldFills
import SlgServer.MeldTiles

/-!
# Rows that are sums of melds

`SumOf chi n e l` says in so many words that the row `l` is the sum of at most `n`
melds that lie on it and of `e` pairs. It is `Splits` with a bound on the tiles
(`sumOf_iff`), and `Completed`, which lets `k` tiles be added first, is `Fills` with
one (`completed_iff`).
-/

namespace Melds

variable {chi : Bool} {n e k : ℕ}

/-- The row is the sum of at most `n` melds on its places, sequences only where `chi`,
and of `e` pairs. -/
def SumOf (chi : Bool) (n e : ℕ) (l : List ℕ) : Prop :=
  ∃ (ms : List Meld) (ps : List ℕ), ms.length ≤ n ∧ ps.length = e ∧
    (∀ m ∈ ms, m.Within chi 1 l.length) ∧ (∀ p ∈ ps, 1 ≤ p ∧ p < 1 + l.length) ∧
    l = (List.range' 1 l.length).map fun x => tileCount ms x + 2 * ps.count x

/-- By adding `k` tiles the row can be turned into one with at most four tiles at each
place that is the sum of at most `n` melds and `e` pairs. -/
def Completed (chi : Bool) (n e k : ℕ) (w : List ℕ) : Prop :=
  ∃ v, List.Forall₂ (· ≤ ·) w v ∧ v.sum = w.sum + k ∧ (∀ c ∈ v, c ≤ 4) ∧ SumOf chi n e v

theorem Meld.Within.respects {lo len : ℕ} {m : Meld} (hm : m.Within chi lo len) :
    m.Respects chi lo len := by
  cases m with
  | triplet i => exact trivial
  | sequence i => exact .inr (.inr hm)

/-- **Sums of melds are the rows that split**, the number of the melds being that of
the tiles. -/
theorem sumOf_iff {l : List ℕ} :
    SumOf chi n e l ↔ Splits chi 0 0 e l ∧ l.sum ≤ 3 * n + 2 * e := by
  refine ⟨?_, ?_⟩
  · rintro ⟨ms, ps, hn, rfl, hms, hps, hl⟩
    have hdeal : Deals ms ps fun x => tileCount ms x + 2 * ps.count x := fun _ => rfl
    have hs := hdeal.splits fun m hm => (hms m hm).respects
    have hsum := hdeal.sum_of_within (fun m hm => (hms m hm).tiles) hps
    have hpairs : ps.countP (fun y => decide (1 ≤ y ∧ y < 1 + l.length)) = ps.length :=
      List.countP_eq_length.mpr fun p hp => decide_eq_true (hps p hp)
    rw [sum_count_range', hpairs, ← hl] at hs
    rw [← hl] at hsum
    exact ⟨hs, by omega⟩
  · rintro ⟨hs, hsum⟩
    have hnd : (List.range' 1 l.length).Nodup := List.nodup_range'
    obtain ⟨h, hl, -⟩ := exists_map_of_length (w := l) hnd (by simp) fun _ => 0
    rw [hl] at hs
    obtain ⟨ms, ps, hms, hps, hlen, hdeal⟩ := hs.deals
    have hrow : l = (List.range' 1 l.length).map fun x => tileCount ms x + 2 * ps.count x := by
      conv_lhs => rw [hl]
      apply List.map_congr_left
      intro x hx
      rw [← hdeal x]
      exact (if_pos (List.mem_range'_1.mp hx)).symm
    have htotal := hdeal.sum_of_within (fun m hm => (hms m hm).tiles) hps
    rw [List.map_congr_left fun x hx => hdeal x, ← hrow] at htotal
    exact ⟨ms, ps, by omega, hlen, hms, hps, hrow⟩

theorem completed_iff {w : List ℕ} :
    Completed chi n e k w ↔ w.sum + k ≤ 3 * n + 2 * e ∧ Fills chi e k w := by
  simp only [Completed, Fills, sumOf_iff]
  refine ⟨?_, ?_⟩
  · rintro ⟨v, hle, hsum, hfour, hs, hbound⟩
    exact ⟨by omega, v, hle, hsum, hfour, hs⟩
  · rintro ⟨hbound, v, hle, hsum, hfour, hs⟩
    exact ⟨v, hle, hsum, hfour, hs, by omega⟩

end Melds
