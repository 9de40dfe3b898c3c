import Mathlib.Algebra.Order.Field.Basic
import Mathlib.Tactic.Linarith

/-! Token buckets over an ordered field: a level that time raises up to a capacity, and that every admitted
    request lowers by one. -/

namespace TokenBucket
variable {K : Type} [Field K] [LinearOrder K] [IsStrictOrderedRing K] {rate burst level elapsed total : K}

/-- The level after some time without a request. -/
def refill (rate burst level elapsed : K) : K := min (level + elapsed * rate) burst

/-- The level after a request, which takes a whole token if there is one. -/
def drain (level : K) : K := if 1 ≤ level then level - 1 else level

/-- What a request takes. -/
def taken (level : K) : Nat := if 1 ≤ level then 1 else 0

omit [IsStrictOrderedRing K] in
theorem refill_le_burst : refill rate burst level elapsed ≤ burst := min_le_right _ _

theorem refill_nonneg (hburst : 0 ≤ burst) (hlevel : 0 ≤ level) (hgain : 0 ≤ elapsed * rate) :
    0 ≤ refill rate burst level elapsed :=
  le_min (add_nonneg hlevel hgain) hburst

/-- After a time that fills an empty bucket every bucket is full. -/
theorem refill_full (hlevel : 0 ≤ level) (hgain : burst ≤ elapsed * rate) :
    refill rate burst level elapsed = burst :=
  min_eq_right (hgain.trans (le_add_of_nonneg_left hlevel))

/-- A full bucket stays full. -/
theorem refill_burst (hgain : 0 ≤ elapsed * rate) : refill rate burst burst elapsed = burst :=
  min_eq_right (le_add_of_nonneg_right hgain)

/-- Two refills in turn are one. -/
theorem refill_refill {elapsed' : K} (hgain : 0 ≤ elapsed' * rate) :
    refill rate burst (refill rate burst level elapsed) elapsed' = refill rate burst level (elapsed + elapsed') := by
  have hcap : burst ≤ burst + elapsed' * rate := le_add_of_nonneg_right hgain
  unfold refill
  rw [min_add, min_assoc, min_eq_right hcap, add_mul, add_assoc]

theorem refill_mono {elapsed' : K} (h : elapsed * rate ≤ elapsed' * rate) :
    refill rate burst level elapsed ≤ refill rate burst level elapsed' :=
  min_le_min_right burst (by gcongr)

theorem drain_nonneg (h : 0 ≤ level) : 0 ≤ drain level := by
  unfold drain
  split
  · next h₁ => exact sub_nonneg.2 h₁
  · exact h

theorem drain_le (level : K) : drain level ≤ level := by
  unfold drain
  split
  · exact sub_le_self _ zero_le_one
  · exact le_rfl

omit [IsStrictOrderedRing K] in
theorem taken_add_drain (level : K) : (taken level : K) + drain level = level := by
  unfold taken drain
  split <;> simp

/-- `n` requests were admitted in a time `total` that began with a bucket of at most `burst` tokens, and the
    level is now `level`. -/
structure Budget (rate burst : K) (n : Nat) (level total : K) : Prop where
  nonneg : 0 ≤ level
  spent : n + level ≤ burst + total * rate

namespace Budget
variable {n : Nat}

/-- One more request, after some time. -/
theorem request (h : Budget rate burst n level total) (hburst : 0 ≤ burst) (hgain : 0 ≤ elapsed * rate) :
    Budget rate burst (n + taken (refill rate burst level elapsed)) (drain (refill rate burst level elapsed))
      (total + elapsed) := by
  refine ⟨drain_nonneg (refill_nonneg hburst h.nonneg hgain), ?_⟩
  have hlevel : refill rate burst level elapsed ≤ level + elapsed * rate := min_le_left _ _
  have hsum := taken_add_drain (refill rate burst level elapsed)
  have hspent := h.spent
  push_cast
  linarith

/-- The requests admitted are at most a burst and what the rate allows for the time. -/
theorem admitted_le (h : Budget rate burst n level total) : (n : K) ≤ burst + total * rate :=
  (le_add_of_nonneg_right h.nonneg).trans h.spent

end Budget
end TokenBucket
