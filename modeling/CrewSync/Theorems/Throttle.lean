import CrewSync.Theorems.RateLimit

/-! What a rejected caller is told, and what the limiter keeps of its callers. A call is charged to the bucket of its
    key, unless the key has none and the map is at its ceiling. -/

namespace CrewSync.RateLimit
open TokenBucket

/-- The call finds no bucket of its key, and the map is full with buckets that are in use. -/
def Inner.AtCeiling (inner : Inner) (key : String) (now : Nat) : Prop :=
  (inner.sweep now).get key = none ∧ maxTracked ≤ (retain now (inner.sweep now).buckets).length

instance (inner : Inner) (key : String) (now : Nat) : Decidable (inner.AtCeiling key now) :=
  inferInstanceAs (Decidable (_ ∧ _))

namespace RateLimiter
variable (rl : RateLimiter)

theorem rate_pos : 0 < rl.refillPerSec := by
  have hgain : 1 ≤ asSecs idleEviction * rl.refillPerSec := rl.one_le_burst.trans rl.idle_fills
  refine lt_of_le_of_ne rl.refill_nonneg fun h => ?_
  rw [← h, mul_zero] at hgain
  linarith

/-- The bucket that a call of the key is charged to. -/
def bucketOf (inner : Inner) (key : String) (now : Nat) : Bucket :=
  ((inner.sweep now).get key).getD { tokens := rl.burst, last := now }

end RateLimiter

/-! ### The map -/

theorem Inner.get_sweep {inner : Inner} (h : Rows.Keyed (·.1) inner.buckets) (key : String) (now : Nat) :
    (inner.sweep now).get key =
      (inner.get key).filter fun b => decide (inner.sinceSweep + 1 < sweepEvery ∨ now - b.last < idleEviction) := by
  simp only [Inner.sweep]
  split
  · next hsweep =>
    have hnot : ¬ inner.sinceSweep + 1 < sweepEvery := not_lt.2 hsweep
    rw [get_retain h]
    simp only [hnot, false_or]
    rfl
  · next hsweep =>
    have hnot : inner.sinceSweep + 1 < sweepEvery := not_le.1 hsweep
    simp only [hnot, true_or, decide_true]
    cases hg : inner.get key with
    | none => exact hg
    | some b => exact hg

theorem Inner.sweep_sublist (inner : Inner) (now : Nat) : (inner.sweep now).buckets.Sublist inner.buckets := by
  simp only [Inner.sweep]
  split
  · exact List.filter_sublist
  · exact List.Sublist.refl _

theorem Inner.get_eq_some {inner : Inner} (h : Rows.Keyed (·.1) inner.buckets) {key : String} {b : Bucket} :
    inner.get key = some b ↔ (key, b) ∈ inner.buckets := by
  unfold Inner.get
  rw [Option.map_eq_some_iff]
  constructor
  · rintro ⟨⟨key', b⟩, hfind, rfl⟩
    obtain ⟨hmem, rfl⟩ := (h.find?_key (k := key) (by simp)).1 hfind
    exact hmem
  · exact fun hmem => ⟨(key, b), (h.find?_key (k := key) (by simp)).2 ⟨hmem, rfl⟩, rfl⟩

/-- What is left of the map after sweeps: some of its buckets. -/
structure Left (inner left : Inner) : Prop where
  keyed : Rows.Keyed (·.1) left.buckets
  sublist : left.buckets.Sublist inner.buckets

namespace Left
variable {inner left : Inner}

theorem get (h : Left inner left) (hkeyed : Rows.Keyed (·.1) inner.buckets) {key : String} {b : Bucket}
    (hb : left.get key = some b) : inner.get key = some b :=
  (Inner.get_eq_some hkeyed).2 (h.sublist.subset ((Inner.get_eq_some h.keyed).1 hb))

theorem sweep (h : Rows.Keyed (·.1) inner.buckets) (now : Nat) : Left inner (inner.sweep now) :=
  ⟨h.sublist ((inner.sweep_sublist now).map _), inner.sweep_sublist now⟩

theorem retained (h : Left inner left) (now : Nat) : Left inner { left with buckets := retain now left.buckets } :=
  ⟨h.keyed.filter _, List.filter_sublist.trans h.sublist⟩

end Left

/-- A call is rejected at the ceiling, or it is charged to the bucket of its key. -/
theorem RateLimiter.check_cases (rl : RateLimiter) {inner : Inner} (h : Rows.Keyed (·.1) inner.buckets) (key : String)
    (now : Nat) :
    (inner.AtCeiling key now ∧ ∃ left, Left inner left ∧ left.get key = none ∧
        rl.check inner key now = (.error { retryAfterSecs := 60 }, left)) ∨
      (¬ inner.AtCeiling key now ∧ ∃ left, Left inner left ∧ left.get key = (inner.sweep now).get key ∧
        (left.get key = none → left.buckets.length < maxTracked) ∧
        rl.check inner key now = ((rl.charge now (rl.bucketOf inner key now)).1,
          left.set key (rl.charge now (rl.bucketOf inner key now)).2)) := by
  have hsweep := Left.sweep h now
  cases hg : (inner.sweep now).get key with
  | some b =>
    have hnot : ¬ inner.AtCeiling key now := fun hat => by simp [hat.1] at hg
    refine .inr ⟨hnot, _, hsweep, hg, fun hnone => absurd (hg.symm.trans hnone) (by simp), ?_⟩
    simp only [RateLimiter.check, RateLimiter.bucketOf, hg, Option.getD_some]
  | none =>
    have hretained : ({ inner.sweep now with buckets := retain now (inner.sweep now).buckets } : Inner).get key = none := by
      rw [get_retain hsweep.keyed]
      exact Option.filter_eq_none_iff.2 fun b hb => absurd (hg.symm.trans hb) (by simp)
    by_cases hfull : (inner.sweep now).buckets.length ≥ maxTracked
    · by_cases hstill : (retain now (inner.sweep now).buckets).length ≥ maxTracked
      · refine .inl ⟨⟨hg, hstill⟩, _, hsweep.retained now, hretained, ?_⟩
        simp only [RateLimiter.check, hg, hfull, if_true, hstill]
      · refine .inr ⟨fun hat => hstill hat.2, _, hsweep.retained now, hretained, fun _ => not_le.1 hstill, ?_⟩
        simp only [RateLimiter.check, RateLimiter.bucketOf, hg, hfull, if_true, hstill, if_false, Option.getD_none]
    · have hnot : ¬ inner.AtCeiling key now := fun hat => hfull (hat.2.trans List.filter_sublist.length_le)
      refine .inr ⟨hnot, _, hsweep, hg, fun _ => not_le.1 hfull, ?_⟩
      simp only [RateLimiter.check, RateLimiter.bucketOf, hg, hfull, if_false, Option.getD_none]

/-! ### What the limiter keeps -/

/-- A charge leaves the bucket between empty and full. -/
theorem RateLimiter.charge_level (rl : RateLimiter) (now : Nat) {b : Bucket} (h : 0 ≤ b.tokens) :
    0 ≤ (rl.charge now b).2.tokens ∧ (rl.charge now b).2.tokens ≤ rl.burst := by
  obtain ⟨-, hbucket⟩ := rl.charge_eq now b
  have hlevel : 0 ≤ rl.level now b := TokenBucket.refill_nonneg rl.burst_nonneg h (rl.gain_nonneg _)
  have hfull : rl.level now b ≤ rl.burst := refill_le_burst
  rw [hbucket]
  exact ⟨drain_nonneg hlevel, (drain_le _).trans hfull⟩

/-- Each caller has one bucket, which is neither overdrawn nor overfull, and the map is within its ceiling. -/
structure Bounded (rl : RateLimiter) (inner : Inner) : Prop where
  keyed : Rows.Keyed (·.1) inner.buckets
  room : inner.buckets.length ≤ maxTracked
  levels : ∀ b ∈ inner.buckets, 0 ≤ b.2.tokens ∧ b.2.tokens ≤ rl.burst

namespace Bounded
variable {rl : RateLimiter} {inner : Inner}

theorem empty (rl : RateLimiter) : Bounded rl .empty := ⟨.nil, Nat.zero_le _, by simp [Inner.empty]⟩

theorem of_left {left : Inner} (h : Bounded rl inner) (hleft : Left inner left) : Bounded rl left :=
  ⟨hleft.keyed, hleft.sublist.length_le.trans h.room, fun b hb => h.levels b (hleft.sublist.subset hb)⟩

theorem set (h : Bounded rl inner) {key : String} {b : Bucket} (hb : 0 ≤ b.tokens ∧ b.tokens ≤ rl.burst)
    (hroom : inner.get key = none → inner.buckets.length < maxTracked) : Bounded rl (inner.set key b) := by
  refine ⟨h.keyed.put _, ?_, fun b' hb' => ?_⟩
  · cases hg : inner.get key with
    | some old =>
      have hold : ∃ r ∈ inner.buckets, r.1 = key := ⟨(key, old), (Inner.get_eq_some h.keyed).1 hg, rfl⟩
      exact (Rows.length_put_of_mem hold).trans_le h.room
    | none => exact (Rows.length_put_le _ _ _).trans (hroom hg)
  · rcases Rows.mem_put.1 hb' with rfl | ⟨hold, -⟩
    · exact hb
    · exact h.levels b' hold

/-- The bucket that is charged is not overdrawn. -/
theorem bucketOf (h : Bounded rl inner) (key : String) (now : Nat) : 0 ≤ (rl.bucketOf inner key now).tokens := by
  unfold RateLimiter.bucketOf
  have hsweep := h.of_left (Left.sweep h.keyed now)
  cases hg : (inner.sweep now).get key with
  | none => exact rl.burst_nonneg
  | some b => exact (hsweep.levels _ ((Inner.get_eq_some hsweep.keyed).1 hg)).1

theorem next (h : Bounded rl inner) (call : String × Nat) : Bounded rl (rl.next inner call) := by
  unfold RateLimiter.next
  rcases rl.check_cases h.keyed call.1 call.2 with
    ⟨-, left, hleft, -, hcheck⟩ | ⟨-, left, hleft, -, hroom, hcheck⟩
  · rw [hcheck]
    exact h.of_left hleft
  · rw [hcheck]
    exact (h.of_left hleft).set (rl.charge_level call.2 (h.bucketOf call.1 call.2)) hroom

theorem after (rl : RateLimiter) (calls : List (String × Nat)) : Bounded rl (Runs.after rl.next .empty calls) :=
  Runs.invariant (fun _ call h => h.next call) (empty rl) calls

end Bounded

/-- The limiter holds at most the ceiling's number of buckets, each between empty and full. Only a call whose key has
    no bucket, or one that was idle and has been swept, is rejected at the ceiling, and such a call adds no bucket. -/
theorem limiter_bounded (rl : RateLimiter) (calls : List (String × Nat)) (key : String) (now : Nat) :
    (Runs.after rl.next .empty calls).buckets.length ≤ maxTracked ∧
      (∀ b ∈ (Runs.after rl.next .empty calls).buckets, 0 ≤ b.2.tokens ∧ b.2.tokens ≤ rl.burst) ∧
      ((Runs.after rl.next .empty calls).AtCeiling key now →
        (∀ b, (Runs.after rl.next .empty calls).get key = some b →
          idleEviction ≤ now - b.last ∧ sweepEvery ≤ (Runs.after rl.next .empty calls).sinceSweep + 1) ∧
        (rl.check (Runs.after rl.next .empty calls) key now).1 = .error { retryAfterSecs := 60 } ∧
        (rl.next (Runs.after rl.next .empty calls) (key, now)).buckets.Sublist
          (Runs.after rl.next .empty calls).buckets) ∧
      (¬ (Runs.after rl.next .empty calls).AtCeiling key now →
        (rl.check (Runs.after rl.next .empty calls) key now).1 =
          (rl.charge now (rl.bucketOf (Runs.after rl.next .empty calls) key now)).1 ∧
        (rl.next (Runs.after rl.next .empty calls) (key, now)).get key =
          some (rl.charge now (rl.bucketOf (Runs.after rl.next .empty calls) key now)).2) := by
  have hbounded := Bounded.after rl calls
  generalize Runs.after rl.next .empty calls = inner at hbounded ⊢
  refine ⟨hbounded.room, hbounded.levels, fun hat => ?_, fun hnot => ?_⟩
  · refine ⟨fun b hb => ?_, ?_⟩
    · have hswept := hat.1
      rw [Inner.get_sweep hbounded.keyed, hb] at hswept
      have hidle := Option.filter_eq_none_iff.1 hswept b rfl
      simp only [decide_eq_true_eq, not_or, not_lt] at hidle
      exact ⟨hidle.2, hidle.1⟩
    · unfold RateLimiter.next
      rcases rl.check_cases hbounded.keyed key now with ⟨-, left, hleft, -, hcheck⟩ | ⟨hnot, -⟩
      · rw [hcheck]
        exact ⟨rfl, hleft.sublist⟩
      · exact absurd hat hnot
  · unfold RateLimiter.next
    rcases rl.check_cases hbounded.keyed key now with ⟨hat, -⟩ | ⟨-, left, hleft, -, -, hcheck⟩
    · exact absurd hat hnot
    · rw [hcheck]
      refine ⟨rfl, ?_⟩
      rw [get_set hleft.keyed, if_pos rfl]

/-! ### What a rejected caller is told -/

namespace RateLimiter
variable (rl : RateLimiter)

theorem level_mono {now now' : Nat} (h : now ≤ now') (b : Bucket) : rl.level now b ≤ rl.level now' b :=
  refill_mono (mul_le_mul_of_nonneg_right (asSecs_mono (Nat.sub_le_sub_right h _)) rl.refill_nonneg)

/-- A bucket that was not tracked pays. -/
theorem one_le_level_fresh {inner : Inner} {key : String} {now : Nat} (h : (inner.sweep now).get key = none) :
    1 ≤ rl.level now (rl.bucketOf inner key now) := by
  have hfull : rl.level now { tokens := rl.burst, last := now } = rl.burst := refill_burst (rl.gain_nonneg _)
  simp only [bucketOf, h, Option.getD_none, hfull]
  exact rl.one_le_burst

/-- A charge that is rejected only books the refill so far. -/
theorem level_of_rejected {b : Bucket} {now due : Nat} (hlast : b.last ≤ now) (hdue : now ≤ due) :
    rl.level due { tokens := rl.level now b, last := now } = rl.level due b := by
  have htime : asSecs (due - b.last) = asSecs (now - b.last) + asSecs (due - now) := by
    rw [← asSecs_add]
    congr 1
    omega
  simp only [level, htime]
  exact refill_refill (rl.gain_nonneg _)

/-- A rejected charge: the wait that it names is long enough for a whole token. -/
theorem charge_rejected {now r : Nat} {b : Bucket} (h : (rl.charge now b).1 = .error { retryAfterSecs := r }) :
    (rl.charge now b).2 = { tokens := rl.level now b, last := now } ∧ 1 ≤ r ∧
      1 ≤ rl.level (now + r * 1000000000) { tokens := rl.level now b, last := now } := by
  by_cases hlevel : 1 ≤ rl.level now b
  · have hcharge : rl.charge now b = (.ok (), { tokens := rl.level now b - 1, last := now }) := if_pos hlevel
    rw [hcharge] at h
    cases h
  · have hcharge : rl.charge now b =
        (.error { retryAfterSecs := (max ⌈(1 - rl.level now b) / rl.refillPerSec⌉ 1).toNat },
          { tokens := rl.level now b, last := now }) := if_neg hlevel
    rw [hcharge] at h ⊢
    have hr : (max ⌈(1 - rl.level now b) / rl.refillPerSec⌉ 1).toNat = r := by
      injection h with h
      injection h
    refine ⟨rfl, by omega, le_min ?_ rl.one_le_burst⟩
    have hceil : ⌈(1 - rl.level now b) / rl.refillPerSec⌉ ≤ (r : Int) := by omega
    have hdeficit : (1 - rl.level now b) / rl.refillPerSec ≤ (r : ℚ) := by
      exact_mod_cast Int.ceil_le.1 hceil
    have hgain : 1 - rl.level now b ≤ r * rl.refillPerSec := (div_le_iff₀ rl.rate_pos).1 hdeficit
    have htime : asSecs (now + r * 1000000000 - now) = r := by
      rw [Nat.add_sub_cancel_left]
      unfold asSecs
      push_cast
      exact mul_div_cancel_right₀ _ (by norm_num)
    simp only [htime]
    linarith

/-- The call is of another key, or it is rejected. -/
def Spares (key : String) (inner : Inner) (call : String × Nat) : Prop :=
  call.1 = key → (rl.check inner call.1 call.2).1.isOk = false

instance (key : String) (inner : Inner) (call : String × Nat) : Decidable (rl.Spares key inner call) :=
  inferInstanceAs (Decidable (_ → _))

end RateLimiter

/-- The bucket of the key, if it is tracked, holds a token by `due`. -/
def Due (rl : RateLimiter) (key : String) (due : Nat) (inner : Inner) (clock : Nat) : Prop :=
  ∀ b, inner.get key = some b → b.last ≤ clock ∧ 1 ≤ rl.level due b

namespace Due
variable {rl : RateLimiter} {key : String} {due clock : Nat} {inner : Inner}

theorem of_left {left : Inner} (h : Due rl key due inner clock) (hkeyed : Rows.Keyed (·.1) inner.buckets)
    (hleft : Left inner left) : Due rl key due left clock :=
  fun b hb => h b (hleft.get hkeyed hb)

/-- A rejected call of the key does not put it off, and nor does a call of another key. -/
theorem next (h : Due rl key due inner clock) (hkeyed : Rows.Keyed (·.1) inner.buckets) {call : String × Nat}
    (hclock : clock ≤ call.2) (hspares : rl.Spares key inner call) :
    Due rl key due (rl.next inner call) call.2 := by
  have later : ∀ {left}, Left inner left → Due rl key due left call.2 := fun hleft b hb =>
    let ⟨hlast, hlevel⟩ := h.of_left hkeyed hleft b hb
    ⟨hlast.trans hclock, hlevel⟩
  unfold RateLimiter.next
  rcases rl.check_cases hkeyed call.1 call.2 with ⟨-, left, hleft, -, hcheck⟩ | ⟨-, left, hleft, hget, -, hcheck⟩
  · rw [hcheck]
    exact later hleft
  · rw [hcheck]
    intro b hb
    rw [get_set hleft.keyed] at hb
    split at hb
    · next hkey =>
      obtain rfl := Option.some.inj hb
      have hrejected := hspares hkey
      obtain ⟨hok, hbucket⟩ := rl.charge_eq call.2 (rl.bucketOf inner call.1 call.2)
      rw [hcheck, hok] at hrejected
      have hlevel : ¬ 1 ≤ rl.level call.2 (rl.bucketOf inner call.1 call.2) := of_decide_eq_false hrejected
      rw [hbucket, drain, if_neg hlevel]
      refine ⟨le_rfl, ?_⟩
      cases hg : (inner.sweep call.2).get call.1 with
      | none =>
        -- A fresh bucket would have admitted the call.
        exact absurd (rl.one_le_level_fresh hg) hlevel
      | some old =>
        have hold : rl.bucketOf inner call.1 call.2 = old := by simp only [RateLimiter.bucketOf, hg, Option.getD_some]
        have hleftOld : left.get key = some old := by rw [← hkey, hget, hg]
        obtain ⟨hlast, hdue⟩ := later hleft old hleftOld
        rw [hold] at hlevel ⊢
        have hsoon : call.2 ≤ due := le_of_not_ge fun hpast => hlevel (hdue.trans (rl.level_mono hpast old))
        rw [rl.level_of_rejected hlast hsoon]
        exact hdue
    · exact later hleft b hb

theorem after {between : List (String × Nat)} (h : Due rl key due inner clock) (hbounded : Bounded rl inner)
    (hspares : Runs.Along rl.next (rl.Spares key) inner between)
    (htimes : (clock :: between.map (·.2)).Pairwise (· ≤ ·)) :
    ∃ last, Due rl key due (Runs.after rl.next inner between) last := by
  induction between generalizing inner clock with
  | nil => exact ⟨clock, h⟩
  | cons call between ih =>
    obtain ⟨hfirst, hrest⟩ := List.pairwise_cons.1 htimes
    have hnext := h.next hbounded.keyed (hfirst call.2 List.mem_cons_self) hspares.1
    exact ih hnext (hbounded.next call) hspares.2 hrest

end Due

/-- With a bucket of its key, or below the ceiling, a call is not rejected at the ceiling. -/
theorem Bounded.not_atCeiling {rl : RateLimiter} {inner : Inner} (h : Bounded rl inner) {key : String} (now : Nat)
    (hroom : (inner.get key).isSome ∨ inner.buckets.length < maxTracked) : ¬ inner.AtCeiling key now := by
  rintro ⟨hnone, hfull⟩
  have hswept : maxTracked ≤ (inner.sweep now).buckets.length := hfull.trans List.filter_sublist.length_le
  have hsub := inner.sweep_sublist now
  rcases hroom with hsome | hless
  · -- Nothing can have been swept, for the map was no larger than the ceiling.
    have hsame : (inner.sweep now).buckets = inner.buckets :=
      hsub.eq_of_length (le_antisymm hsub.length_le (h.room.trans hswept))
    obtain ⟨b, hb⟩ := Option.isSome_iff_exists.1 hsome
    have hmem := (Inner.get_eq_some h.keyed).1 hb
    rw [← hsame] at hmem
    have hget := (Inner.get_eq_some (Left.sweep h.keyed now).keyed).2 hmem
    simp [hnone] at hget
  · have := hsub.length_le
    omega

/-- A call that its bucket cannot pay is told a wait of at least a second, and a call of the key after that wait
    succeeds: rejected calls of the key and the calls of others do not put it off. -/
theorem retry_after_honest (rl : RateLimiter) (before between : List (String × Nat)) (key : String) (now r later : Nat)
    (hceiling : ¬ (Runs.after rl.next .empty before).AtCeiling key now)
    (hrejected : (rl.check (Runs.after rl.next .empty before) key now).1 = .error { retryAfterSecs := r })
    (hspares : Runs.Along rl.next (rl.Spares key) (Runs.after rl.next .empty (before ++ [(key, now)])) between)
    (htimes : (now :: (between.map (·.2) ++ [later])).Pairwise (· ≤ ·)) (hlater : now + r * 1000000000 ≤ later)
    (hroom : ((Runs.after rl.next .empty (before ++ (key, now) :: between)).get key).isSome ∨
      (Runs.after rl.next .empty (before ++ (key, now) :: between)).buckets.length < maxTracked) :
    1 ≤ r ∧ (rl.check (Runs.after rl.next .empty (before ++ (key, now) :: between)) key later).1 = .ok () := by
  have hfinal := Bounded.after rl (before ++ (key, now) :: between)
  have hbefore := Bounded.after rl before
  rw [Runs.after_append] at hspares
  rw [Runs.after_append, Runs.after_cons] at hfinal hroom ⊢
  generalize Runs.after rl.next .empty before = inner at hceiling hrejected hspares hfinal hbefore hroom ⊢
  have htimes' : (now :: between.map (·.2)).Pairwise (· ≤ ·) := by
    rw [← List.cons_append] at htimes
    exact (List.pairwise_append.1 htimes).1
  -- The rejected call books the refill, and the token is due when the wait is over.
  obtain ⟨hwait, hdue⟩ : 1 ≤ r ∧ Due rl key (now + r * 1000000000) (rl.next inner (key, now)) now := by
    unfold RateLimiter.next
    rcases rl.check_cases hbefore.keyed key now with ⟨hat, -⟩ | ⟨-, left, hleft, -, -, hcheck⟩
    · exact absurd hat hceiling
    · rw [hcheck] at hrejected ⊢
      obtain ⟨hbucket, hwait, hlevel⟩ := rl.charge_rejected hrejected
      refine ⟨hwait, fun b hb => ?_⟩
      rw [get_set hleft.keyed, if_pos rfl] at hb
      obtain rfl := Option.some.inj hb
      rw [hbucket]
      exact ⟨le_rfl, hlevel⟩
  refine ⟨hwait, ?_⟩
  obtain ⟨_, hlast⟩ := hdue.after (hbefore.next (key, now)) hspares htimes'
  generalize Runs.after rl.next (rl.next inner (key, now)) between = last at hfinal hroom hlast ⊢
  rcases rl.check_cases hfinal.keyed key later with ⟨hat, -⟩ | ⟨-, left, hleft, hget, -, hcheck⟩
  · exact absurd hat (hfinal.not_atCeiling later hroom)
  · rw [hcheck]
    have hlevel : 1 ≤ rl.level later (rl.bucketOf last key later) := by
      cases hg : (last.sweep later).get key with
      | none => exact rl.one_le_level_fresh hg
      | some b =>
        simp only [RateLimiter.bucketOf, hg, Option.getD_some]
        have htracked := hleft.get hfinal.keyed (hget.trans hg)
        exact (hlast b htracked).2.trans (rl.level_mono hlater b)
    have hcharge : rl.charge later (rl.bucketOf last key later) =
        (.ok (), { tokens := rl.level later (rl.bucketOf last key later) - 1, last := later }) := if_pos hlevel
    rw [hcharge]

/-- The burst of ten is spent, the eleventh call is told to wait a second, and polls half a second later. -/
theorem retry_after_honest_perSecond :
    1 ≤ 1 ∧ (Gate.perSecond.check (Runs.after Gate.perSecond.next .empty
      (List.replicate 10 ("k", 0) ++ ("k", 0) :: [("k", 500000000), ("j", 500000000)])) "k" 1000000000).1 = .ok () :=
  retry_after_honest Gate.perSecond (List.replicate 10 ("k", 0)) [("k", 500000000), ("j", 500000000)] "k" 0 1 1000000000
    (by decide +kernel) (by decide +kernel) (by decide +kernel) (by decide) (by decide) (by decide +kernel)

end CrewSync.RateLimit
