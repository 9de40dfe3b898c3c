import CrewSync.Lib.Runs
import CrewSync.Lib.TokenBucket
import CrewSync.RateLimit

/-! The limiter is a plain token bucket for each caller: what it forgets is full by the time it forgets it. The
    rate then bounds what a caller is admitted, as long as the calls enter in the order of their timestamps. -/

namespace CrewSync.RateLimit
open TokenBucket

/-! ### Time -/

theorem asSecs_nonneg (d : Nat) : 0 ≤ asSecs d := by unfold asSecs; positivity

theorem asSecs_add (a b : Nat) : asSecs (a + b) = asSecs a + asSecs b := by
  unfold asSecs
  push_cast
  ring

theorem asSecs_mono {a b : Nat} (h : a ≤ b) : asSecs a ≤ asSecs b := by
  obtain ⟨c, rfl⟩ := Nat.exists_eq_add_of_le h
  rw [asSecs_add]
  exact le_add_of_nonneg_right (asSecs_nonneg c)

namespace RateLimiter
variable (rl : RateLimiter)

theorem burst_nonneg : 0 ≤ rl.burst := zero_le_one.trans rl.one_le_burst

theorem gain_nonneg (d : Nat) : 0 ≤ asSecs d * rl.refillPerSec := mul_nonneg (asSecs_nonneg d) rl.refill_nonneg

theorem gain_idle {d : Nat} (h : idleEviction ≤ d) : rl.burst ≤ asSecs d * rl.refillPerSec :=
  rl.idle_fills.trans (mul_le_mul_of_nonneg_right (asSecs_mono h) rl.refill_nonneg)

/-- The level that a request finds. -/
def level (now : Nat) (b : Bucket) : ℚ := refill rl.refillPerSec rl.burst b.tokens (asSecs (now - b.last))

/-- A charge refills the bucket and drains it by the request. -/
theorem charge_eq (now : Nat) (b : Bucket) :
    (rl.charge now b).1.isOk = decide (1 ≤ rl.level now b) ∧
      (rl.charge now b).2 = { tokens := drain (rl.level now b), last := now } := by
  by_cases h : 1 ≤ rl.level now b
  · have hcharge : rl.charge now b = (.ok (), { tokens := rl.level now b - 1, last := now }) := if_pos h
    rw [hcharge, drain, if_pos h]
    exact ⟨(decide_eq_true h).symm, rfl⟩
  · have hcharge : rl.charge now b = (.error _, { tokens := rl.level now b, last := now }) := if_neg h
    rw [hcharge, drain, if_neg h]
    exact ⟨(decide_eq_false h).symm, rfl⟩

end RateLimiter

/-- What `new` makes of the requests per minute. -/
theorem new_eq {perMinute : Nat} {rl : RateLimiter} (h : RateLimiter.new perMinute = some rl) :
    rl.refillPerSec = (perMinute : ℚ) / 60 ∧ rl.burst = max ((perMinute : ℚ) / 10) 10 := by
  unfold RateLimiter.new at h
  split at h
  · cases h
  · obtain rfl := Option.some.inj h
    exact ⟨rfl, rfl⟩

/-! ### One bucket for each key, for ever -/

/-- The buckets of the callers so far; the others are full. -/
abbrev Reference := String → Option Bucket

namespace Reference
variable (rate burst : ℚ)

/-- The level that a request finds: the bucket was refilled for the time since the last request. -/
def level (ref : Reference) (key : String) (now : Nat) : ℚ :=
  match ref key with
  | none => burst
  | some b => refill rate burst b.tokens (asSecs (now - b.last))

def next (ref : Reference) (key : String) (now : Nat) : Reference :=
  Function.update ref key (some { tokens := drain (ref.level rate burst key now), last := now })

/-- Which of the calls the reference admits. -/
def decisions : Reference → List (String × Nat) → List Bool
  | _, [] => []
  | ref, (key, now) :: calls =>
    decide (1 ≤ ref.level rate burst key now) :: decisions (ref.next rate burst key now) calls

end Reference

namespace RateLimiter
variable (rl : RateLimiter)

/-- The map after a call. -/
def next (inner : Inner) (call : String × Nat) : Inner := (rl.check inner call.1 call.2).2

/-- Which of the calls the limiter admits. -/
def decisions : Inner → List (String × Nat) → List Bool
  | _, [] => []
  | inner, call :: calls => (rl.check inner call.1 call.2).1.isOk :: decisions (rl.next inner call) calls

end RateLimiter

/-! ### The map and the reference -/

/-- What is tracked is as in the reference, and what is not is full in the reference. -/
structure Tracks (inner : Inner) (ref : Reference) (now : Nat) : Prop where
  keyed : Rows.Keyed (·.1) inner.buckets
  tracked : ∀ key b, inner.get key = some b → ref key = some b
  dropped : ∀ key, inner.get key = none → ∀ b ∈ ref key, idleEviction ≤ now - b.last
  levels : ∀ key, ∀ b ∈ ref key, 0 ≤ b.tokens ∧ b.last ≤ now

theorem get_retain {buckets : List (String × Bucket)} (h : Rows.Keyed (·.1) buckets) (now : Nat) (n : Nat)
    (key : String) :
    ({ buckets := retain now buckets, sinceSweep := n } : Inner).get key =
      (({ buckets, sinceSweep := n } : Inner).get key).filter fun b => decide (now - b.last < idleEviction) := by
  have hretain : retain now buckets = Rows.delete (fun b => !decide (now - b.2.last < idleEviction)) buckets := by
    simp [retain, Rows.delete]
  simp only [Inner.get, hretain]
  rw [h.find?_delete (k := key) (by simp)]
  cases buckets.find? (·.1 == key) with
  | none => rfl
  | some b => by_cases hb : now - b.2.last < idleEviction <;> simp [Option.filter, hb]

namespace Tracks
variable {inner : Inner} {ref : Reference} {now : Nat}

theorem empty (now : Nat) : Tracks .empty (fun _ => none) now :=
  ⟨.nil, by simp [Inner.empty, Inner.get], by simp, by simp⟩

theorem later (h : Tracks inner ref now) {now' : Nat} (hle : now ≤ now') : Tracks inner ref now' :=
  ⟨h.keyed, h.tracked, fun key hk b hb => (h.dropped key hk b hb).trans (Nat.sub_le_sub_right hle _),
    fun key b hb => ⟨(h.levels key b hb).1, (h.levels key b hb).2.trans hle⟩⟩

/-- A sweep drops only buckets that are full. -/
theorem retained (h : Tracks inner ref now) (n : Nat) :
    Tracks { buckets := retain now inner.buckets, sinceSweep := n } ref now := by
  refine ⟨h.keyed.filter _, fun key b hb => ?_, fun key hb b hr => ?_, h.levels⟩
  · rw [get_retain h.keyed] at hb
    exact h.tracked key b (Option.filter_eq_some_iff.1 hb).1
  · rw [get_retain h.keyed] at hb
    cases hg : ({ buckets := inner.buckets, sinceSweep := n } : Inner).get key with
    | none => exact h.dropped key hg b hr
    | some b' =>
      obtain rfl := Option.some.inj ((h.tracked key b' hg).symm.trans hr)
      rw [hg] at hb
      simpa [Option.filter] using hb

theorem sweep (h : Tracks inner ref now) : Tracks (inner.sweep now) ref now := by
  simp only [Inner.sweep]
  split
  · exact h.retained 0
  · exact ⟨h.keyed, h.tracked, h.dropped, h.levels⟩

end Tracks

theorem get_set {inner : Inner} (h : Rows.Keyed (·.1) inner.buckets) (key key' : String) (b : Bucket) :
    (inner.set key b).get key' = if key = key' then some b else inner.get key' := by
  simp only [Inner.get, Inner.set]
  rw [h.find?_put (k := key') (by simp)]
  split <;> rfl

theorem length_sweep (now : Nat) (inner : Inner) : (inner.sweep now).buckets.length ≤ inner.buckets.length := by
  simp only [Inner.sweep]
  split
  · exact List.length_filter_le _ _
  · exact le_rfl

theorem Tracks.set {inner : Inner} {ref : Reference} {now : Nat} (h : Tracks inner ref now) (key : String)
    {tokens : ℚ} (htokens : 0 ≤ tokens) :
    Tracks (inner.set key { tokens, last := now }) (Function.update ref key (some { tokens, last := now })) now := by
  refine ⟨h.keyed.put _, fun key' b hb => ?_, fun key' hb b hr => ?_, fun key' b hr => ?_⟩
  · rw [get_set h.keyed] at hb
    by_cases hk : key = key'
    · subst hk
      simpa using hb
    · rw [Function.update_of_ne (Ne.symm hk)]
      exact h.tracked key' b (by simpa [hk] using hb)
  · rw [get_set h.keyed] at hb
    by_cases hk : key = key'
    · simp [hk] at hb
    · rw [Function.update_of_ne (Ne.symm hk)] at hr
      exact h.dropped key' (by simpa [hk] using hb) b hr
  · by_cases hk : key = key'
    · subst hk
      rw [Function.update_self] at hr
      obtain rfl := Option.some.inj hr
      exact ⟨htokens, le_rfl⟩
    · rw [Function.update_of_ne (Ne.symm hk)] at hr
      exact h.levels key' b hr

theorem Reference.level_nonneg {inner : Inner} {ref : Reference} {now : Nat} (h : Tracks inner ref now)
    (rl : RateLimiter) (key : String) : 0 ≤ ref.level rl.refillPerSec rl.burst key now := by
  unfold Reference.level
  cases hr : ref key with
  | none => exact rl.burst_nonneg
  | some b => exact refill_nonneg rl.burst_nonneg (h.levels key b hr).1 (rl.gain_nonneg _)

/-- One call: the same decision, and the map still tracks the reference. -/
theorem Tracks.check {inner : Inner} {ref : Reference} {now : Nat} (h : Tracks inner ref now) (rl : RateLimiter)
    (key : String) (hcap : inner.buckets.length < maxTracked) :
    (rl.check inner key now).1.isOk = decide (1 ≤ ref.level rl.refillPerSec rl.burst key now) ∧
      Tracks (rl.check inner key now).2 (ref.next rl.refillPerSec rl.burst key now) now := by
  have hs := h.sweep
  have hlen : ¬ (inner.sweep now).buckets.length ≥ maxTracked := not_le.2 ((length_sweep now inner).trans_lt hcap)
  have hnonneg := drain_nonneg (Reference.level_nonneg h rl key)
  -- The charge of the bucket at hand is the request at the reference.
  have charged : ∀ b : Bucket, rl.level now b = ref.level rl.refillPerSec rl.burst key now →
      (rl.charge now b).1.isOk = decide (1 ≤ ref.level rl.refillPerSec rl.burst key now) ∧
        Tracks ((inner.sweep now).set key (rl.charge now b).2) (ref.next rl.refillPerSec rl.burst key now) now := by
    intro b hb
    obtain ⟨hok, hbucket⟩ := rl.charge_eq now b
    rw [hok, hbucket, hb]
    exact ⟨rfl, hs.set key hnonneg⟩
  cases hg : (inner.sweep now).get key with
  | some b =>
    have hlevel : rl.level now b = ref.level rl.refillPerSec rl.burst key now := by
      simp only [Reference.level, hs.tracked key b hg]
      rfl
    simpa only [RateLimiter.check, hg] using charged b hlevel
  | none =>
    have hfull : rl.level now { tokens := rl.burst, last := now } = ref.level rl.refillPerSec rl.burst key now := by
      rw [RateLimiter.level, refill_burst (rl.gain_nonneg _)]
      unfold Reference.level
      cases hr : ref key with
      | none => rfl
      | some b => exact (refill_full (h.levels key b hr).1 (rl.gain_idle (hs.dropped key hg b hr))).symm
    simpa only [RateLimiter.check, hg, hlen, if_false] using charged _ hfull

theorem decisions_tracks (rl : RateLimiter) {inner : Inner} {ref : Reference} {now : Nat}
    (h : Tracks inner ref now) (calls : List (String × Nat)) (hsorted : calls.Pairwise (·.2 ≤ ·.2))
    (hfirst : ∀ c ∈ calls, now ≤ c.2)
    (hcap : Runs.Along rl.next (fun inner _ => inner.buckets.length < maxTracked) inner calls) :
    rl.decisions inner calls = ref.decisions rl.refillPerSec rl.burst calls := by
  induction calls generalizing inner ref now with
  | nil => rfl
  | cons c calls ih =>
    obtain ⟨key, now'⟩ := c
    obtain ⟨hok, hnext⟩ := (h.later (hfirst _ List.mem_cons_self)).check rl key hcap.1
    rw [List.pairwise_cons] at hsorted
    have hrest := ih hnext hsorted.2 hsorted.1 hcap.2
    rw [RateLimiter.decisions, Reference.decisions, hok]
    exact congrArg _ hrest

/-- With timestamps that never go back and a map below its ceiling, the limiter decides as one bucket for each key,
    kept for ever, does. -/
theorem decisions_eq (perMinute : Nat) (rl : RateLimiter) (hnew : RateLimiter.new perMinute = some rl)
    (calls : List (String × Nat)) (hsorted : calls.Pairwise (·.2 ≤ ·.2))
    (hcap : Runs.Along rl.next (fun inner _ => inner.buckets.length < maxTracked) .empty calls) :
    rl.decisions .empty calls =
      Reference.decisions ((perMinute : ℚ) / 60) (max ((perMinute : ℚ) / 10) 10) (fun _ => none) calls := by
  obtain ⟨hrate, hburst⟩ := new_eq hnew
  rw [← hrate, ← hburst]
  exact decisions_tracks rl (.empty 0) calls hsorted (fun _ _ => Nat.zero_le _) hcap

theorem length_set_le (inner : Inner) (key : String) (b : Bucket) :
    (inner.set key b).buckets.length ≤ inner.buckets.length + 1 :=
  Rows.length_put_le _ _ _

theorem length_check_le (rl : RateLimiter) (inner : Inner) (key : String) (now : Nat) :
    (rl.check inner key now).2.buckets.length ≤ inner.buckets.length + 1 := by
  have hsweep := length_sweep now inner
  simp only [RateLimiter.check]
  cases hg : (inner.sweep now).get key with
  | some b => exact (length_set_le _ _ _).trans (Nat.succ_le_succ hsweep)
  | none =>
    dsimp only
    generalize hleft : (if (inner.sweep now).buckets.length ≥ maxTracked then
      { buckets := retain now (inner.sweep now).buckets, sinceSweep := (inner.sweep now).sinceSweep }
        else inner.sweep now) = left
    have hle : left.buckets.length ≤ inner.buckets.length := by
      rw [← hleft]
      split
      · exact (List.length_filter_le _ _).trans hsweep
      · exact hsweep
    split
    · exact Nat.le_succ_of_le hle
    · exact (length_set_le _ _ _).trans (Nat.succ_le_succ hle)

/-- Too few calls to fill the map. -/
theorem along_of_few (rl : RateLimiter) {inner : Inner} {calls : List (String × Nat)}
    (h : inner.buckets.length + calls.length ≤ maxTracked) :
    Runs.Along rl.next (fun inner _ => inner.buckets.length < maxTracked) inner calls := by
  induction calls generalizing inner with
  | nil => trivial
  | cons call calls ih =>
    rw [List.length_cons] at h
    have hnext : (rl.next inner call).buckets.length ≤ inner.buckets.length + 1 :=
      length_check_le rl inner call.1 call.2
    exact ⟨by omega, ih (by omega)⟩

/-- One request a minute. -/
def slow : RateLimiter := (RateLimiter.new 1).get rfl

/-- The burst of a caller is spent. -/
def spent (n : Nat) : Inner := { buckets := [("k", { tokens := 0, last := 0 })], sinceSweep := n }

theorem after_spent {n m : Nat} (h : n + m < sweepEvery) :
    Runs.after slow.next (spent n) (List.replicate m ("k", 0)) = spent (n + m) := by
  induction m generalizing n with
  | zero => rfl
  | succ m ih =>
    have hsweep : ¬ n + 1 ≥ sweepEvery := by omega
    have hcharge : (slow.charge 0 { tokens := 0, last := 0 }).2 = { tokens := 0, last := 0 } := by decide +kernel
    have hnext : slow.next (spent n) ("k", 0) = spent (n + 1) := by
      simp only [RateLimiter.next, RateLimiter.check, Inner.sweep, spent, hsweep, if_false, Inner.get, List.find?_cons,
        beq_self_eq_true, Option.map_some, hcharge]
      rfl
    rw [List.replicate_succ, Runs.after_cons, hnext, ih (by omega), Nat.add_right_comm n 1 m]
    rfl

/-- Calls that spend the burst, and go on. -/
def spending : List (String × Nat) := List.replicate 10 ("k", 0) ++ List.replicate 501 ("k", 0)

/-- The idle bucket is swept ten minutes later. -/
theorem spending_swept : ((Runs.after slow.next .empty spending).sweep 600000000000).buckets = [] := by
  have hten : Runs.after slow.next .empty (List.replicate 10 ("k", 0)) = spent 10 := by decide +kernel
  rw [spending, Runs.after_append, hten, after_spent (by decide)]
  decide

theorem decisions_eq_slow :
    ((Runs.after slow.next .empty spending).sweep 600000000000).buckets = [] ∧
      slow.decisions .empty (spending ++ [("k", 600000000000)]) =
        Reference.decisions (1 / 60) (max (1 / 10) 10) (fun _ => none) (spending ++ [("k", 600000000000)]) := by
  have hfirst : ∀ c ∈ spending, c.2 = 0 := by
    intro c hc
    rcases List.mem_append.1 hc with hc | hc <;> rw [List.eq_of_mem_replicate hc]
  have hsorted : (spending ++ [("k", 600000000000)]).Pairwise fun c d : String × Nat => c.2 ≤ d.2 := by
    refine List.pairwise_append.2 ⟨?_, List.pairwise_singleton _ _, fun c hc _ _ => (hfirst c hc).trans_le (Nat.zero_le _)⟩
    exact List.pairwise_of_forall_mem_list fun c hc d _ => (hfirst c hc).trans_le (Nat.zero_le _)
  have hlength : (spending ++ [("k", 600000000000)]).length = 512 := by
    rw [List.length_append, spending, List.length_append, List.length_replicate, List.length_replicate,
      List.length_singleton]
  have h := decisions_eq 1 slow rfl _ hsorted (along_of_few slow (by rw [hlength]; decide))
  rw [Nat.cast_one] at h
  exact ⟨spending_swept, h⟩

/-! ### The rate bounds what is admitted -/

/-- A map with the bucket of one key, or none yet. -/
def alone (key : String) (m : Option Bucket) (n : Nat) : Inner :=
  { buckets := (m.map fun b => (key, b)).toList, sinceSweep := n }

namespace RateLimiter
variable (rl : RateLimiter)

/-- The level that a request finds, also that of a caller without a bucket. -/
def found (now : Nat) (m : Option Bucket) : ℚ := (m.map (rl.level now)).getD rl.burst

theorem found_le (now : Nat) (m : Option Bucket) : rl.found now m ≤ rl.burst := by
  cases m with
  | none => exact le_rfl
  | some b => exact refill_le_burst

theorem found_nonneg (now : Nat) {m : Option Bucket} (hm : ∀ b ∈ m, 0 ≤ b.tokens) : 0 ≤ rl.found now m := by
  cases m with
  | none => exact rl.burst_nonneg
  | some b => exact TokenBucket.refill_nonneg rl.burst_nonneg (hm b rfl) (rl.gain_nonneg _)

/-- A sweep keeps the bucket, or the bucket is full. -/
theorem sweep_alone (key : String) {m : Option Bucket} (hm : ∀ b ∈ m, 0 ≤ b.tokens) (n : Nat) (now : Nat) :
    ∃ m' n', (alone key m n).sweep now = alone key m' n' ∧ (m' = m ∨ m' = none ∧ rl.found now m = rl.burst) := by
  simp only [Inner.sweep]
  split
  · cases m with
    | none => exact ⟨none, 0, rfl, .inl rfl⟩
    | some b =>
      by_cases hidle : now - b.last < idleEviction
      · exact ⟨some b, 0, by simp [alone, retain, hidle], .inl rfl⟩
      · refine ⟨none, 0, by simp [alone, retain, hidle], .inr ⟨rfl, ?_⟩⟩
        exact refill_full (hm b rfl) (rl.gain_idle (not_lt.1 hidle))
  · exact ⟨m, _, rfl, .inl rfl⟩

/-- A call of the only caller. -/
theorem check_alone (key : String) {m : Option Bucket} (hm : ∀ b ∈ m, 0 ≤ b.tokens) (n : Nat) (now : Nat) :
    (rl.check (alone key m n) key now).1.isOk = decide (1 ≤ rl.found now m) ∧
      ∃ n', (rl.check (alone key m n) key now).2 = alone key (some { tokens := drain (rl.found now m), last := now }) n' := by
  obtain ⟨m', n', hsweep, hm'⟩ := rl.sweep_alone key hm n now
  have hfound : rl.found now m' = rl.found now m := by
    rcases hm' with rfl | ⟨rfl, hfull⟩
    · rfl
    · exact hfull.symm
  rw [← hfound]
  cases m' with
  | none =>
    have hget : (alone key none n').get key = none := rfl
    have hcap : ¬ (alone key none n').buckets.length ≥ maxTracked := by simp [alone, maxTracked]
    have hfull : rl.level now { tokens := rl.burst, last := now } = rl.burst := refill_burst (rl.gain_nonneg _)
    obtain ⟨hok, hbucket⟩ := rl.charge_eq now { tokens := rl.burst, last := now }
    simp only [check, hsweep, hget, hcap, if_false, hok, hbucket, hfull]
    exact ⟨rfl, n', rfl⟩
  | some b =>
    have hget : (alone key (some b) n').get key = some b := by simp [alone, Inner.get]
    obtain ⟨hok, hbucket⟩ := rl.charge_eq now b
    simp only [check, hsweep, hget, hok, hbucket]
    exact ⟨rfl, n', by simp [alone, Inner.set, Rows.put, Rows.update]; rfl⟩

end RateLimiter

namespace Gate
variable {rl : RateLimiter} {key : String} {a : Nat} {s : Gate} {m : Option Bucket}

/-- How many of the calls admitted have their timestamps in the interval. -/
def countIn (s : Gate) (a b : Nat) : Nat := s.admitted.countP fun t => decide (a ≤ t ∧ t ≤ b)

/-- The call that enters has read the clock no earlier than the call before it. -/
def Step.ordered (key : String) (s : Gate) : Step → Bool
  | .enter i => s.waiting[i]?.all fun now => (s.inner.get key).all fun b => decide (b.last ≤ now)
  | _ => true

/-- The bucket `m` holds what is left of the burst and of what the rate allows since `a`. -/
structure Paced (rl : RateLimiter) (key : String) (a : Nat) (s : Gate) (m : Option Bucket) : Prop where
  inner : ∃ n, s.inner = alone key m n
  nonneg : ∀ b ∈ m, 0 ≤ b.tokens
  below : ∀ t ∈ s.admitted, ∃ b ∈ m, t ≤ b.last
  budget : ∀ b ∈ m, a ≤ b.last →
    Budget rl.refillPerSec rl.burst (s.countIn a b.last) b.tokens (asSecs (b.last - a))
  bound : ∀ c, a ≤ c → (s.countIn a c : ℚ) ≤ rl.burst + asSecs (c - a) * rl.refillPerSec

/-- From the latest call on the count does not grow. -/
theorem countIn_eq {last c : Nat} (h : ∀ t ∈ s.admitted, t ≤ last) (hc : last ≤ c) :
    s.countIn a c = s.countIn a last := by
  refine List.countP_congr fun t ht => ?_
  have := h t ht
  simp only [decide_eq_true_eq]
  omega

/-- What a call adds to the count. -/
theorem countIn_cons {now c : Nat} {s' : Gate} {level : ℚ}
    (h : s'.admitted = if 1 ≤ level then now :: s.admitted else s.admitted) :
    s'.countIn a c = s.countIn a c + if a ≤ now ∧ now ≤ c then taken level else 0 := by
  unfold countIn taken
  rw [h]
  split <;> simp [List.countP_cons]

/-- What the bucket holds after a call. -/
theorem Paced.charged (h : Paced rl key a s m) {now : Nat} (hlast : ∀ b ∈ m, b.last ≤ now) (ha : a ≤ now) :
    Budget rl.refillPerSec rl.burst (s.countIn a now + taken (rl.found now m)) (drain (rl.found now m))
      (asSecs (now - a)) := by
  by_cases hm : ∃ b ∈ m, a ≤ b.last
  · obtain ⟨b, hb, hab⟩ := hm
    obtain rfl := Option.mem_def.1 hb
    have hle := hlast b rfl
    have hcount : s.countIn a now = s.countIn a b.last := by
      refine countIn_eq (fun t ht => ?_) hle
      obtain ⟨b', hb', ht⟩ := h.below t ht
      obtain rfl := Option.some.inj hb'
      exact ht
    have htime : asSecs (now - a) = asSecs (b.last - a) + asSecs (now - b.last) := by
      rw [← asSecs_add]
      congr 1
      omega
    rw [hcount, htime]
    exact (h.budget b rfl hab).request rl.burst_nonneg (rl.gain_nonneg _)
  · -- No call so far is in the interval: what the bucket held before does not matter.
    have hzero : s.countIn a now = 0 := by
      refine List.countP_eq_zero.2 fun t ht => ?_
      obtain ⟨b, hb, hle⟩ := h.below t ht
      have : ¬ a ≤ b.last := fun hab => hm ⟨b, hb, hab⟩
      simp only [decide_eq_true_eq]
      omega
    refine ⟨drain_nonneg (rl.found_nonneg now h.nonneg), ?_⟩
    have hsum := taken_add_drain (rl.found now m)
    have hburst := rl.found_le now m
    have hgain := rl.gain_nonneg (now - a)
    rw [hzero]
    push_cast
    linarith

theorem Paced.enter (h : Paced rl key a s m) {now : Nat} (hlast : ∀ b ∈ m, b.last ≤ now) {s' : Gate}
    (hinner : ∃ n, s'.inner = alone key (some { tokens := drain (rl.found now m), last := now }) n)
    (hadmitted : s'.admitted = if 1 ≤ rl.found now m then now :: s.admitted else s.admitted) :
    Paced rl key a s' (some { tokens := drain (rl.found now m), last := now }) := by
  have hbelow : ∀ t ∈ s'.admitted, t ≤ now := by
    intro t ht
    have hold : ∀ t ∈ s.admitted, t ≤ now := fun t ht =>
      let ⟨b, hb, hle⟩ := h.below t ht
      hle.trans (hlast b hb)
    rw [hadmitted] at ht
    split at ht
    · rcases List.mem_cons.1 ht with rfl | ht
      · exact le_rfl
      · exact hold t ht
    · exact hold t ht
  have hbudget : a ≤ now →
      Budget rl.refillPerSec rl.burst (s'.countIn a now) (drain (rl.found now m)) (asSecs (now - a)) := by
    intro ha
    rw [countIn_cons hadmitted, if_pos ⟨ha, le_rfl⟩]
    exact h.charged hlast ha
  refine ⟨hinner, ?_, fun t ht => ⟨_, rfl, hbelow t ht⟩, ?_, fun c hc => ?_⟩
  · rintro b hb
    obtain rfl := Option.some.inj hb
    exact drain_nonneg (rl.found_nonneg now h.nonneg)
  · rintro b hb ha
    obtain rfl := Option.some.inj hb
    exact hbudget ha
  · by_cases hnow : a ≤ now ∧ now ≤ c
    · rw [countIn_eq hbelow hnow.2]
      refine (hbudget hnow.1).admitted_le.trans (add_le_add_right ?_ _)
      exact mul_le_mul_of_nonneg_right (asSecs_mono (Nat.sub_le_sub_right hnow.2 a)) rl.refill_nonneg
    · rw [countIn_cons hadmitted, if_neg hnow]
      exact h.bound c hc

theorem Paced.next (h : Paced rl key a s m) {e : Step} (he : e.ordered key s = true) :
    ∃ m', Paced rl key a (next rl key s e) m' := by
  cases e with
  | tick d | arrive => exact ⟨m, h.inner, h.nonneg, h.below, h.budget, h.bound⟩
  | enter i =>
    cases hi : s.waiting[i]? with
    | none =>
      have hsame : Gate.next rl key s (.enter i) = s := by simp only [Gate.next, hi]
      rw [hsame]
      exact ⟨m, h⟩
    | some now =>
      obtain ⟨n, hinner⟩ := h.inner
      obtain ⟨hok, n', hcheck⟩ := rl.check_alone key h.nonneg n now
      have hlast : ∀ b ∈ m, b.last ≤ now := by
        intro b hb
        obtain rfl := Option.mem_def.1 hb
        simpa [Step.ordered, hi, hinner, alone, Inner.get] using he
      refine ⟨_, h.enter hlast ⟨n', ?_⟩ ?_⟩
      · simp only [Gate.next, hi, hinner]
        exact hcheck
      · simp only [Gate.next, hi, hinner, hok, decide_eq_true_eq]

theorem Paced.start (rl : RateLimiter) (key : String) (a clock : Nat) : Paced rl key a (start clock) none := by
  refine ⟨⟨0, rfl⟩, by simp, by simp [Gate.start], by simp, fun c _ => ?_⟩
  have hgain := rl.gain_nonneg (c - a)
  have hburst := rl.burst_nonneg
  simp only [countIn, Gate.start, List.countP_nil, Nat.cast_zero]
  linarith

/-- When the callers of a key enter in the order in which they read the clock, any interval admits at most a burst
    and what the rate allows for its length. -/
theorem rate_bounded (perMinute : Nat) (rl : RateLimiter) (hnew : RateLimiter.new perMinute = some rl) (key : String)
    (clock : Nat) (es : List Step)
    (h : Runs.Along (next rl key) (fun s e => e.ordered key s = true) (start clock) es) (a b : Nat) (hab : a ≤ b) :
    ((Runs.after (next rl key) (start clock) es).countIn a b : ℚ) ≤
      max ((perMinute : ℚ) / 10) 10 + asSecs (b - a) * ((perMinute : ℚ) / 60) := by
  obtain ⟨hrate, hburst⟩ := new_eq hnew
  have hpaced : ∃ m, Paced rl key a (Runs.after (next rl key) (start clock) es) m :=
    h.invariant (I := fun s => ∃ m, Paced rl key a s m) ⟨none, .start rl key a clock⟩
      fun s e he ⟨_, hs⟩ => hs.next he
  obtain ⟨m, hm⟩ := hpaced
  rw [← hrate, ← hburst]
  exact hm.bound b hab

/-- A request a second, and bursts of ten. -/
def perSecond : RateLimiter := (RateLimiter.new 60).get rfl

/-- Two callers arrive a second apart and enter in that order. -/
def inOrder : List Step := [.arrive, .tick 1000000000, .arrive, .enter 0, .enter 0]

theorem inOrder_bounded :
    ((Runs.after (next perSecond "k") (start 0) inOrder).countIn 0 1000000000 : ℚ) ≤
      max (((60 : Nat) : ℚ) / 10) 10 + asSecs (1000000000 - 0) * (((60 : Nat) : ℚ) / 60) :=
  rate_bounded 60 perSecond rfl "k" 0 inOrder (by decide +kernel) 0 1000000000 (by decide)

/-- The eleventh caller reads the clock at once but enters ten seconds later, between two bursts of ten: it turns the
    bucket back, and the same ten seconds are credited twice. -/
def outOfOrder : List Step :=
  List.replicate 11 .arrive ++ List.replicate 10 (.enter 0) ++ [.tick 10000000000] ++ List.replicate 20 .arrive ++
    List.replicate 10 (.enter 1) ++ List.replicate 11 (.enter 0)

theorem outOfOrder_unbounded :
    ¬ ∀ (es : List Step) (a b : Nat), a ≤ b → ((Runs.after (next perSecond "k") (start 0) es).countIn a b : ℚ) ≤
      max (((60 : Nat) : ℚ) / 10) 10 + asSecs (b - a) * (((60 : Nat) : ℚ) / 60) := by
  intro h
  have hcount : (Runs.after (next perSecond "k") (start 0) outOfOrder).countIn 0 10000000000 = 30 := by decide +kernel
  have hbound := h outOfOrder 0 10000000000 (by decide)
  rw [hcount] at hbound
  norm_num [asSecs] at hbound

end Gate
end CrewSync.RateLimit
