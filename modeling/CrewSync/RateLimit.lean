import CrewSync.Lib.Rows
import Mathlib.Algebra.Order.Ring.Rat
import Mathlib.Data.Rat.Floor
import Mathlib.Tactic.Linarith
import Mathlib.Tactic.NormNum

/-! The rate limiter in front of the tools (`src/ratelimit.rs`). An `f64` is an exact fraction here, and an `Instant`
    is in nanoseconds; a duration that would be negative is zero. -/

namespace CrewSync

/-- `Duration::as_secs_f64`. -/
def asSecs (d : Nat) : ℚ := d / 1000000000

namespace RateLimit

/-- Entries idle for longer than this are dropped. -/
def idleEviction : Nat := 600 * 1000000000

/-- How often a request triggers a sweep of idle entries. -/
def sweepEvery : Nat := 512

/-- Hard ceiling on tracked callers. -/
def maxTracked : Nat := 10000

structure Bucket where
  tokens : ℚ
  last : Nat
  deriving DecidableEq

/-- The buckets by their key, and the calls since the last sweep. -/
structure Inner where
  buckets : List (String × Bucket)
  sinceSweep : Nat
  deriving DecidableEq

/-- The settings of a limiter. The bucket of an idle caller may be dropped, for it is full by then. -/
structure RateLimiter where
  refillPerSec : ℚ
  burst : ℚ
  refill_nonneg : 0 ≤ refillPerSec
  one_le_burst : 1 ≤ burst
  idle_fills : burst ≤ asSecs idleEviction * refillPerSec

/-- How long a throttled caller should wait. -/
structure Throttled where
  retryAfterSecs : Nat
  deriving DecidableEq

/-- `per_minute` of 0 disables limiting entirely. -/
def RateLimiter.new (perMinute : Nat) : Option RateLimiter :=
  if h : perMinute = 0 then none
  else
    have hp : (1 : ℚ) ≤ perMinute := by exact_mod_cast Nat.one_le_iff_ne_zero.2 h
    some {
      refillPerSec := (perMinute : ℚ) / 60
      burst := max ((perMinute : ℚ) / 10) 10
      refill_nonneg := by linarith
      one_le_burst := le_max_of_le_right (by norm_num)
      idle_fills := by
        have hidle : asSecs idleEviction = 600 := by norm_num [asSecs, idleEviction]
        rw [hidle]
        refine max_le ?_ ?_ <;> linarith }

/-- A fresh map. -/
def Inner.empty : Inner := { buckets := [], sinceSweep := 0 }

/-- `retain(|_, b| now.duration_since(b.last) < IDLE_EVICTION)`. -/
def retain (now : Nat) (buckets : List (String × Bucket)) : List (String × Bucket) :=
  buckets.filter fun b => decide (now - b.2.last < idleEviction)

def Inner.sweep (now : Nat) (inner : Inner) : Inner :=
  let sinceSweep := inner.sinceSweep + 1
  if sinceSweep ≥ sweepEvery then { buckets := retain now inner.buckets, sinceSweep := 0 }
  else { inner with sinceSweep }

def Inner.get (inner : Inner) (key : String) : Option Bucket :=
  (inner.buckets.find? (·.1 == key)).map (·.2)

def Inner.set (inner : Inner) (key : String) (b : Bucket) : Inner :=
  { inner with buckets := Rows.put (·.1) (key, b) inner.buckets }

/-- The request is charged to the bucket. -/
def RateLimiter.charge (rl : RateLimiter) (now : Nat) (b : Bucket) : Except Throttled Unit × Bucket :=
  let elapsed := asSecs (now - b.last)
  let tokens := min (b.tokens + elapsed * rl.refillPerSec) rl.burst
  if 1 ≤ tokens then (.ok (), { tokens := tokens - 1, last := now })
  else
    -- Time until one whole token is available again.
    let deficit := 1 - tokens
    (.error { retryAfterSecs := (max ⌈deficit / rl.refillPerSec⌉ 1).toNat }, { tokens, last := now })

/-- What `check` does while it holds the lock; `now` was read before. -/
def RateLimiter.check (rl : RateLimiter) (inner : Inner) (key : String) (now : Nat) :
    Except Throttled Unit × Inner :=
  let inner := inner.sweep now
  match inner.get key with
  | some b =>
    let (r, b) := rl.charge now b
    (r, inner.set key b)
  | none =>
    let inner := if inner.buckets.length ≥ maxTracked then { inner with buckets := retain now inner.buckets } else inner
    if inner.buckets.length ≥ maxTracked then (.error { retryAfterSecs := 60 }, inner)
    else
      let (r, b) := rl.charge now { tokens := rl.burst, last := now }
      (r, inner.set key b)

/-! ### Callers at the lock -/

/-- The clock, the callers that have read it and wait for the lock, the map, and the timestamps of the calls that
    were admitted. All callers present one key. -/
structure Gate where
  clock : Nat
  waiting : List Nat
  inner : Inner
  admitted : List Nat
  deriving DecidableEq

inductive Gate.Step where
  | tick (d : Nat)
  /-- A caller reads the clock. -/
  | arrive
  /-- The `i`-th of the waiting callers takes the lock, and leaves. -/
  | enter (i : Nat)

def Gate.next (rl : RateLimiter) (key : String) (s : Gate) : Gate.Step → Gate
  | .tick d => { s with clock := s.clock + d }
  | .arrive => { s with waiting := s.waiting ++ [s.clock] }
  | .enter i =>
    match s.waiting[i]? with
    | none => s
    | some now =>
      let (r, inner) := rl.check s.inner key now
      { s with
        waiting := s.waiting.eraseIdx i
        inner
        admitted := if r.isOk then now :: s.admitted else s.admitted }

/-- Before the first call. -/
def Gate.start (clock : Nat) : Gate := { clock, waiting := [], inner := .empty, admitted := [] }

end RateLimit
end CrewSync
