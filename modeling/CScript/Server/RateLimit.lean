import CScript.Lib.TokenBucket
import CScript.Server.Durations
import Mathlib.Algebra.Order.Field.Basic
import Mathlib.Algebra.Order.Field.Rat

/-!
# The rate limiter

One token bucket for each client and rpc, in exact rationals. Buckets that were idle for an hour
are swept on every thousandth check and made anew, full, when their key comes back. Times are
readings of one clock, in nanoseconds.
-/
namespace CScript.Server
open CScript.Lib

structure Bucket where
  tokens : ℚ
  capacity : ℚ
  refillPerSec : ℚ
  lastSeen : Nat

/-- The client, the service and the rpc. -/
abbrev LimitKey := String × String × String

structure RateLimiter where
  buckets : LimitKey → Option Bucket
  checksSinceSweep : Nat

namespace RateLimiter

def new : RateLimiter := ⟨fun _ => none, 0⟩

def sweepEvery : Nat := 1000

/-- An hour. -/
def sweepMaxIdle : Nat := 3600 * 10 ^ 9

/-- `Duration::as_secs_f64`. -/
def asSecs (nanos : Nat) : ℚ := nanos / 10 ^ 9

/-- Before the start of the clock there is no cutoff. -/
def sweep (limiter : RateLimiter) (now : Nat) : RateLimiter :=
  if sweepEvery ≤ limiter.checksSinceSweep + 1 then
    { buckets := fun key => if sweepMaxIdle ≤ now then
        (limiter.buckets key).filter fun b => decide (now - sweepMaxIdle ≤ b.lastSeen)
      else limiter.buckets key
      checksSinceSweep := 0 }
  else { limiter with checksSinceSweep := limiter.checksSinceSweep + 1 }

def check (limiter : RateLimiter) (key : LimitKey) (spec : RateLimitSpec) (now : Nat) :
    RateLimiter × Bool :=
  let limiter := limiter.sweep now
  let capacity : ℚ := spec.count
  let refillPerSec := capacity / spec.window
  let bucket := (limiter.buckets key).getD ⟨capacity, capacity, refillPerSec, now⟩
  let elapsed := asSecs (now - bucket.lastSeen)
  let tokens := min (bucket.tokens + elapsed * bucket.refillPerSec) bucket.capacity
  let put := fun tokens => { limiter with
    buckets := Function.update limiter.buckets key (some { bucket with tokens, lastSeen := now }) }
  if 1 ≤ tokens then (put (tokens - 1), true) else (put tokens, false)

end RateLimiter

open RateLimiter

structure LimitCheck where
  time : Nat
  key : LimitKey
  spec : RateLimitSpec

/-- A limiter after some checks, and what they were answered. -/
def RateLimiter.after : RateLimiter → List LimitCheck → RateLimiter
  | limiter, [] => limiter
  | limiter, c :: cs => (limiter.check c.key c.spec c.time).1.after cs

def RateLimiter.answers : RateLimiter → List LimitCheck → List (LimitCheck × Bool)
  | _, [] => []
  | limiter, c :: cs =>
      (c, (limiter.check c.key c.spec c.time).2) ::
        (limiter.check c.key c.spec c.time).1.answers cs

/-- Checks of any clients under a clock that does not go back. -/
structure CheckHistory where
  checks : List LimitCheck
  ordered : checks.Pairwise fun a b => a.time ≤ b.time

/-- The checks of a key, in seconds, each with its answer. -/
def answersOf (key : LimitKey) (answers : List (LimitCheck × Bool)) : List (ℚ × Bool) :=
  (answers.filter fun a => decide (a.1.key = key)).map fun a => (asSecs a.1.time, a.2)

def CheckHistory.of (h : CheckHistory) (key : LimitKey) : List (ℚ × Bool) :=
  answersOf key (RateLimiter.new.answers h.checks)

/-- Every check of the key is made with this limit. -/
def CheckHistory.OneSpec (h : CheckHistory) (key : LimitKey) (spec : RateLimitSpec) : Prop :=
  ∀ c ∈ h.checks, c.key = key → c.spec = spec

/-- What a limit of `count` per `window` promises a key in a history. -/
structure LimitKept (spec : RateLimitSpec) (h : CheckHistory) (key : LimitKey) : Prop where
  bounded : ∀ a e : ℚ, a ≤ e →
    (TokenBucket.takenIn a e (h.of key) : ℚ) ≤
      spec.count + spec.count * (e - a) / spec.window
  admits : ∀ (i : Nat) (t : ℚ) (admitted : Bool), (h.of key)[i]? = some (t, admitted) →
    ((TokenBucket.gotAt ((h.of key).take i)).countP fun g => decide (t < g + spec.window)) <
      spec.count → admitted = true
  /-- The other keys play no part. -/
  alone : ∀ h' : CheckHistory,
    (h'.checks.filter fun c => decide (c.key = key)) =
      (h.checks.filter fun c => decide (c.key = key)) → h'.of key = h.of key

/-- A declared limit: a text that its parser reads as what it says. -/
structure DeclaredLimit where
  checks : Bool
  raw : String
  spec : RateLimitSpec
  parsed : RateLimitSpec.parse checks raw = .ok spec
  written : IsRateLimit raw spec

theorem DeclaredLimit.count_pos (d : DeclaredLimit) : 0 < d.spec.count := by
  obtain ⟨-, -, -, pos, -⟩ := d.written
  exact pos

theorem DeclaredLimit.window_pos (d : DeclaredLimit) : 0 < d.spec.window := by
  obtain ⟨-, -, -, -, -, pos, -⟩ := d.written
  exact pos

/-! ## One bucket -/

theorem asSecs_sub {a b : Nat} (le : b ≤ a) : asSecs (a - b) = asSecs a - asSecs b := by
  unfold asSecs
  rw [Nat.cast_sub le, sub_div]

theorem asSecs_mono {a b : Nat} (le : a ≤ b) : asSecs a ≤ asSecs b := by
  unfold asSecs
  gcongr

/-- The bucket that the limiter keeps for a key, and the one that is never swept. -/
inductive Tracks (spec : RateLimitSpec) (clock : Nat) :
    Option Bucket → Option (TokenBucket ℚ) → Prop
  | fresh : Tracks spec clock none none
  | kept (tokens : ℚ) (last : Nat) (nonneg : 0 ≤ tokens) (past : last ≤ clock) :
      Tracks spec clock
        (some ⟨tokens, spec.count, spec.count / spec.window, last⟩) (some ⟨tokens, asSecs last⟩)
  | swept (tokens : ℚ) (last : Nat) (nonneg : 0 ≤ tokens) (idle : last + sweepMaxIdle ≤ clock) :
      Tracks spec clock none (some ⟨tokens, asSecs last⟩)

theorem Tracks.later {spec : RateLimitSpec} {clock now : Nat} {b : Option Bucket}
    {x : Option (TokenBucket ℚ)} (h : Tracks spec clock b x) (le : clock ≤ now) :
    Tracks spec now b x := by
  cases h with
  | fresh => exact .fresh
  | kept tokens last nonneg past => exact .kept tokens last nonneg (past.trans le)
  | swept tokens last nonneg idle => exact .swept tokens last nonneg (idle.trans le)

theorem Tracks.sweep {spec : RateLimitSpec} {limiter : RateLimiter} {key : LimitKey} {now : Nat}
    {x : Option (TokenBucket ℚ)} (h : Tracks spec now (limiter.buckets key) x) :
    Tracks spec now ((limiter.sweep now).buckets key) x := by
  unfold RateLimiter.sweep
  split
  · dsimp only
    split
    · next started =>
      generalize limiter.buckets key = b at h
      cases h with
      | fresh => exact .fresh
      | swept tokens last nonneg idle => exact .swept tokens last nonneg idle
      | kept tokens last nonneg past =>
          rw [Option.filter_some]
          split
          · exact .kept tokens last nonneg past
          · next old =>
            apply Tracks.swept tokens last nonneg
            simp only [decide_eq_true_eq] at old
            omega
    · exact h
  · exact h

theorem window_mul_rate (d : DeclaredLimit) :
    (d.spec.window : ℚ) * (d.spec.count / d.spec.window) = d.spec.count := by
  have pos : (d.spec.window : ℚ) ≠ 0 := Nat.cast_ne_zero.mpr d.window_pos.ne'
  exact mul_div_cancel₀ _ pos

theorem rate_nonneg (spec : RateLimitSpec) : (0 : ℚ) ≤ spec.count / spec.window := by positivity

/-- With a window of at most an hour a swept bucket is full again. -/
theorem Tracks.level {d : DeclaredLimit} (short : d.spec.window ≤ 3600) {now : Nat}
    {b : Option Bucket} {x : Option (TokenBucket ℚ)} (h : Tracks d.spec now b x) :
    let bucket := b.getD ⟨d.spec.count, d.spec.count, d.spec.count / d.spec.window, now⟩
    min (bucket.tokens + asSecs (now - bucket.lastSeen) * bucket.refillPerSec) bucket.capacity =
      TokenBucket.level (d.spec.count : ℚ) (d.spec.count / d.spec.window) x (asSecs now) := by
  cases h with
  | fresh => simp [asSecs, TokenBucket.level]
  | kept tokens last nonneg past =>
      simp only [Option.getD_some, TokenBucket.level]
      rw [asSecs_sub past]
  | swept tokens last nonneg idle =>
      have waited : (d.spec.window : ℚ) ≤ asSecs now - asSecs last := by
        rw [← asSecs_sub (by omega)]
        have hour : (3600 : ℚ) = asSecs sweepMaxIdle := by norm_num [asSecs, sweepMaxIdle]
        calc (d.spec.window : ℚ) ≤ 3600 := by exact_mod_cast short
          _ = asSecs sweepMaxIdle := hour
          _ ≤ asSecs (now - last) := asSecs_mono (by omega)
      rw [TokenBucket.level_of_idle (rate_nonneg d.spec) (window_mul_rate d) nonneg waited]
      simp [asSecs]

theorem Tracks.sound {spec : RateLimitSpec} {now : Nat} {b : Option Bucket}
    {x : Option (TokenBucket ℚ)} (h : Tracks spec now b x) :
    0 ≤ TokenBucket.level (spec.count : ℚ) (spec.count / spec.window) x (asSecs now) := by
  have flow (last : Nat) (past : last ≤ now) (tokens : ℚ) (nonneg : 0 ≤ tokens) :
      0 ≤ tokens + (asSecs now - asSecs last) * (spec.count / spec.window) :=
    add_nonneg nonneg (mul_nonneg (sub_nonneg.mpr (asSecs_mono past)) (rate_nonneg spec))
  have full : (0 : ℚ) ≤ spec.count := Nat.cast_nonneg _
  cases h with
  | fresh => exact full
  | kept tokens last nonneg past => exact le_min (flow last past tokens nonneg) full
  | swept tokens last nonneg idle =>
      exact le_min (flow last (le_of_add_le_left idle) tokens nonneg) full

/-- A check answers as an attempt on the bucket that is never swept. -/
theorem Tracks.check {d : DeclaredLimit} (short : d.spec.window ≤ 3600) {limiter : RateLimiter}
    {key : LimitKey} {now : Nat} {x : Option (TokenBucket ℚ)}
    (h : Tracks d.spec now (limiter.buckets key) x) :
    (limiter.check key d.spec now).2 =
        (TokenBucket.take (d.spec.count : ℚ) (d.spec.count / d.spec.window) x (asSecs now)).2 ∧
      Tracks d.spec now ((limiter.check key d.spec now).1.buckets key)
        (some (TokenBucket.take (d.spec.count : ℚ) (d.spec.count / d.spec.window) x
          (asSecs now)).1) := by
  have swept := h.sweep
  have level := swept.level short
  have nonneg := swept.sound
  have rates : ∀ b : Option Bucket, Tracks d.spec now b x →
      (b.getD ⟨d.spec.count, d.spec.count, d.spec.count / d.spec.window, now⟩).capacity =
          d.spec.count ∧
        (b.getD ⟨d.spec.count, d.spec.count, d.spec.count / d.spec.window, now⟩).refillPerSec =
          d.spec.count / d.spec.window := by
    rintro _ (_ | _ | _) <;> exact ⟨rfl, rfl⟩
  obtain ⟨capacity, refill⟩ := rates _ swept
  unfold RateLimiter.check TokenBucket.take
  simp only at level ⊢
  rw [level]
  split
  · next token =>
    refine ⟨(decide_eq_true token).symm, ?_⟩
    dsimp only
    rw [Function.update_self, capacity, refill]
    exact .kept _ now (sub_nonneg.mpr token) le_rfl
  · next empty =>
    refine ⟨(decide_eq_false empty).symm, ?_⟩
    dsimp only
    rw [Function.update_self, capacity, refill, sub_zero]
    exact .kept _ now nonneg le_rfl

theorem buckets_check_of_ne {limiter : RateLimiter} {key other : LimitKey} (ne : other ≠ key)
    (spec : RateLimitSpec) (now : Nat) :
    (limiter.check other spec now).1.buckets key = (limiter.sweep now).buckets key := by
  unfold RateLimiter.check
  dsimp only
  split <;> exact Function.update_of_ne ne.symm _ _

/-- The times of a key's checks. -/
def timesOf (key : LimitKey) (checks : List LimitCheck) : List ℚ :=
  (checks.filter fun c => decide (c.key = key)).map fun c => asSecs c.time

/-- The answers to a key are those of a bucket of its own. -/
theorem answersOf_eq {d : DeclaredLimit} (short : d.spec.window ≤ 3600) {key : LimitKey}
    {limiter : RateLimiter} {clock : Nat} {x : Option (TokenBucket ℚ)} {checks : List LimitCheck}
    (h : Tracks d.spec clock (limiter.buckets key) x)
    (ordered : checks.Pairwise fun a b => a.time ≤ b.time) (later : ∀ c ∈ checks, clock ≤ c.time)
    (one : ∀ c ∈ checks, c.key = key → c.spec = d.spec) :
    answersOf key (limiter.answers checks) =
      TokenBucket.attempts (d.spec.count : ℚ) (d.spec.count / d.spec.window) x
        (timesOf key checks) := by
  induction checks generalizing limiter clock x with
  | nil => rfl
  | cons c checks ih =>
      have now := h.later (later c List.mem_cons_self)
      have rest := fun c' (hc' : c' ∈ checks) => List.rel_of_pairwise_cons ordered hc'
      have ones := fun c' (hc' : c' ∈ checks) => one c' (List.mem_cons_of_mem _ hc')
      rw [RateLimiter.answers, answersOf, timesOf, List.filter_cons, List.filter_cons]
      by_cases own : c.key = key
      · have spec := one c List.mem_cons_self own
        subst own
        rw [spec]
        obtain ⟨answer, next⟩ := now.check short
        simp only [decide_true, if_true, List.map_cons, TokenBucket.attempts]
        rw [answer]
        exact congrArg _ (ih next ordered.of_cons rest ones)
      · simp only [own, decide_false, Bool.false_eq_true, if_false]
        refine ih ?_ ordered.of_cons rest ones
        rw [buckets_check_of_ne own]
        exact now.sweep

theorem timesOf_sorted (key : LimitKey) {checks : List LimitCheck}
    (ordered : checks.Pairwise fun a b => a.time ≤ b.time) :
    (timesOf key checks).Pairwise (· ≤ ·) := by
  apply List.pairwise_map.mpr
  apply (ordered.filter _).imp
  intro a b le
  exact asSecs_mono le

theorem CheckHistory.of_eq {d : DeclaredLimit} (short : d.spec.window ≤ 3600) {h : CheckHistory}
    {key : LimitKey} (one : h.OneSpec key d.spec) :
    h.of key = TokenBucket.attempts (d.spec.count : ℚ) (d.spec.count / d.spec.window) none
      (timesOf key h.checks) :=
  answersOf_eq short .fresh h.ordered (fun _ _ => Nat.zero_le _) one

/-- A window of at most an hour is kept in every history. -/
theorem limitKept_of_short {d : DeclaredLimit} (short : d.spec.window ≤ 3600) (h : CheckHistory)
    (key : LimitKey) (one : h.OneSpec key d.spec) : LimitKept d.spec h key := by
  have full : (0 : ℚ) ≤ d.spec.count := Nat.cast_nonneg _
  have rate := rate_nonneg d.spec
  have sorted := timesOf_sorted key h.ordered
  refine ⟨?_, ?_, ?_⟩
  · intro a e le
    rw [h.of_eq short one]
    have most := TokenBucket.takenIn_le full rate le sorted
      fun _ h => absurd h (Option.not_mem_none _)
    rwa [mul_div_assoc', mul_comm (e - a)] at most
  · intro i t admitted found few
    rw [h.of_eq short one] at found few
    obtain ⟨before, later, times, made, rfl⟩ := TokenBucket.attempts_at found
    rw [made] at few
    apply decide_eq_true
    apply TokenBucket.token_of_few full rate (window_mul_rate d)
    · rw [times, List.append_cons] at sorted
      exact (List.pairwise_append.mp sorted).1
    · exact_mod_cast few
  · intro h' same
    have one' : h'.OneSpec key d.spec := by
      intro c hc hkey
      have mem : c ∈ h.checks.filter fun c => decide (c.key = key) := by
        rw [← same]
        exact List.mem_filter.mpr ⟨hc, decide_eq_true hkey⟩
      exact one c (List.mem_filter.mp mem).1 hkey
    rw [h.of_eq short one, h'.of_eq short one', timesOf, same, ← timesOf]

/-! ## Longer windows -/

/-- Checks of one key at one time. -/
def burst (key : LimitKey) (spec : RateLimitSpec) (now n : Nat) : List LimitCheck :=
  List.replicate n ⟨now, key, spec⟩

/-- A key has tokens at a time, all of them where the limiter keeps no bucket. -/
structure Holds (limiter : RateLimiter) (key : LimitKey) (spec : RateLimitSpec) (now : Nat)
    (tokens : ℚ) : Prop where
  bucket : (limiter.buckets key).getD
      ⟨spec.count, spec.count, spec.count / spec.window, now⟩ =
    ⟨tokens, spec.count, spec.count / spec.window, now⟩
  le_count : tokens ≤ spec.count

theorem Holds.sweep {limiter : RateLimiter} {key : LimitKey} {spec : RateLimitSpec} {now : Nat}
    {tokens : ℚ} (h : Holds limiter key spec now tokens) :
    Holds (limiter.sweep now) key spec now tokens := by
  refine ⟨?_, h.le_count⟩
  rw [← h.bucket]
  unfold RateLimiter.sweep
  split
  · dsimp only
    split
    · cases found : limiter.buckets key with
      | none => rfl
      | some b =>
          have seen : b = ⟨tokens, spec.count, spec.count / spec.window, now⟩ := by
            rw [← h.bucket, found]
            rfl
          rw [Option.filter_some, seen, if_pos (decide_eq_true (Nat.sub_le now sweepMaxIdle))]
    · rfl
  · rfl

/-- A whole token is given out, and one less is left. -/
theorem Holds.check {limiter : RateLimiter} {key : LimitKey} {spec : RateLimitSpec} {now : Nat}
    {tokens : ℚ} (h : Holds limiter key spec now tokens) (token : 1 ≤ tokens) :
    (limiter.check key spec now).2 = true ∧
      Holds (limiter.check key spec now).1 key spec now (tokens - 1) := by
  have level : min (tokens + asSecs (now - now) * (spec.count / spec.window)) spec.count =
      tokens := by
    simp [asSecs, h.le_count]
  unfold RateLimiter.check
  dsimp only
  rw [h.sweep.bucket]
  dsimp only
  rw [level, if_pos token]
  refine ⟨rfl, ?_, (sub_le_self _ zero_le_one).trans h.le_count⟩
  dsimp only
  rw [Function.update_self]
  rfl

theorem Holds.burst {limiter : RateLimiter} {key : LimitKey} {spec : RateLimitSpec} {now n : Nat}
    {tokens : ℚ} (h : Holds limiter key spec now tokens) (enough : n ≤ tokens) :
    limiter.answers (burst key spec now n) =
        (Server.burst key spec now n).map (fun c => (c, true)) ∧
      Holds (limiter.after (Server.burst key spec now n)) key spec now (tokens - n) := by
  induction n generalizing limiter tokens with
  | zero =>
      refine ⟨rfl, ?_⟩
      rw [Nat.cast_zero, sub_zero]
      exact h
  | succ n ih =>
      push_cast at enough
      have nonneg : (0 : ℚ) ≤ n := Nat.cast_nonneg n
      obtain ⟨first, next⟩ := h.check (by linarith)
      obtain ⟨rest, left⟩ := ih next (by linarith)
      have one_more : tokens - ((n + 1 : Nat) : ℚ) = tokens - 1 - n := by push_cast; ring
      rw [one_more]
      refine ⟨?_, left⟩
      change (_, (limiter.check key spec now).2) :: _ = (_, true) :: _
      rw [first]
      exact congrArg _ rest

theorem answers_append (limiter : RateLimiter) (xs ys : List LimitCheck) :
    limiter.answers (xs ++ ys) = limiter.answers xs ++ (limiter.after xs).answers ys := by
  induction xs generalizing limiter with
  | nil => rfl
  | cons x xs ih => exact congrArg _ (ih _)

theorem after_append (limiter : RateLimiter) (xs ys : List LimitCheck) :
    limiter.after (xs ++ ys) = (limiter.after xs).after ys := by
  induction xs generalizing limiter with
  | nil => rfl
  | cons x xs ih => exact ih _

theorem checksSinceSweep_check (limiter : RateLimiter) (key : LimitKey) (spec : RateLimitSpec)
    (now : Nat) (h : limiter.checksSinceSweep < sweepEvery) :
    (limiter.check key spec now).1.checksSinceSweep =
      (limiter.checksSinceSweep + 1) % sweepEvery := by
  have swept : (limiter.sweep now).checksSinceSweep =
      (limiter.checksSinceSweep + 1) % sweepEvery := by
    unfold RateLimiter.sweep
    split
    · next full =>
      have last : limiter.checksSinceSweep + 1 = sweepEvery := by omega
      rw [last, Nat.mod_self]
    · next early => exact (Nat.mod_eq_of_lt (Nat.lt_of_not_le early)).symm
  rw [← swept]
  unfold RateLimiter.check
  dsimp only
  split <;> rfl

theorem checksSinceSweep_after (checks : List LimitCheck) : ∀ limiter : RateLimiter,
    limiter.checksSinceSweep < sweepEvery → (limiter.after checks).checksSinceSweep =
      (limiter.checksSinceSweep + checks.length) % sweepEvery := by
  induction checks with
  | nil =>
      intro limiter h
      rw [List.length_nil, Nat.add_zero, Nat.mod_eq_of_lt h]
      rfl
  | cons c checks ih =>
      intro limiter h
      have step := checksSinceSweep_check limiter c.key c.spec c.time h
      have small : (limiter.check c.key c.spec c.time).1.checksSinceSweep < sweepEvery := by
        rw [step]
        exact Nat.mod_lt _ (by decide)
      have rest := ih _ small
      rw [step, Nat.mod_add_mod] at rest
      rw [List.length_cons, Nat.add_comm checks.length, ← Nat.add_assoc]
      exact rest

/-- Checks of another key leave the bucket of a key as it was last seen, or sweep it. -/
theorem lastSeen_after {key other : LimitKey} (ne : other ≠ key) (spec : RateLimitSpec)
    (now n : Nat) {last : Nat} {limiter : RateLimiter}
    (h : ∀ b ∈ limiter.buckets key, b.lastSeen = last) :
    ∀ b ∈ (limiter.after (burst other spec now n)).buckets key, b.lastSeen = last := by
  induction n generalizing limiter with
  | zero => exact h
  | succ n ih =>
      apply ih
      intro b hb
      rw [buckets_check_of_ne ne] at hb
      unfold RateLimiter.sweep at hb
      split at hb
      · dsimp only at hb
        split at hb
        · exact h b (Option.mem_filter_iff.mp hb).1
        · exact h b hb
      · exact h b hb

/-- The check that sweeps drops a bucket that is idle for longer than an hour. -/
theorem swept_by_check {key other : LimitKey} (ne : other ≠ key) (spec : RateLimitSpec)
    {now last : Nat} {limiter : RateLimiter} (due : limiter.checksSinceSweep + 1 = sweepEvery)
    (h : ∀ b ∈ limiter.buckets key, b.lastSeen = last) (idle : last + sweepMaxIdle < now) :
    (limiter.check other spec now).1.buckets key = none := by
  rw [buckets_check_of_ne ne, RateLimiter.sweep, if_pos due.ge]
  dsimp only
  rw [if_pos (by omega)]
  apply Option.filter_eq_none_iff.mpr
  intro b hb
  have seen := h b hb
  simp only [decide_eq_true_eq]
  omega

def firstKey : LimitKey := ("1.2.3.4", "Sys", "ping")
def otherKey : LimitKey := ("5.6.7.8", "Sys", "ping")

/-- The first moment at which a bucket last seen at the start of the clock may be swept. -/
def sweptAt : Nat := sweepMaxIdle + 1

/-- All that the limit allows, then the checks of another client up to the next sweep an hour
later, and all that the limit allows again. -/
def twoBursts (spec : RateLimitSpec) : List LimitCheck :=
  burst firstKey spec 0 spec.count ++
    (burst otherKey spec sweptAt (sweepEvery - spec.count % sweepEvery - 1) ++
      ⟨sweptAt, otherKey, spec⟩ :: burst firstKey spec sweptAt spec.count)

theorem eq_of_mem_burst {key : LimitKey} {spec : RateLimitSpec} {now n : Nat} {c : LimitCheck}
    (h : c ∈ burst key spec now n) : c = ⟨now, key, spec⟩ := List.eq_of_mem_replicate h

theorem twoBursts_ordered (spec : RateLimitSpec) :
    (twoBursts spec).Pairwise fun a b => a.time ≤ b.time := by
  have late : ∀ c ∈ burst otherKey spec sweptAt (sweepEvery - spec.count % sweepEvery - 1) ++
      ⟨sweptAt, otherKey, spec⟩ :: burst firstKey spec sweptAt spec.count, c.time = sweptAt := by
    intro c hc
    rcases List.mem_append.mp hc with h | h
    · rw [eq_of_mem_burst h]
    · rcases List.mem_cons.mp h with rfl | h
      · rfl
      · rw [eq_of_mem_burst h]
  apply List.pairwise_append.mpr
  refine ⟨?_, ?_, ?_⟩
  · exact List.pairwise_replicate.mpr (Or.inr le_rfl)
  · apply List.pairwise_of_forall_mem_list
    intro x hx y hy
    rw [late x hx, late y hy]
  · intro x hx y hy
    rw [eq_of_mem_burst hx]
    exact Nat.zero_le _

def twoBurstsHistory (spec : RateLimitSpec) : CheckHistory :=
  ⟨twoBursts spec, twoBursts_ordered spec⟩

theorem answersOf_append (key : LimitKey) (xs ys : List (LimitCheck × Bool)) :
    answersOf key (xs ++ ys) = answersOf key xs ++ answersOf key ys := by
  rw [answersOf, List.filter_append, List.map_append]
  rfl

theorem answersOf_others {key : LimitKey} (checks : List LimitCheck) (limiter : RateLimiter)
    (h : ∀ c ∈ checks, c.key ≠ key) : answersOf key (limiter.answers checks) = [] := by
  induction checks generalizing limiter with
  | nil => rfl
  | cons c checks ih =>
      rw [RateLimiter.answers, answersOf, List.filter_cons_of_neg, ← answersOf]
      · exact ih _ fun c' hc' => h c' (List.mem_cons_of_mem _ hc')
      · simpa using h c List.mem_cons_self

theorem answersOf_burst (key : LimitKey) (spec : RateLimitSpec) (now n : Nat) :
    answersOf key ((burst key spec now n).map fun c => (c, true)) =
      List.replicate n (asSecs now, true) := by
  simp [answersOf, burst]

theorem Holds.lastSeen {limiter : RateLimiter} {key : LimitKey} {spec : RateLimitSpec} {now : Nat}
    {tokens : ℚ} (h : Holds limiter key spec now tokens) :
    ∀ b ∈ limiter.buckets key, b.lastSeen = now := by
  intro b hb
  have seen := h.bucket
  rw [Option.mem_def.mp hb, Option.getD_some] at seen
  rw [seen]

theorem sweep_due (spec : RateLimitSpec) :
    ((RateLimiter.new.after (burst firstKey spec 0 spec.count)).after
      (burst otherKey spec sweptAt
        (sweepEvery - spec.count % sweepEvery - 1))).checksSinceSweep + 1 = sweepEvery := by
  have first := checksSinceSweep_after (burst firstKey spec 0 spec.count) .new (by decide)
  have small : spec.count % sweepEvery < sweepEvery := Nat.mod_lt _ (by decide)
  rw [burst, List.length_replicate, RateLimiter.new, Nat.zero_add, ← RateLimiter.new,
    ← burst] at first
  rw [checksSinceSweep_after _ _ (by rw [first]; exact small), first, burst,
    List.length_replicate]
  have room : spec.count % sweepEvery + (sweepEvery - spec.count % sweepEvery - 1) =
      sweepEvery - 1 := by omega
  rw [room, Nat.mod_eq_of_lt (by decide)]
  rfl

/-- The sweep between the bursts lets the second one through as well. -/
theorem twoBursts_of (spec : RateLimitSpec) :
    (twoBurstsHistory spec).of firstKey =
      List.replicate spec.count (asSecs 0, true) ++
        List.replicate spec.count (asSecs sweptAt, true) := by
  have ne : otherKey ≠ firstKey := by decide
  have fresh : Holds .new firstKey spec 0 spec.count := ⟨rfl, le_rfl⟩
  obtain ⟨first, left⟩ := fresh.burst le_rfl
  have seen := lastSeen_after ne spec sweptAt (sweepEvery - spec.count % sweepEvery - 1)
    left.lastSeen
  have due := sweep_due spec
  have gone := swept_by_check ne spec due seen (by decide : 0 + sweepMaxIdle < sweptAt)
  have again : Holds _ firstKey spec sweptAt spec.count := ⟨by rw [gone]; rfl, le_rfl⟩
  change answersOf firstKey (RateLimiter.new.answers (burst firstKey spec 0 spec.count ++
    (burst otherKey spec sweptAt (sweepEvery - spec.count % sweepEvery - 1) ++
      ⟨sweptAt, otherKey, spec⟩ :: burst firstKey spec sweptAt spec.count))) = _
  rw [answers_append, answersOf_append, first,
    answersOf_burst, answers_append, answersOf_append, answersOf_others, List.nil_append,
    RateLimiter.answers, answersOf, List.filter_cons_of_neg, ← answersOf, (again.burst le_rfl).1,
    answersOf_burst]
  · simpa using ne
  · intro c hc
    rw [eq_of_mem_burst hc]
    exact ne

/-- A window of more than an hour is not kept. -/
theorem not_limitKept_of_long {d : DeclaredLimit} (long : 3600 < d.spec.window) :
    ¬ LimitKept d.spec (twoBurstsHistory d.spec) firstKey := by
  intro kept
  have most := kept.bounded (asSecs 0) (asSecs sweptAt) (asSecs_mono (Nat.zero_le _))
  rw [twoBursts_of] at most
  have both : TokenBucket.takenIn (asSecs 0) (asSecs sweptAt)
      (List.replicate d.spec.count (asSecs 0, true) ++
        List.replicate d.spec.count (asSecs sweptAt, true)) = d.spec.count + d.spec.count := by
    have le : asSecs 0 ≤ asSecs sweptAt := asSecs_mono (Nat.zero_le _)
    simp [TokenBucket.takenIn, List.countP_replicate, le]
  rw [both, Nat.cast_add, add_le_add_iff_left, mul_div_assoc] at most
  have count : (0 : ℚ) < d.spec.count := Nat.cast_pos.mpr d.count_pos
  have window : (0 : ℚ) < d.spec.window := Nat.cast_pos.mpr d.window_pos
  have waited : asSecs sweptAt - asSecs 0 < d.spec.window := by
    have hour : asSecs sweptAt - asSecs 0 < 3601 := by
      norm_num [asSecs, sweptAt, sweepMaxIdle]
    exact hour.trans_le (by exact_mod_cast long)
  have part := mul_lt_mul_of_pos_left ((div_lt_one window).mpr waited) count
  linarith

theorem twoBursts_oneSpec (spec : RateLimitSpec) (key : LimitKey) :
    (twoBurstsHistory spec).OneSpec key spec := by
  intro c hc _
  change c ∈ twoBursts spec at hc
  rcases List.mem_append.mp hc with h | h
  · rw [eq_of_mem_burst h]
  · rcases List.mem_append.mp h with h | h
    · rw [eq_of_mem_burst h]
    · rcases List.mem_cons.mp h with rfl | h
      · rfl
      · rw [eq_of_mem_burst h]

/-- A declared limit is kept in every history just where its window is at most an hour, the time
after which an idle bucket is swept. -/
theorem limit_kept_iff (d : DeclaredLimit) :
    (∀ (h : CheckHistory) (key : LimitKey), h.OneSpec key d.spec → LimitKept d.spec h key) ↔
      d.spec.window ≤ 3600 := by
  constructor
  · intro kept
    by_contra long
    exact not_limitKept_of_long (Nat.lt_of_not_le long)
      (kept _ firstKey (twoBursts_oneSpec d.spec firstKey))
  · intro short h key one
    exact limitKept_of_short short h key one

/-- `@rate_limit("1/2h")`. -/
def onePerTwoHours : DeclaredLimit where
  checks := false
  raw := "1/2h"
  spec := ⟨1, 7200⟩
  parsed := by decide
  written := ⟨['1'], ['2', 'h'], by decide, by decide, by decide, by decide,
    2, 'h', 3600, by decide, rfl, rfl, rfl⟩

theorem onePerTwoHours_not_kept :
    (twoBurstsHistory onePerTwoHours.spec).OneSpec firstKey onePerTwoHours.spec ∧
      ¬ LimitKept onePerTwoHours.spec (twoBurstsHistory onePerTwoHours.spec) firstKey :=
  ⟨twoBursts_oneSpec _ _, not_limitKept_of_long (by decide)⟩

end CScript.Server
