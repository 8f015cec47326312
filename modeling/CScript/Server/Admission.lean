import CScript.Lib.Run
import CScript.Lib.Sequence

/-!
# Admission of requests

The accept loop of `serve` and the threads it spawns share the counter `in_flight`. A label is
one operation on that counter, or what a thread does between two of them: the loop adds one for
a request and then decides by what it read, a handler takes one away as it ends.
-/
namespace CScript.Server
open CScript.Lib

/-- A thread that runs `handle_request`. -/
structure HandlerThread where
  counted : Bool
  deriving DecidableEq

inductive Acceptor where
  /-- Between two requests: at the head of the loop. -/
  | ready
  /-- `fetch_add` has returned `before`. -/
  | counted (before : UInt64)
  /-- The loop was left. -/
  | stopped
  deriving DecidableEq

/-- What `serve` keeps while it runs, as far as it concerns admission. -/
structure Intake where
  inFlight : UInt64
  draining : Bool
  acceptor : Acceptor
  threads : List HandlerThread
  deriving DecidableEq

def Intake.start : Intake := ⟨0, false, .ready, []⟩

def exemptFromDraining (url : String) : Bool :=
  ["/", "/health", "/status", "/live", "/ready"].contains url

def countedUrl (url : String) : Bool := url != "/live"

/-- `before >= max`, where there is a `max`. -/
def saturated (maxConcurrency : Option UInt64) (before : UInt64) : Bool :=
  maxConcurrency.any fun limit => limit ≤ before

inductive ServeEvent where
  | arrive (url : String)
  | decide
  /-- The thread at a place of the list returns from `handle_request` and ends. -/
  | complete (i : Nat)
  /-- The thread unwinds out of `handle_request`. -/
  | panic (i : Nat)
  /-- SIGTERM or Ctrl-C. -/
  | shutdown
  /-- The loop looks whether the draining is over. -/
  | checkDrain
  | drainTimeout
  deriving DecidableEq

/-- `spawn_handler!` up to its first use of the counter. -/
def Intake.arrive (s : Intake) (url : String) : Intake :=
  if s.draining && !exemptFromDraining url then s
  else if countedUrl url then
    { s with inFlight := s.inFlight + 1, acceptor := .counted s.inFlight }
  else { s with threads := ⟨false⟩ :: s.threads }

/-- The rest of it for a counted request: give the place back, or spawn. -/
def Intake.decide (maxConcurrency : Option UInt64) (s : Intake) (before : UInt64) : Intake :=
  if saturated maxConcurrency before then
    { s with inFlight := s.inFlight - 1, acceptor := .ready }
  else { s with acceptor := .ready, threads := ⟨true⟩ :: s.threads }

def serveStep (maxConcurrency : Option UInt64) (s : Intake) : ServeEvent → Option Intake
  | .arrive url => if s.acceptor = .ready then some (s.arrive url) else none
  | .decide =>
      match s.acceptor with
      | .counted before => some (s.decide maxConcurrency before)
      | _ => none
  | .complete i => s.threads[i]?.map fun t => { s with
      inFlight := if t.counted then s.inFlight - 1 else s.inFlight
      threads := s.threads.eraseIdx i }
  | .panic i => s.threads[i]?.map fun _ => { s with threads := s.threads.eraseIdx i }
  | .shutdown => some { s with draining := true }
  | .checkDrain =>
      if s.acceptor = .ready ∧ s.draining then
        some (if s.inFlight = 0 then { s with acceptor := .stopped } else s)
      else none
  | .drainTimeout =>
      if s.acceptor = .ready ∧ s.draining then some { s with acceptor := .stopped } else none

/-! ## What the counter should say -/

/-- The threads of admitted requests other than `/live`. -/
def Intake.running (s : Intake) : Nat := s.threads.countP (·.counted)

/-- The request that the loop has admitted and is about to spawn. -/
def Intake.admitted (maxConcurrency : Option UInt64) (s : Intake) : Nat :=
  match s.acceptor with
  | .counted before => if saturated maxConcurrency before then 0 else 1
  | _ => 0

/-- The request that the loop is turning away and has not yet uncounted. -/
def Intake.refused (maxConcurrency : Option UInt64) (s : Intake) : Nat :=
  match s.acceptor with
  | .counted before => if saturated maxConcurrency before then 1 else 0
  | _ => 0

/-- The admitted requests other than `/live` whose handler has not ended. -/
def Intake.unended (maxConcurrency : Option UInt64) (s : Intake) : Nat :=
  s.running + s.admitted maxConcurrency

/-- What the counter promises of a state. Only the loop reads it, and between two requests there
is none that it is turning away. -/
structure AdmissionExact (maxConcurrency : Option UInt64) (s : Intake) : Prop where
  /-- The counter is the number of admitted requests in flight. -/
  count : s.inFlight.toNat = s.unended maxConcurrency + s.refused maxConcurrency
  bounded : ∀ limit, maxConcurrency = some limit → s.unended maxConcurrency ≤ limit.toNat
  /-- With every handler ended the draining ends. -/
  drains : s.acceptor = .ready → s.draining = true → s.unended maxConcurrency = 0 →
    serveStep maxConcurrency s .checkDrain = some { s with acceptor := .stopped }
  /-- A request that comes while there is a place is admitted. -/
  admits : s.acceptor = .ready → ∀ url, countedUrl url = true →
    (s.draining = true → exemptFromDraining url = true) →
    (∀ limit, maxConcurrency = some limit → s.unended maxConcurrency < limit.toNat) →
    (s.arrive url).admitted maxConcurrency = 1

/-- The steps that keep the counter right: no handler of a counted request unwinds, and the
counter does not run over its last value. -/
def KeepsCount (s : Intake) : ServeEvent → Prop
  | .arrive url => (s.draining = true → exemptFromDraining url = true) → countedUrl url = true →
      s.inFlight.toNat + 1 < UInt64.size
  | .panic i => ∀ t, s.threads[i]? = some t → t.counted = false
  | _ => True

/-! ## One step -/

variable {maxConcurrency : Option UInt64}

/-- What the steps keep: the counter and the bound. -/
structure Counted (maxConcurrency : Option UInt64) (s : Intake) : Prop where
  count : s.inFlight.toNat = s.unended maxConcurrency + s.refused maxConcurrency
  bounded : ∀ limit, maxConcurrency = some limit → s.unended maxConcurrency ≤ limit.toNat

theorem toNat_add_one {n : UInt64} (h : n.toNat + 1 < UInt64.size) :
    (n + 1).toNat = n.toNat + 1 := by
  rw [UInt64.toNat_add]
  exact Nat.mod_eq_of_lt h

theorem toNat_sub_one {n : UInt64} (h : 0 < n.toNat) : (n - 1).toNat = n.toNat - 1 := by
  rw [UInt64.toNat_sub]
  have := n.toNat_lt
  have one : (1 : UInt64).toNat = 1 := rfl
  omega

theorem saturated_iff {before : UInt64} :
    saturated maxConcurrency before = true ↔
      ∃ limit, maxConcurrency = some limit ∧ limit.toNat ≤ before.toNat := by
  cases maxConcurrency with
  | none => simp [saturated]
  | some limit => simp [saturated, UInt64.le_iff_toNat_le]

theorem saturated_eq_false {before : UInt64}
    (h : ∀ limit, maxConcurrency = some limit → before.toNat < limit.toNat) :
    saturated maxConcurrency before = false := by
  apply Bool.eq_false_iff.mpr
  intro full
  obtain ⟨limit, hlimit, le⟩ := saturated_iff.mp full
  exact absurd (h limit hlimit) (Nat.not_lt.mpr le)

theorem Counted.arrive {s : Intake} (h : Counted maxConcurrency s) (idle : s.acceptor = .ready)
    (url : String) (room : (s.draining = true → exemptFromDraining url = true) →
      countedUrl url = true → s.inFlight.toNat + 1 < UInt64.size) :
    Counted maxConcurrency (s.arrive url) := by
  unfold Intake.arrive
  split
  · exact h
  · next open_ =>
    have isOpen : s.draining = true → exemptFromDraining url = true := by
      intro draining
      simpa [draining] using open_
    obtain ⟨count, bounded⟩ := h
    simp only [Intake.unended, Intake.admitted, Intake.refused, idle, Nat.add_zero]
      at count bounded
    split
    · next hurl =>
      constructor
      · rw [toNat_add_one (room isOpen hurl), count]
        simp only [Intake.unended, Intake.running, Intake.admitted, Intake.refused]
        split <;> rfl
      · intro limit hlimit
        have le := bounded limit hlimit
        simp only [Intake.unended, Intake.running, Intake.admitted]
        split
        · exact le
        · next free =>
          rw [saturated_iff] at free
          have lt := Nat.lt_of_not_le fun le => free ⟨limit, hlimit, le⟩
          rw [count] at lt
          exact lt
    · constructor
      · simpa [Intake.unended, Intake.running, Intake.admitted, Intake.refused, idle]
          using count
      · simpa [Intake.unended, Intake.running, Intake.admitted, idle] using bounded

theorem Counted.decide {s : Intake} (h : Counted maxConcurrency s) {before : UInt64}
    (held : s.acceptor = .counted before) :
    Counted maxConcurrency (s.decide maxConcurrency before) := by
  obtain ⟨count, bounded⟩ := h
  simp only [Intake.unended, Intake.admitted, Intake.refused, held] at count bounded
  unfold Intake.decide
  split
  · next full =>
    simp only [full, if_true] at count bounded
    constructor
    · rw [toNat_sub_one (by omega), count]
      rfl
    · exact bounded
  · next free =>
    simp only [free, Bool.false_eq_true, if_false] at count bounded
    constructor
    · simpa [Intake.unended, Intake.running, Intake.admitted, Intake.refused] using count
    · simpa [Intake.unended, Intake.running, Intake.admitted] using bounded

/-- A thread that is gone is one less in flight if it was counted. -/
theorem unended_eraseIdx (maxConcurrency : Option UInt64) {s : Intake} {i : Nat}
    {t : HandlerThread} (h : s.threads[i]? = some t) (inFlight : UInt64) :
    Intake.unended maxConcurrency { s with inFlight, threads := s.threads.eraseIdx i } +
      (if t.counted then 1 else 0) = s.unended maxConcurrency := by
  have gone := countP_eraseIdx (p := (·.counted)) h
  simp only [Intake.unended, Intake.running, Intake.admitted]
  omega

theorem Counted.complete {s : Intake} (h : Counted maxConcurrency s) {i : Nat}
    {t : HandlerThread} (ht : s.threads[i]? = some t) :
    Counted maxConcurrency { s with
      inFlight := if t.counted then s.inFlight - 1 else s.inFlight
      threads := s.threads.eraseIdx i } := by
  have less := unended_eraseIdx maxConcurrency ht (if t.counted then s.inFlight - 1 else s.inFlight)
  obtain ⟨count, bounded⟩ := h
  constructor
  · change _ = _ + s.refused maxConcurrency
    by_cases counted : t.counted
    · simp only [counted, if_true] at less ⊢
      rw [toNat_sub_one (by omega)]
      omega
    · simp only [counted, Bool.false_eq_true, if_false] at less ⊢
      omega
  · intro limit hlimit
    have le := bounded limit hlimit
    omega

/-- A step that keeps the count right keeps what it kept so far. -/
theorem Counted.step {s t : Intake} {e : ServeEvent} (h : Counted maxConcurrency s)
    (keeps : KeepsCount s e) (hs : serveStep maxConcurrency s e = some t) :
    Counted maxConcurrency t := by
  cases e with
  | arrive url =>
      simp only [serveStep, Option.ite_none_right_eq_some, Option.some.injEq] at hs
      obtain ⟨idle, rfl⟩ := hs
      exact h.arrive idle url keeps
  | decide =>
      simp only [serveStep] at hs
      split at hs
      · next before held =>
        rw [← Option.some.inj hs]
        exact h.decide held
      · exact nomatch hs
  | complete i =>
      obtain ⟨thread, hthread, rfl⟩ := Option.map_eq_some_iff.mp hs
      exact h.complete hthread
  | panic i =>
      obtain ⟨thread, hthread, rfl⟩ := Option.map_eq_some_iff.mp hs
      have completed := h.complete hthread
      rwa [keeps thread hthread, if_neg Bool.false_ne_true] at completed
  | shutdown =>
      rw [← Option.some.inj hs]
      exact ⟨h.count, h.bounded⟩
  | checkDrain =>
      simp only [serveStep, Option.ite_none_right_eq_some, Option.some.injEq] at hs
      obtain ⟨⟨idle, -⟩, rfl⟩ := hs
      obtain ⟨count, bounded⟩ := h
      simp only [Intake.unended, Intake.admitted, Intake.refused, idle] at count bounded
      split
      · exact ⟨count, bounded⟩
      · constructor
        · simpa only [Intake.unended, Intake.admitted, Intake.refused, idle] using count
        · simpa only [Intake.unended, Intake.admitted, idle] using bounded
  | drainTimeout =>
      simp only [serveStep, Option.ite_none_right_eq_some, Option.some.injEq] at hs
      obtain ⟨⟨idle, -⟩, rfl⟩ := hs
      obtain ⟨count, bounded⟩ := h
      simp only [Intake.unended, Intake.admitted, Intake.refused, idle] at count bounded
      exact ⟨count, bounded⟩

theorem Counted.exact {s : Intake} (h : Counted maxConcurrency s) :
    AdmissionExact maxConcurrency s := by
  refine ⟨h.count, h.bounded, ?_, ?_⟩
  · intro idle draining ended
    have zero : s.inFlight = 0 := by
      apply UInt64.toNat_inj.mp
      rw [h.count, ended]
      simp only [Intake.refused, idle]
      rfl
    simp only [serveStep, idle, draining, zero, and_self, if_true]
  · intro idle url hurl hopen room
    have isOpen : (s.draining && !exemptFromDraining url) = false := by
      cases hd : s.draining with
      | false => rfl
      | true => rw [hopen hd]; rfl
    simp only [Intake.arrive, isOpen, Bool.false_eq_true, if_false, hurl, if_true,
      Intake.admitted]
    have count := h.count
    simp only [Intake.refused, idle, Nat.add_zero] at count
    have free : saturated maxConcurrency s.inFlight = false := by
      apply saturated_eq_false
      intro limit hlimit
      rw [count]
      exact room limit hlimit
    rw [free]
    rfl

/-- A handler that unwinds leaves its request counted, and a counter past its last value counts
nothing: either shows at once. -/
theorem keepsCount_of_exact {s t : Intake} {e : ServeEvent} (h : Counted maxConcurrency s)
    (hs : serveStep maxConcurrency s e = some t) (exact : AdmissionExact maxConcurrency t) :
    KeepsCount s e := by
  cases e with
  | arrive url =>
      intro isOpen hurl
      simp only [serveStep, Option.ite_none_right_eq_some, Option.some.injEq] at hs
      obtain ⟨idle, rfl⟩ := hs
      have before := h.count
      have after := exact.count
      simp only [Intake.unended, Intake.admitted, Intake.refused, idle, Nat.add_zero] at before
      have shut : (s.draining && !exemptFromDraining url) = false := by
        cases hd : s.draining with
        | false => rfl
        | true => rw [isOpen hd]; rfl
      have one : s.running + 1 = (s.inFlight + 1).toNat := by
        rw [Intake.arrive, shut, if_neg Bool.false_ne_true, if_pos hurl] at after
        rw [after]
        simp only [Intake.unended, Intake.running, Intake.admitted, Intake.refused]
        split <;> rfl
      rw [before, one]
      exact UInt64.toNat_lt _
  | panic i =>
      intro thread hthread
      obtain ⟨-, -, rfl⟩ := Option.map_eq_some_iff.mp hs
      have less := unended_eraseIdx maxConcurrency hthread s.inFlight
      have before := h.count
      have after := exact.count
      change s.inFlight.toNat = _ + s.refused maxConcurrency at after
      by_contra counted
      rw [Bool.not_eq_false] at counted
      rw [if_pos counted] at less
      omega
  | _ => trivial

/-- Admission counts right in all states of a run just where no handler of a counted request
unwinds in it, and no request comes with every value of the counter in flight. -/
theorem admission_exact_iff (maxConcurrency : Option UInt64) (events : List ServeEvent) :
    (∀ before s, before <+: events → runFrom (serveStep maxConcurrency) .start before = some s →
      AdmissionExact maxConcurrency s) ↔
      AllSteps (serveStep maxConcurrency) KeepsCount .start events := by
  have keep : ∀ s e t, Counted maxConcurrency s → KeepsCount s e →
      serveStep maxConcurrency s e = some t → Counted maxConcurrency t :=
    fun _ _ _ h keeps hs => h.step keeps hs
  apply good_states_iff_allSteps keep
  · intro s h
    exact h.exact
  · intro s e t h hs exact
    exact keepsCount_of_exact h hs exact
  · exact ⟨rfl, fun _ _ => Nat.zero_le _⟩

/-- One unwinding handler under `--max-concurrency 1`: nothing runs, and every later request is
turned away. -/
theorem pingPanics_not_exact :
    runFrom (serveStep (some 1)) .start [.arrive "/Sys/ping", .decide, .panic 0] =
        some ⟨1, false, .ready, []⟩ ∧
      ¬ AdmissionExact (some 1) ⟨1, false, .ready, []⟩ := by
  refine ⟨by decide, ?_⟩
  intro exact
  exact absurd exact.count (by decide)

end CScript.Server
