import Mathlib.Algebra.Order.Ring.Defs
import Mathlib.Tactic.Linarith
import Mathlib.Tactic.Ring

/-!
# Token buckets

A bucket holds at most `capacity` tokens and fills at `rate`; whoever finds a whole token takes
it. The number taken in an interval is bounded by the capacity and what flows in meanwhile, and a
bucket from which little was taken of late has a token.
-/
namespace CScript.Lib

structure TokenBucket (K : Type*) where
  tokens : K
  last : K

namespace TokenBucket

variable {K : Type*} [CommRing K] [LinearOrder K] (capacity rate : K)

/-- The tokens of a bucket at a time; one that was never used is full. -/
def level : Option (TokenBucket K) → K → K
  | none, _ => capacity
  | some b, now => min (b.tokens + (now - b.last) * rate) capacity

/-- One attempt to take a token. -/
def take (b : Option (TokenBucket K)) (now : K) : TokenBucket K × Bool :=
  (⟨level capacity rate b now - if 1 ≤ level capacity rate b now then 1 else 0, now⟩,
    decide (1 ≤ level capacity rate b now))

/-- A series of attempts: each with its time and whether it got a token. -/
def attempts : Option (TokenBucket K) → List K → List (K × Bool)
  | _, [] => []
  | b, now :: times =>
      (now, (take capacity rate b now).2) ::
        attempts (some (take capacity rate b now).1) times

/-- A bucket as attempts up to a time leave it. -/
structure Sound (b : TokenBucket K) (now : K) : Prop where
  nonneg : 0 ≤ b.tokens
  le_capacity : b.tokens ≤ capacity
  past : b.last ≤ now

variable {capacity rate} {b : Option (TokenBucket K)} {now : K}

theorem level_le : level capacity rate b now ≤ capacity := by
  cases b with
  | none => exact le_rfl
  | some b => exact min_le_right _ _

theorem Sound.later {x : TokenBucket K} (h : Sound capacity x now) {after : K} (le : now ≤ after) :
    Sound capacity x after := ⟨h.nonneg, h.le_capacity, h.past.trans le⟩

theorem mem_attempts {m : K × Bool} {times : List K} (h : m ∈ attempts capacity rate b times) :
    m.1 ∈ times := by
  induction times generalizing b with
  | nil => exact nomatch h
  | cons now times ih =>
      rcases List.mem_cons.mp h with rfl | h
      · exact List.mem_cons_self
      · exact List.mem_cons_of_mem _ (ih h)

/-- The attempts of a closed interval that got a token. -/
def takenIn (a e : K) (made : List (K × Bool)) : Nat :=
  made.countP fun m => m.2 && decide (a ≤ m.1 ∧ m.1 ≤ e)

omit [CommRing K] in
theorem takenIn_late {a e : K} {made : List (K × Bool)} (h : ∀ m ∈ made, e < m.1) :
    takenIn a e made = 0 := by
  apply List.countP_eq_zero.mpr
  intro m hm
  simp [not_le.mpr (h m hm)]

theorem takenIn_attempts_late {a e : K} {times : List K} (sorted : (now :: times).Pairwise (· ≤ ·))
    (late : e < now) : takenIn a e (attempts capacity rate b (now :: times)) = 0 := by
  apply takenIn_late
  intro m hm
  rcases List.mem_cons.mp (mem_attempts hm) with same | mem
  · rw [same]
    exact late
  · exact late.trans_le (List.rel_of_pairwise_cons sorted mem)

theorem takenIn_attempts_cons_le {a e : K} {times : List K} :
    takenIn a e (attempts capacity rate b (now :: times)) ≤
      takenIn a e (attempts capacity rate (some (take capacity rate b now).1) times) +
        if 1 ≤ level capacity rate b now then 1 else 0 := by
  rw [attempts, takenIn, List.countP_cons, ← takenIn]
  apply Nat.add_le_add_left
  by_cases token : 1 ≤ level capacity rate b now
  · rw [if_pos token]
    split <;> decide
  · rw [if_neg token, take, decide_eq_false token]
    exact le_rfl

variable [IsStrictOrderedRing K]

theorem level_nonneg (hc : 0 ≤ capacity) (hr : 0 ≤ rate) (sound : ∀ x ∈ b, Sound capacity x now) :
    0 ≤ level capacity rate b now := by
  cases b with
  | none => exact hc
  | some b =>
      have h := sound b rfl
      have flow := mul_nonneg (sub_nonneg.mpr h.past) hr
      exact le_min (add_nonneg h.nonneg flow) hc

theorem take_sound (hc : 0 ≤ capacity) (hr : 0 ≤ rate) (sound : ∀ x ∈ b, Sound capacity x now) :
    Sound capacity (take capacity rate b now).1 now := by
  have nonneg := level_nonneg hc hr sound
  have le : level capacity rate b now ≤ capacity := level_le
  rw [take]
  split
  · next token =>
    exact ⟨sub_nonneg.mpr token, (sub_le_self _ zero_le_one).trans le, le_rfl⟩
  · rw [sub_zero]
    exact ⟨nonneg, le, le_rfl⟩

/-! ## What may be taken at most -/

/-- From a bucket on, no more is taken than what it holds and what flows in. -/
theorem takenIn_le_of_bucket (hc : 0 ≤ capacity) (hr : 0 ≤ rate) {x : TokenBucket K} {a e : K}
    (sound : Sound capacity x e) {times : List K} (sorted : times.Pairwise (· ≤ ·))
    (later : ∀ t ∈ times, x.last ≤ t) :
    (takenIn a e (attempts capacity rate (some x) times) : K) ≤
      x.tokens + (e - x.last) * rate := by
  induction times generalizing x with
  | nil =>
      have flow := mul_nonneg (sub_nonneg.mpr sound.past) hr
      simpa [attempts, takenIn] using add_nonneg sound.nonneg flow
  | cons now times ih =>
      by_cases inside : now ≤ e
      · have before : ∀ y ∈ some x, Sound capacity y now := by
          rintro _ ⟨⟩
          exact ⟨sound.nonneg, sound.le_capacity, later now List.mem_cons_self⟩
        have rest := ih ((take_sound hc hr before).later inside) sorted.of_cons
          fun t ht => List.rel_of_pairwise_cons sorted ht
        have here : (takenIn a e (attempts capacity rate (some x) (now :: times)) : K) ≤ _ :=
          Nat.cast_le.mpr takenIn_attempts_cons_le
        have found : level capacity rate (some x) now ≤ x.tokens + (now - x.last) * rate :=
          min_le_left _ _
        push_cast at here
        simp only [take] at rest here
        linarith
      · rw [takenIn_attempts_late sorted (not_le.mp inside), Nat.cast_zero]
        exact add_nonneg sound.nonneg (mul_nonneg (sub_nonneg.mpr sound.past) hr)

/-- In an interval no more is taken than a full bucket and what flows in. -/
theorem takenIn_le (hc : 0 ≤ capacity) (hr : 0 ≤ rate) {a e : K} (le : a ≤ e) {times : List K}
    (sorted : times.Pairwise (· ≤ ·)) (sound : ∀ x ∈ b, ∀ t ∈ times, Sound capacity x t) :
    (takenIn a e (attempts capacity rate b times) : K) ≤ capacity + (e - a) * rate := by
  have room : 0 ≤ capacity + (e - a) * rate :=
    add_nonneg hc (mul_nonneg (sub_nonneg.mpr le) hr)
  induction times generalizing b with
  | nil => simpa [attempts, takenIn] using room
  | cons now times ih =>
      have before : ∀ x ∈ b, Sound capacity x now := fun x hx => sound x hx now List.mem_cons_self
      have next := take_sound hc hr before
      have first : ∀ t ∈ times, now ≤ t := fun t ht => List.rel_of_pairwise_cons sorted ht
      by_cases early : now < a
      · have skipped : takenIn a e (attempts capacity rate b (now :: times)) =
            takenIn a e (attempts capacity rate (some (take capacity rate b now).1) times) := by
          rw [attempts, takenIn, List.countP_cons, ← takenIn]
          simp [not_le.mpr early]
        rw [skipped]
        apply ih sorted.of_cons
        rintro _ ⟨⟩ t ht
        exact next.later (first t ht)
      by_cases inside : now ≤ e
      · have rest := takenIn_le_of_bucket (a := a) hc hr (next.later inside) sorted.of_cons first
        have here : (takenIn a e (attempts capacity rate b (now :: times)) : K) ≤ _ :=
          Nat.cast_le.mpr takenIn_attempts_cons_le
        have found : level capacity rate b now ≤ capacity := level_le
        have flow : (e - now) * rate ≤ (e - a) * rate :=
          mul_le_mul_of_nonneg_right (sub_le_sub_left (not_lt.mp early) e) hr
        push_cast at here
        simp only [take] at rest here
        linarith
      · rw [takenIn_attempts_late sorted (not_le.mp inside), Nat.cast_zero]
        exact room

/-! ## What is taken at least -/

/-- The times at which a series got a token. -/
def gotAt (made : List (K × Bool)) : List K := (made.filter (·.2)).map (·.1)

/-- The bucket that a series leaves. -/
def after (capacity rate : K) : Option (TokenBucket K) → List K → Option (TokenBucket K)
  | b, [] => b
  | b, now :: times => after capacity rate (some (take capacity rate b now).1) times

omit [IsStrictOrderedRing K] in
theorem attempts_append (xs ys : List K) :
    attempts capacity rate b (xs ++ ys) =
      attempts capacity rate b xs ++ attempts capacity rate (after capacity rate b xs) ys := by
  induction xs generalizing b with
  | nil => rfl
  | cons x xs ih => exact congrArg _ ih

omit [IsStrictOrderedRing K] in
theorem length_attempts (times : List K) :
    (attempts capacity rate b times).length = times.length := by
  induction times generalizing b with
  | nil => rfl
  | cons now times ih => exact congrArg Nat.succ ih

omit [IsStrictOrderedRing K] in
/-- An attempt of a series, with the attempts before it. -/
theorem attempts_at {times : List K} {i : Nat} {taken : Bool}
    (h : (attempts capacity rate b times)[i]? = some (now, taken)) :
    ∃ before later, times = before ++ now :: later ∧
      (attempts capacity rate b times).take i = attempts capacity rate b before ∧
      taken = decide (1 ≤ level capacity rate (after capacity rate b before) now) := by
  induction times generalizing b i with
  | nil => exact nomatch h
  | cons t times ih =>
      cases i with
      | zero =>
          cases h
          exact ⟨[], times, rfl, rfl, rfl⟩
      | succ i =>
          obtain ⟨before, later, rfl, made, found⟩ := ih h
          exact ⟨t :: before, later, rfl, congrArg (_ :: ·) made, found⟩

/-- Of the full bucket no more is missing than what was got within the last window. -/
def Refilled (capacity rate window : K) (got : List K) (b : Option (TokenBucket K)) (now : K) :
    Prop :=
  ∀ t, now ≤ t →
    capacity - (got.countP fun g => decide (t < g + window) : Nat) ≤ level capacity rate b t

theorem level_le_add (hr : 0 ≤ rate) {t : K} (le : now ≤ t) :
    level capacity rate b t ≤ level capacity rate b now + (t - now) * rate := by
  have flow := mul_nonneg (sub_nonneg.mpr le) hr
  cases b with
  | none => exact le_add_of_nonneg_right flow
  | some b =>
      have through : b.tokens + (t - b.last) * rate =
          b.tokens + (now - b.last) * rate + (t - now) * rate := by ring
      rw [level, level, through, ← min_add_add_right]
      exact min_le_min_left _ (le_add_of_nonneg_right flow)

theorem refilled_take {window : K} (hc : 0 ≤ capacity) (hr : 0 ≤ rate)
    (hw : window * rate = capacity) {got : List K} (sound : ∀ x ∈ b, Sound capacity x now)
    (h : Refilled capacity rate window got b now) :
    Refilled capacity rate window (got ++ if (take capacity rate b now).2 then [now] else [])
      (some (take capacity rate b now).1) now := by
  intro t ht
  have nonneg := (take_sound hc hr sound).nonneg
  apply le_min
  · change _ ≤ (take capacity rate b now).1.tokens + (t - now) * rate
    by_cases within : t < now + window
    · have here := h t ht
      have flow : level capacity rate b t ≤ level capacity rate b now + (t - now) * rate :=
        level_le_add hr ht
      rw [List.countP_append]
      by_cases token : 1 ≤ level capacity rate b now
      · simp only [take, token, decide_true, if_true, List.countP_singleton, within]
        push_cast
        linarith
      · simp only [take, token, decide_false, Bool.false_eq_true, if_false, List.countP_nil]
        push_cast
        linarith
    · have full : window * rate ≤ (t - now) * rate :=
        mul_le_mul_of_nonneg_right (by linarith [not_lt.mp within]) hr
      have missing : capacity - ((got ++ if (take capacity rate b now).2 then [now] else []).countP
          (fun g => decide (t < g + window)) : Nat) ≤ capacity := sub_le_self _ (Nat.cast_nonneg _)
      linarith
  · exact sub_le_self _ (Nat.cast_nonneg _)

theorem refilled_after {window : K} (hc : 0 ≤ capacity) (hr : 0 ≤ rate)
    (hw : window * rate = capacity) {got : List K} {times : List K} {clock : K}
    (sorted : (times ++ [clock]).Pairwise (· ≤ ·))
    (sound : ∀ x ∈ b, ∀ t ∈ times ++ [clock], Sound capacity x t)
    (h : ∀ t ∈ times ++ [clock], Refilled capacity rate window got b t) :
    Refilled capacity rate window (got ++ gotAt (attempts capacity rate b times))
      (after capacity rate b times) clock := by
  induction times generalizing b got with
  | nil => simpa [gotAt, attempts, after] using h clock (by simp)
  | cons now times ih =>
      have first : ∀ t ∈ times ++ [clock], now ≤ t :=
        fun t ht => List.rel_of_pairwise_cons sorted ht
      have before : ∀ x ∈ b, Sound capacity x now := fun x hx => sound x hx now (by simp)
      have next := take_sound hc hr before
      have kept := refilled_take hc hr hw before (h now (by simp))
      have rest := ih sorted.of_cons (b := some (take capacity rate b now).1)
        (by rintro _ ⟨⟩ t ht; exact next.later (first t ht))
        (fun t ht u hu => kept u ((first t ht).trans hu))
      rw [List.append_assoc] at rest
      have parts : gotAt (attempts capacity rate b (now :: times)) =
          (if (take capacity rate b now).2 then [now] else []) ++
            gotAt (attempts capacity rate (some (take capacity rate b now).1) times) := by
        rw [attempts, gotAt, List.filter_cons]
        split <;> rfl
      rw [parts]
      exact rest

/-- A bucket of which less than all was got within the last window has a token. -/
theorem token_of_few {window : K} (hc : 0 ≤ capacity) (hr : 0 ≤ rate)
    (hw : window * rate = capacity) {times : List K} {now : K}
    (sorted : (times ++ [now]).Pairwise (· ≤ ·))
    (few : ((gotAt (attempts capacity rate none times)).countP
      fun g => decide (now < g + window) : Nat) + 1 ≤ capacity) :
    1 ≤ level capacity rate (after capacity rate none times) now := by
  have full : ∀ t ∈ times ++ [now], Refilled capacity rate window [] none t :=
    fun _ _ _ _ => sub_le_self _ (Nat.cast_nonneg _)
  have unused : ∀ x ∈ (none : Option (TokenBucket K)), ∀ t ∈ times ++ [now], Sound capacity x t :=
    fun _ h => absurd h (Option.not_mem_none _)
  have left := refilled_after hc hr hw sorted unused full now le_rfl
  rw [List.nil_append] at left
  linarith

/-- A bucket that was left alone for as long as a window is full. -/
theorem level_of_idle {window : K} (hr : 0 ≤ rate) (hw : window * rate = capacity)
    {x : TokenBucket K} (nonneg : 0 ≤ x.tokens) (idle : window ≤ now - x.last) :
    level capacity rate (some x) now = capacity := by
  apply min_eq_right
  have flow := mul_le_mul_of_nonneg_right idle hr
  rw [hw] at flow
  linarith

end TokenBucket

end CScript.Lib
