import Mathlib.Logic.Basic

/-!
# Computations with a non-local exit

A computation over a state ends with a value, fails, runs out of fuel, or leaves: an exit
passes through whatever follows until something absorbs it. Two computations that absorb it
in different places are compared along the runs that keep a condition on their states.
-/

namespace CScript.Lib

/-- How a computation ends. -/
inductive Outcome (ε ρ α : Type) where
  | value (a : α)
  | left (v : ρ)
  | failed (e : ε)
  | outOfFuel

/-- A computation over the states `σ`. Also one that fails may change the state. -/
def Comp (σ ε ρ α : Type) : Type := σ → Outcome ε ρ α × σ

namespace Comp

variable {σ ε ρ α β : Type}

def bind (m : Comp σ ε ρ α) (f : α → Comp σ ε ρ β) : Comp σ ε ρ β := fun s =>
  match m s with
  | (.value a, t) => f a t
  | (.left v, t) => (.left v, t)
  | (.failed e, t) => (.failed e, t)
  | (.outOfFuel, t) => (.outOfFuel, t)

instance : Monad (Comp σ ε ρ) where
  pure a := fun s => (.value a, s)
  bind := bind

def leave (v : ρ) : Comp σ ε ρ α := fun s => (.left v, s)

def fail (e : ε) : Comp σ ε ρ α := fun s => (.failed e, s)

def exhausted : Comp σ ε ρ α := fun s => (.outOfFuel, s)

def lift : Except ε α → Comp σ ε ρ α
  | .ok a => pure a
  | .error e => fail e

/-- A primitive: it reads the state and changes it, and may fail. -/
def act (f : σ → Except ε α × σ) : Comp σ ε ρ α := fun s => lift (f s).1 (f s).2

/-- The value of an exit is the value of the computation. -/
def absorb (m : Comp σ ε ρ ρ) : Comp σ ε ρ ρ := fun s =>
  match m s with
  | (.left v, t) => (.value v, t)
  | r => r

/-- The failure of a computation as a value. -/
def attempt (m : Comp σ ε ρ α) : Comp σ ε ρ (Except ε α) := fun s =>
  match m s with
  | (.value a, t) => (.value (.ok a), t)
  | (.left v, t) => (.left v, t)
  | (.failed e, t) => (.value (.error e), t)
  | (.outOfFuel, t) => (.outOfFuel, t)

/-- What follows an outcome: `close` after a value and after an exit, `undo` after a failure. -/
def after (close undo : Comp σ ε ρ Unit) : Outcome ε ρ α → Comp σ ε ρ α
  | .value a => bind close fun _ => pure a
  | .left v => bind close fun _ => leave v
  | .failed e => bind undo fun _ => fail e
  | .outOfFuel => exhausted

def settle (m : Comp σ ε ρ α) (close undo : Comp σ ε ρ Unit) : Comp σ ε ρ α := fun s =>
  after close undo (m s).1 (m s).2

/-! ## Comparing along the runs that keep a condition -/

variable (ok : σ → Prop) (P Q : ρ → Prop)

/-- In the runs of `m` that end well, `n` does the same, and an exit satisfies `P`. A run
that ends well has been well from its start. -/
def Passes (m n : Comp σ ε ρ α) : Prop :=
  ∀ s, ok (m s).2 → ok s ∧ n s = m s ∧ ∀ v, (m s).1 = .left v → P v

/-- No exit at all. -/
def Never : ρ → Prop := fun _ => False

/-- In the runs of `m` that end well, `n` does the same once its exits are absorbed. -/
def Absorbs (m n : Comp σ ε ρ ρ) : Prop :=
  ∀ s, ok (m s).2 → ok s ∧ absorb n s = m s ∧ ∀ v, (n s).1 = .left v → P v

variable {ok P Q}

theorem pure_bind (a : α) (f : α → Comp σ ε ρ β) : (pure a : Comp σ ε ρ α) >>= f = f a := rfl

theorem bind_assoc {γ : Type} (m : Comp σ ε ρ α) (f : α → Comp σ ε ρ β) (g : β → Comp σ ε ρ γ) :
    m >>= f >>= g = m >>= fun a => f a >>= g := by
  funext s
  change bind (bind m f) g s = bind m (fun a => bind (f a) g) s
  unfold bind
  rcases m s with ⟨o, t⟩
  cases o <;> rfl

theorem bind_value {m : Comp σ ε ρ α} {f : α → Comp σ ε ρ β} {s t : σ} {a : α}
    (h : m s = (.value a, t)) : (m >>= f) s = f a t := by
  change bind m f s = f a t
  rw [bind, h]

theorem bind_left {m : Comp σ ε ρ α} {f : α → Comp σ ε ρ β} {s t : σ} {v : ρ}
    (h : m s = (.left v, t)) : (m >>= f) s = (.left v, t) := by
  change bind m f s = _
  rw [bind, h]

theorem bind_failed {m : Comp σ ε ρ α} {f : α → Comp σ ε ρ β} {s t : σ} {e : ε}
    (h : m s = (.failed e, t)) : (m >>= f) s = (.failed e, t) := by
  change bind m f s = _
  rw [bind, h]

theorem bind_outOfFuel {m : Comp σ ε ρ α} {f : α → Comp σ ε ρ β} {s t : σ}
    (h : m s = (.outOfFuel, t)) : (m >>= f) s = (.outOfFuel, t) := by
  change bind m f s = _
  rw [bind, h]

theorem bind_eq_value {m : Comp σ ε ρ α} {f : α → Comp σ ε ρ β} {s : σ} {b : β}
    (h : ((m >>= f) s).1 = .value b) : ∃ a t, m s = (.value a, t) ∧ (f a t).1 = .value b := by
  rcases hm : m s with ⟨o, t⟩
  cases o with
  | value a => exact ⟨a, t, rfl, by rw [← bind_value (f := f) hm]; exact h⟩
  | left v => rw [bind_left hm] at h; cases h
  | failed e => rw [bind_failed hm] at h; cases h
  | outOfFuel => rw [bind_outOfFuel hm] at h; cases h

theorem lift_eq_value {r : Except ε α} {s t : σ} {a : α}
    (h : (lift r : Comp σ ε ρ α) s = (.value a, t)) : r = .ok a := by
  cases r with
  | ok b => cases h; rfl
  | error e => cases h

theorem absorb_eq_self {m : Comp σ ε ρ ρ} {s : σ} (h : ∀ v, (m s).1 ≠ .left v) :
    absorb m s = m s := by
  unfold absorb
  split
  case h_1 v t hm => exact absurd (by rw [hm]) (h v)
  · rfl

theorem absorb_left {m : Comp σ ε ρ ρ} {s t : σ} {v : ρ} (h : m s = (.left v, t)) :
    absorb m s = (.value v, t) := by
  rw [absorb, h]

theorem absorb_ne_left (m : Comp σ ε ρ ρ) (s : σ) (v : ρ) : (absorb m s).1 ≠ .left v := by
  unfold absorb
  split
  · exact fun h => nomatch h
  case h_2 hm =>
    intro h
    exact hm v (m s).2 (Prod.ext h rfl)

theorem absorb_eq {m : Comp σ ε ρ ρ} {s t : σ} {o : Outcome ε ρ ρ} (h : absorb m s = (o, t)) :
    m s = (o, t) ∨ ∃ v, m s = (.left v, t) ∧ o = .value v := by
  rcases hm : m s with ⟨o', t'⟩
  cases o' with
  | left v =>
      rw [absorb_left hm] at h
      cases h
      exact .inr ⟨v, rfl, rfl⟩
  | _ =>
      rw [absorb, hm] at h
      exact .inl h

namespace Passes

theorem mono {m n : Comp σ ε ρ α} (h : Passes ok P m n) (hPQ : ∀ v, P v → Q v) :
    Passes ok Q m n := by
  intro s hs
  obtain ⟨hok, heq, hexit⟩ := h s hs
  exact ⟨hok, heq, fun v hv => hPQ v (hexit v hv)⟩

theorem of_never {m n : Comp σ ε ρ α} (h : Passes ok Never m n) : Passes ok P m n :=
  h.mono fun _ hv => hv.elim

theorem pure (a : α) : Passes ok P (Pure.pure a : Comp σ ε ρ α) (Pure.pure a) :=
  fun _ hs => ⟨hs, rfl, fun _ h => nomatch h⟩

theorem fail (e : ε) : Passes ok P (Comp.fail e : Comp σ ε ρ α) (Comp.fail e) :=
  fun _ hs => ⟨hs, rfl, fun _ h => nomatch h⟩

theorem exhausted : Passes ok P (Comp.exhausted : Comp σ ε ρ α) Comp.exhausted :=
  fun _ hs => ⟨hs, rfl, fun _ h => nomatch h⟩

theorem lift (r : Except ε α) : Passes ok P (Comp.lift r : Comp σ ε ρ α) (Comp.lift r) := by
  cases r with
  | ok a => exact pure a
  | error e => exact fail e

/-- A primitive that does not make a bad state good. -/
theorem act {f : σ → Except ε α × σ} (h : ∀ s, ok (f s).2 → ok s) :
    Passes ok P (Comp.act f : Comp σ ε ρ α) (Comp.act f) := by
  intro s hs
  have hlift := @lift σ ε ρ α ok P (f s).1 (f s).2 hs
  exact ⟨h s hlift.1, rfl, hlift.2.2⟩

theorem bind {m n : Comp σ ε ρ α} {f g : α → Comp σ ε ρ β} (h : Passes ok P m n)
    (hf : ∀ a, Passes ok P (f a) (g a)) : Passes ok P (m >>= f) (n >>= g) := by
  intro s hs
  rcases hm : m s with ⟨o, t⟩
  cases o with
  | value a =>
      rw [bind_value hm] at hs ⊢
      obtain ⟨hok, heq, hexit⟩ := hf a t hs
      obtain ⟨hok', heq', -⟩ := h s (by rw [hm]; exact hok)
      rw [bind_value (heq'.trans hm)]
      exact ⟨hok', heq, hexit⟩
  | left v =>
      rw [bind_left hm] at hs ⊢
      obtain ⟨hok, heq, hexit⟩ := h s (by rw [hm]; exact hs)
      rw [bind_left (heq.trans hm)]
      refine ⟨hok, rfl, fun w hw => hexit w ?_⟩
      cases hw
      rw [hm]
  | failed e =>
      rw [bind_failed hm] at hs ⊢
      obtain ⟨hok, heq, -⟩ := h s (by rw [hm]; exact hs)
      rw [bind_failed (heq.trans hm)]
      exact ⟨hok, rfl, fun w hw => nomatch hw⟩
  | outOfFuel =>
      rw [bind_outOfFuel hm] at hs ⊢
      obtain ⟨hok, heq, -⟩ := h s (by rw [hm]; exact hs)
      rw [bind_outOfFuel (heq.trans hm)]
      exact ⟨hok, rfl, fun w hw => nomatch hw⟩

/-- An exit with a value that is allowed. -/
theorem leave {v : ρ} (h : P v) : Passes ok P (Comp.leave v : Comp σ ε ρ α) (Comp.leave v) := by
  intro s hs
  refine ⟨hs, rfl, fun w hw => ?_⟩
  cases hw
  exact h

theorem attempt {m n : Comp σ ε ρ α} (h : Passes ok P m n) :
    Passes ok P (Comp.attempt m) (Comp.attempt n) := by
  intro s hs
  rcases hm : m s with ⟨o, t⟩
  have hend : (Comp.attempt m s).2 = t := by
    unfold Comp.attempt
    rw [hm]
    cases o <;> rfl
  obtain ⟨hok, heq, hexit⟩ := h s (by rw [hm]; rw [hend] at hs; exact hs)
  refine ⟨hok, ?_, fun v hv => hexit v ?_⟩
  · unfold Comp.attempt
    rw [heq]
  · unfold Comp.attempt at hv
    rw [hm] at hv ⊢
    cases o with
    | left w =>
        cases hv
        rfl
    | _ => exact nomatch hv

/-- What never exits is the same with its exits absorbed. -/
theorem absorbs {m n : Comp σ ε ρ ρ} (h : Passes ok Never m n) : Absorbs ok P m n := by
  intro s hs
  obtain ⟨hok, heq, hexit⟩ := h s hs
  rw [← heq] at hexit
  exact ⟨hok, by rw [absorb_eq_self hexit, heq], fun v hv => (hexit v hv).elim⟩

end Passes

namespace Absorbs

/-- Where no exit is allowed the two are the same. -/
theorem passes {m n : Comp σ ε ρ ρ} (h : Absorbs ok Never m n) : Passes ok P m n := by
  intro s hs
  obtain ⟨hok, heq, hexit⟩ := h s hs
  rw [absorb_eq_self hexit] at heq
  exact ⟨hok, heq, fun v hv => (hexit v (by rw [heq]; exact hv)).elim⟩

theorem absorbed {m n : Comp σ ε ρ ρ} (h : Absorbs ok P m n) : Passes ok Q m (absorb n) := by
  intro s hs
  obtain ⟨hok, heq, -⟩ := h s hs
  exact ⟨hok, heq, fun v hv => (absorb_ne_left n s v (by rw [heq]; exact hv)).elim⟩

theorem mono {m n : Comp σ ε ρ ρ} (h : Absorbs ok P m n) (hPQ : ∀ v, P v → Q v) :
    Absorbs ok Q m n := by
  intro s hs
  obtain ⟨hok, heq, hexit⟩ := h s hs
  exact ⟨hok, heq, fun v hv => hPQ v (hexit v hv)⟩

/-- What comes before passes on no exit, the rest may exit. -/
theorem bind {m n : Comp σ ε ρ α} {f g : α → Comp σ ε ρ ρ} (h : Passes ok Never m n)
    (hf : ∀ a, Absorbs ok P (f a) (g a)) : Absorbs ok P (m >>= f) (n >>= g) := by
  intro s hs
  rcases hm : m s with ⟨o, t⟩
  cases o with
  | value a =>
      rw [bind_value hm] at hs ⊢
      obtain ⟨hok, heq, hexit⟩ := hf a t hs
      obtain ⟨hok', heq', -⟩ := h s (by rw [hm]; exact hok)
      have hn : (n >>= g) s = g a t := bind_value (heq'.trans hm)
      refine ⟨hok', ?_, by rw [hn]; exact hexit⟩
      rw [← heq]
      unfold absorb
      rw [hn]
  | left v =>
      rw [bind_left hm] at hs ⊢
      obtain ⟨-, -, hexit⟩ := h s (by rw [hm]; exact hs)
      exact (hexit v (by rw [hm])).elim
  | failed e =>
      rw [bind_failed hm] at hs ⊢
      obtain ⟨hok, heq, -⟩ := h s (by rw [hm]; exact hs)
      have hn : (n >>= g) s = (.failed e, t) := bind_failed (heq.trans hm)
      exact ⟨hok, by rw [absorb, hn], by rw [hn]; exact fun w hw => nomatch hw⟩
  | outOfFuel =>
      rw [bind_outOfFuel hm] at hs ⊢
      obtain ⟨hok, heq, -⟩ := h s (by rw [hm]; exact hs)
      have hn : (n >>= g) s = (.outOfFuel, t) := bind_outOfFuel (heq.trans hm)
      exact ⟨hok, by rw [absorb, hn], by rw [hn]; exact fun w hw => nomatch hw⟩

/-- To leave with the value of a computation is to leave with the value of its exit. -/
theorem leave {m n : Comp σ ε ρ ρ} (h : Absorbs ok P m n) (hQ : ∀ v, Q v) :
    Passes ok Q (m >>= fun v => (Comp.leave v : Comp σ ε ρ α)) (n >>= fun v => Comp.leave v) := by
  intro s hs
  rcases hm : m s with ⟨o, t⟩
  have hend : ((m >>= fun v => (Comp.leave v : Comp σ ε ρ α)) s).2 = t := by
    cases o with
    | value a => rw [bind_value hm]; rfl
    | left v => rw [bind_left hm]
    | failed e => rw [bind_failed hm]
    | outOfFuel => rw [bind_outOfFuel hm]
  obtain ⟨hok, heq, -⟩ := h s (by rw [hm, ← hend]; exact hs)
  refine ⟨hok, ?_, fun v _ => hQ v⟩
  rw [hm] at heq
  obtain hn | ⟨v, hn, rfl⟩ := absorb_eq heq
  · cases o with
    | value a => rw [bind_value hm, bind_value hn]
    | left v => exact (absorb_ne_left n s v (by rw [heq])).elim
    | failed e => rw [bind_failed hm, bind_failed hn]
    | outOfFuel => rw [bind_outOfFuel hm, bind_outOfFuel hn]
  · rw [bind_value hm, bind_left hn]
    rfl

/-! ### Bodies: a computation that absorbs its own exits at its end -/

/-- What has no exit is unchanged by absorbing. -/
theorem body {m n : Comp σ ε ρ ρ} (h : Absorbs ok P m n) : Absorbs ok P (absorb m) n := by
  intro s hs
  have hend : (absorb m s).2 = (m s).2 := by
    unfold absorb
    rcases m s with ⟨o, t⟩
    cases o <;> rfl
  rw [hend] at hs
  obtain ⟨hok, heq, hexit⟩ := h s hs
  refine ⟨hok, ?_, hexit⟩
  rw [heq, absorb_eq_self]
  rw [← heq]
  exact absorb_ne_left n s

/-- A step of a body may exit as the body may. -/
theorem body_bind {m n : Comp σ ε ρ α} {f g : α → Comp σ ε ρ ρ} (h : Passes ok P m n)
    (hf : ∀ a, Absorbs ok P (absorb (f a)) (g a)) :
    Absorbs ok P (absorb (m >>= f)) (n >>= g) := by
  intro s hs
  rcases hm : m s with ⟨o, t⟩
  cases o with
  | value a =>
      have habsorb : absorb (m >>= f) s = absorb (f a) t := by
        unfold absorb
        rw [bind_value hm]
      rw [habsorb] at hs ⊢
      obtain ⟨hok, heq, hexit⟩ := hf a t hs
      obtain ⟨hok', heq', -⟩ := h s (by rw [hm]; exact hok)
      have hn : (n >>= g) s = g a t := bind_value (heq'.trans hm)
      refine ⟨hok', ?_, by rw [hn]; exact hexit⟩
      rw [← heq]
      unfold absorb
      rw [hn]
  | left v =>
      have habsorb : absorb (m >>= f) s = (.value v, t) := absorb_left (bind_left hm)
      rw [habsorb] at hs ⊢
      obtain ⟨hok, heq, hexit⟩ := h s (by rw [hm]; exact hs)
      have hn : (n >>= g) s = (.left v, t) := bind_left (heq.trans hm)
      refine ⟨hok, absorb_left hn, fun w hw => hexit w ?_⟩
      rw [hn] at hw
      cases hw
      rw [hm]
  | failed e =>
      have habsorb : absorb (m >>= f) s = (.failed e, t) := by rw [absorb, bind_failed hm]
      rw [habsorb] at hs ⊢
      obtain ⟨hok, heq, -⟩ := h s (by rw [hm]; exact hs)
      have hn : (n >>= g) s = (.failed e, t) := bind_failed (heq.trans hm)
      exact ⟨hok, by rw [absorb, hn], by rw [hn]; exact fun w hw => nomatch hw⟩
  | outOfFuel =>
      have habsorb : absorb (m >>= f) s = (.outOfFuel, t) := by rw [absorb, bind_outOfFuel hm]
      rw [habsorb] at hs ⊢
      obtain ⟨hok, heq, -⟩ := h s (by rw [hm]; exact hs)
      have hn : (n >>= g) s = (.outOfFuel, t) := bind_outOfFuel (heq.trans hm)
      exact ⟨hok, by rw [absorb, hn], by rw [hn]; exact fun w hw => nomatch hw⟩

/-- A last step whose value is dropped for `w` may exit with `w`. -/
theorem body_discard {m n : Comp σ ε ρ ρ} {w : ρ} (h : Absorbs ok (fun v => v = w) m n)
    (hw : P w) : Absorbs ok P (absorb (m >>= fun _ => pure w)) (n >>= fun _ => pure w) := by
  intro s hs
  rcases hm : m s with ⟨o, t⟩
  have hend : (absorb (m >>= fun _ => pure w) s).2 = t := by
    cases o with
    | value a => rw [absorb, bind_value hm]; rfl
    | left v => rw [absorb_left (bind_left hm)]
    | failed e => rw [absorb, bind_failed hm]
    | outOfFuel => rw [absorb, bind_outOfFuel hm]
  obtain ⟨hok, heq, hexit⟩ := h s (by rw [hm, ← hend]; exact hs)
  refine ⟨hok, ?_⟩
  rw [hm] at heq
  obtain hn | ⟨v, hn, rfl⟩ := absorb_eq heq
  · cases o with
    | value a =>
        have hbind : (n >>= fun _ => (pure w : Comp σ ε ρ ρ)) s = (.value w, t) := bind_value hn
        refine ⟨?_, by rw [hbind]; exact fun v hv => nomatch hv⟩
        rw [absorb, hbind, absorb, bind_value hm]
        rfl
    | left v => exact (absorb_ne_left n s v (by rw [heq])).elim
    | failed e =>
        have hbind : (n >>= fun _ => (pure w : Comp σ ε ρ ρ)) s = (.failed e, t) := bind_failed hn
        refine ⟨?_, by rw [hbind]; exact fun v hv => nomatch hv⟩
        rw [absorb, hbind, absorb, bind_failed hm]
    | outOfFuel =>
        have hbind : (n >>= fun _ => (pure w : Comp σ ε ρ ρ)) s = (.outOfFuel, t) :=
          bind_outOfFuel hn
        refine ⟨?_, by rw [hbind]; exact fun v hv => nomatch hv⟩
        rw [absorb, hbind, absorb, bind_outOfFuel hm]
  · obtain rfl : v = w := hexit v (by rw [hn])
    have hbind : (n >>= fun _ => (pure v : Comp σ ε ρ ρ)) s = (.left v, t) := bind_left hn
    refine ⟨?_, fun u hu => ?_⟩
    · rw [absorb_left hbind, absorb, bind_value hm]
      rfl
    · rw [hbind] at hu
      cases hu
      exact hw

theorem passes_after {close undo : Comp σ ε ρ Unit} (hclose : Passes ok Never close close)
    (hundo : Passes ok Never undo undo) (o : Outcome ε ρ α) :
    Passes ok (fun v => o = .left v) (after close undo o) (after close undo o) := by
  cases o with
  | value a => exact hclose.of_never.bind fun _ => Passes.pure a
  | left v => exact hclose.of_never.bind fun _ => Passes.leave rfl
  | failed e => exact hundo.of_never.bind fun _ => Passes.fail e
  | outOfFuel => exact Passes.exhausted

/-- A close after an exit ends as one after a value does. -/
theorem absorb_after {close undo : Comp σ ε ρ Unit} {v : ρ} {t : σ}
    (h : ∀ w, (close t).1 ≠ .left w) :
    absorb (after close undo (.left v)) t = after close undo (.value v) t := by
  change absorb (close >>= fun _ => Comp.leave v) t = (close >>= fun _ => (pure v : Comp σ ε ρ ρ)) t
  rcases hc : close t with ⟨o, u⟩
  cases o with
  | value a =>
      rw [absorb, bind_value hc, bind_value hc]
      rfl
  | left w => exact absurd (by rw [hc]) (h w)
  | failed e => rw [absorb, bind_failed hc, bind_failed hc]
  | outOfFuel => rw [absorb, bind_outOfFuel hc, bind_outOfFuel hc]

theorem left_after {close undo : Comp σ ε ρ Unit} {v w : ρ} {t : σ}
    (h : ∀ w, (close t).1 ≠ .left w)
    (hleft : (after close undo (.left v : Outcome ε ρ α) t).1 = .left w) : v = w := by
  change ((close >>= fun _ => (Comp.leave v : Comp σ ε ρ α)) t).1 = .left w at hleft
  rcases hc : close t with ⟨o, u⟩
  cases o with
  | value a =>
      rw [bind_value hc] at hleft
      cases hleft
      rfl
  | left w => exact absurd (by rw [hc]) (h w)
  | failed e =>
      rw [bind_failed hc] at hleft
      exact nomatch hleft
  | outOfFuel =>
      rw [bind_outOfFuel hc] at hleft
      exact nomatch hleft

theorem settle {m n : Comp σ ε ρ ρ} {close undo : Comp σ ε ρ Unit} (h : Absorbs ok P m n)
    (hclose : Passes ok Never close close) (hundo : Passes ok Never undo undo) :
    Absorbs ok P (Comp.settle m close undo) (Comp.settle n close undo) := by
  intro s hs
  obtain ⟨hokt, -, hleft⟩ := passes_after hclose hundo (m s).1 (m s).2 hs
  obtain ⟨hok, heq, hexit⟩ := h s hokt
  refine ⟨hok, ?_⟩
  obtain hn | ⟨v, hn, hv⟩ := absorb_eq heq
  · have hset : Comp.settle n close undo s = Comp.settle m close undo s := by
      rw [Comp.settle, hn, Comp.settle]
    have hno : ∀ v, (Comp.settle m close undo s).1 ≠ .left v := fun v hv =>
      absorb_ne_left n s v (by rw [heq]; exact hleft v hv)
    refine ⟨?_, by rw [hset]; exact fun v hv => (hno v hv).elim⟩
    rw [absorb, hset]
    exact absorb_eq_self hno
  · have hset : Comp.settle n close undo s = after close undo (.left v) (m s).2 := by
      rw [Comp.settle, hn]
    have hend : Comp.settle m close undo s = after close undo (.value v) (m s).2 := by
      rw [Comp.settle, hv]
    have hstay : ∀ w, (close (m s).2).1 ≠ .left w := by
      intro w hw
      have hval := hleft w (by rw [hv]; exact congrArg Prod.fst (bind_left (Prod.ext hw rfl)))
      rw [hv] at hval
      exact nomatch hval
    refine ⟨?_, fun w hw => ?_⟩
    · rw [absorb, hset, hend]
      exact absorb_after hstay
    · rw [hset] at hw
      exact left_after hstay hw ▸ hexit v (by rw [hn])

end Absorbs

/-! ## Computations without an exit -/

/-- The computation does not leave. -/
def Stays (m : Comp σ ε ρ α) : Prop := ∀ s v, (m s).1 ≠ .left v

namespace Stays

theorem pure (a : α) : Stays (Pure.pure a : Comp σ ε ρ α) := fun _ _ h => nomatch h

theorem fail (e : ε) : Stays (Comp.fail e : Comp σ ε ρ α) := fun _ _ h => nomatch h

theorem exhausted : Stays (Comp.exhausted : Comp σ ε ρ α) := fun _ _ h => nomatch h

theorem lift (r : Except ε α) : Stays (Comp.lift r : Comp σ ε ρ α) := by
  cases r with
  | ok a => exact pure a
  | error e => exact fail e

theorem act (f : σ → Except ε α × σ) : Stays (Comp.act f : Comp σ ε ρ α) :=
  fun s => lift (f s).1 (f s).2

theorem bind {m : Comp σ ε ρ α} {f : α → Comp σ ε ρ β} (h : Stays m) (hf : ∀ a, Stays (f a)) :
    Stays (m >>= f) := by
  intro s v
  rcases hm : m s with ⟨o, t⟩
  cases o with
  | value a =>
      rw [bind_value hm]
      exact hf a t v
  | left u => exact absurd (by rw [hm]) (h s u)
  | failed e =>
      rw [bind_failed hm]
      exact fun h => nomatch h
  | outOfFuel =>
      rw [bind_outOfFuel hm]
      exact fun h => nomatch h

theorem attempt {m : Comp σ ε ρ α} (h : Stays m) : Stays (Comp.attempt m) := by
  intro s v hv
  unfold Comp.attempt at hv
  rcases hm : m s with ⟨o, t⟩
  rw [hm] at hv
  cases o with
  | left u => exact h s u (by rw [hm])
  | _ => exact nomatch hv

theorem absorb (m : Comp σ ε ρ ρ) : Stays (Comp.absorb m) := absorb_ne_left m

theorem settle {m : Comp σ ε ρ α} {close undo : Comp σ ε ρ Unit} (h : Stays m)
    (hclose : Stays close) (hundo : Stays undo) : Stays (Comp.settle m close undo) := by
  intro s v
  unfold Comp.settle
  rcases hm : m s with ⟨o, t⟩
  cases o with
  | value a => exact (hclose.bind fun _ => pure a) t v
  | left u => exact absurd (by rw [hm]) (h s u)
  | failed e => exact (hundo.bind fun _ => fail e) t v
  | outOfFuel => exact exhausted t v

theorem absorb_eq {m : Comp σ ε ρ ρ} (h : Stays m) : Comp.absorb m = m :=
  funext fun s => absorb_eq_self (h s)

end Stays

/-! ## With enough fuel -/

/-- Of computations with growing fuel: from some fuel on they end so. -/
def Ends (m : Nat → Comp σ ε ρ α) (s : σ) (P : Outcome ε ρ α → Prop) : Prop :=
  ∃ d, ∀ n, d ≤ n → P (m n s).1

def Failed : Outcome ε ρ α → Prop
  | .failed _ => True
  | _ => False

theorem ends_iff {m : Nat → Comp σ ε ρ α} {s : σ} {d : Nat} {o : Outcome ε ρ α}
    {P : Outcome ε ρ α → Prop}
    (hm : ∀ n, d ≤ n → (m n s).1 = o) : Ends m s P ↔ P o := by
  constructor
  · rintro ⟨d', h⟩
    rw [← hm (max d d') (Nat.le_max_left d d')]
    exact h _ (Nat.le_max_right d d')
  · intro h
    exact ⟨d, fun n hn => by rw [hm n hn]; exact h⟩

/-- Two computations end alike: with the same values, or both by a failure. -/
def Agree (m k : Nat → Comp σ ε ρ α) (s : σ) : Prop :=
  (∀ b, Ends m s (· = .value b) ↔ Ends k s (· = .value b)) ∧ (Ends m s Failed ↔ Ends k s Failed)

theorem agree_iff_of_outcomes {m k : Nat → Comp σ ε ρ α} {s : σ} {d : Nat} {o o' : Outcome ε ρ α}
    (hm : ∀ n, (m n s).1 = o) (hk : ∀ n, d ≤ n → (k n s).1 = o') :
    Agree m k s ↔ (∀ b, o = .value b ↔ o' = .value b) ∧ (Failed o ↔ Failed o') := by
  have left {P : Outcome ε ρ α → Prop} : Ends m s P ↔ P o :=
    ends_iff fun n (_ : 0 ≤ n) => hm n
  have right {P : Outcome ε ρ α → Prop} : Ends k s P ↔ P o' := ends_iff hk
  simp only [Agree, left, right]

/-- Against a computation that gives `a`, agreement is that the other one gives it too. -/
theorem agree_iff_of_value {a : α} {m k : Nat → Comp σ ε ρ α} {s : σ} {A : Prop} {d : Nat}
    (hm : ∀ n, (m n s).1 = .value a)
    (hk : ∀ n, d ≤ n → ((k n s).1 = .value a ↔ A)) : Agree m k s ↔ A := by
  constructor
  · rintro ⟨h, -⟩
    obtain ⟨d', h'⟩ := (h a).mp ((ends_iff fun n (_ : 0 ≤ n) => hm n).mpr rfl)
    exact (hk (max d d') (Nat.le_max_left d d')).mp (h' _ (Nat.le_max_right d d'))
  · intro hA
    rw [agree_iff_of_outcomes hm fun n hn => (hk n hn).mpr hA]
    exact ⟨fun _ => Iff.rfl, Iff.rfl⟩

end Comp

end CScript.Lib
