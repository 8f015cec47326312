import CScript.Lib.Exits

/-!
# Two computations side by side

`Tracks R` compares computations over different states that a relation `R` connects: they
end alike, and `R` connects the states where a value is returned. `Extends` compares
computations that differ in the fuel they are given.
-/

namespace CScript.Lib.Comp

variable {σ τ ε ρ α β : Type}

/-- From states that `R` connects the two end alike; `R` need not survive a failure. -/
def Tracks (R : σ → τ → Prop) (m : Comp σ ε ρ α) (n : Comp τ ε ρ α) : Prop :=
  ∀ s t, R s t → (m s).1 = (n t).1 ∧ ∀ a, (m s).1 = .value a → R (m s).2 (n t).2

/-- Where `m` has fuel enough, `n` does the same. -/
def Extends (m n : Comp σ ε ρ α) : Prop := ∀ s, (m s).1 ≠ .outOfFuel → n s = m s

theorem lift_bind (r : Except ε α) (f : α → Except ε β) :
    (lift (r >>= f) : Comp σ ε ρ β) = lift r >>= fun a => lift (f a) := by
  cases r <;> rfl

namespace Tracks

variable {R : σ → τ → Prop}

theorem pure (a : α) : Tracks R (Pure.pure a : Comp σ ε ρ α) (Pure.pure a) :=
  fun _ _ h => ⟨rfl, fun _ _ => h⟩

theorem fail (e : ε) : Tracks R (Comp.fail e : Comp σ ε ρ α) (Comp.fail e) :=
  fun _ _ h => ⟨rfl, fun _ _ => h⟩

theorem exhausted : Tracks R (Comp.exhausted : Comp σ ε ρ α) Comp.exhausted :=
  fun _ _ h => ⟨rfl, fun _ _ => h⟩

theorem lift (r : Except ε α) : Tracks R (Comp.lift r : Comp σ ε ρ α) (Comp.lift r) := by
  cases r with
  | ok a => exact pure a
  | error e => exact fail e

theorem bind {m : Comp σ ε ρ α} {n : Comp τ ε ρ α} {f : α → Comp σ ε ρ β} {g : α → Comp τ ε ρ β}
    (h : Tracks R m n) (hf : ∀ a, Tracks R (f a) (g a)) : Tracks R (m >>= f) (n >>= g) := by
  intro s t hR
  obtain ⟨hend, hnext⟩ := h s t hR
  rcases hm : m s with ⟨o, s'⟩
  rcases hn : n t with ⟨o', t'⟩
  rw [hm, hn] at hend hnext
  cases hend
  cases o with
  | value a =>
      rw [bind_value hm, bind_value hn]
      exact hf a s' t' (hnext a rfl)
  | left v =>
      rw [bind_left hm, bind_left hn]
      exact ⟨rfl, fun _ h => nomatch h⟩
  | failed e =>
      rw [bind_failed hm, bind_failed hn]
      exact ⟨rfl, fun _ h => nomatch h⟩
  | outOfFuel =>
      rw [bind_outOfFuel hm, bind_outOfFuel hn]
      exact ⟨rfl, fun _ h => nomatch h⟩

/-- After a step that does no more than to yield a result, that result is known. -/
theorem bind_lift {m : Comp σ ε ρ α} {r : Except ε α} {f : α → Comp σ ε ρ β}
    {g : α → Comp τ ε ρ β} (h : Tracks R m (Comp.lift r))
    (hf : ∀ a, r = .ok a → Tracks R (f a) (g a)) : Tracks R (m >>= f) (Comp.lift r >>= g) := by
  intro s t hR
  obtain ⟨hend, hnext⟩ := h s t hR
  rcases hm : m s with ⟨o, s'⟩
  rw [hm] at hend hnext
  cases r with
  | error e =>
      cases hend
      rw [bind_failed hm]
      exact ⟨rfl, fun _ h => nomatch h⟩
  | ok a =>
      cases hend
      rw [bind_value hm]
      exact hf a rfl s' t (hnext a rfl)

/-- A step of the first computation alone that returns `a` and keeps the relation. -/
theorem bind_left_value {m : Comp σ ε ρ α} {f : α → Comp σ ε ρ β} {n : Comp τ ε ρ β} (a : α)
    (h : ∀ s t, R s t → (m s).1 = .value a ∧ R (m s).2 t) (hf : Tracks R (f a) n) :
    Tracks R (m >>= f) n := by
  intro s t hR
  obtain ⟨hend, hnext⟩ := h s t hR
  have hm : m s = (.value a, (m s).2) := Prod.ext hend rfl
  rw [bind_value hm]
  exact hf _ t hnext

end Tracks

namespace Extends

theorem refl (m : Comp σ ε ρ α) : Extends m m := fun _ _ => rfl

theorem trans {l m n : Comp σ ε ρ α} (h : Extends l m) (h' : Extends m n) : Extends l n := by
  intro s hs
  have hm := h s hs
  rw [h' s (by rw [hm]; exact hs), hm]

theorem exhausted (m : Comp σ ε ρ α) : Extends Comp.exhausted m := fun _ h => absurd rfl h

theorem bind {m n : Comp σ ε ρ α} {f g : α → Comp σ ε ρ β} (h : Extends m n)
    (hf : ∀ a, Extends (f a) (g a)) : Extends (m >>= f) (n >>= g) := by
  intro s hs
  rcases hm : m s with ⟨o, t⟩
  have hn : o ≠ .outOfFuel → n s = (o, t) := fun ho => by
    rw [h s (by rw [hm]; exact ho), hm]
  cases o with
  | value a =>
      rw [bind_value hm] at hs ⊢
      rw [bind_value (hn (fun h => nomatch h))]
      exact hf a t hs
  | left v => rw [bind_left hm, bind_left (hn (fun h => nomatch h))]
  | failed e => rw [bind_failed hm, bind_failed (hn (fun h => nomatch h))]
  | outOfFuel => exact absurd (by rw [bind_outOfFuel hm]) hs

end Extends

end CScript.Lib.Comp
