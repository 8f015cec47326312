import Mathlib.Data.Nat.Notation

/-!
# Errors and panics

Fallible computations that may also panic. `Safe` says that one does not; of computations in a row,
each has to be safe only if those before it all give a value.
-/
namespace CScript.Lib

variable {ε ε' α β γ : Type}

inductive Panic where
  | capacity
  | overflow
  | slice
  | divideByZero
  deriving DecidableEq

inductive Fault (ε : Type) where
  | error (e : ε)
  | panic (p : Panic)

def Fault.map (f : ε → ε') : Fault ε → Fault ε'
  | .error e => .error (f e)
  | .panic p => .panic p

/-- `map_err`, which a panic passes by. -/
def mapErr (f : ε → ε') (x : Except (Fault ε) α) : Except (Fault ε') α := x.mapError (Fault.map f)

/-- An error at most. -/
def Safe (x : Except (Fault ε) α) : Prop := ∀ p, x ≠ .error (.panic p)

theorem safe_ok (a : α) : Safe (.ok a : Except (Fault ε) α) := fun _ h => nomatch h

theorem safe_error (e : ε) : Safe (.error (.error e) : Except (Fault ε) α) := fun _ h => nomatch h

theorem not_safe_panic (p : Panic) : ¬ Safe (.error (.panic p) : Except (Fault ε) α) :=
  fun h => h p rfl

theorem ok_bind (a : α) (f : α → Except ε β) : (Except.ok a >>= f) = f a := rfl

theorem safe_bind {x : Except (Fault ε) α} {f : α → Except (Fault ε) β} :
    Safe (x >>= f) ↔ Safe x ∧ ∀ a, x = .ok a → Safe (f a) := by
  cases x with
  | error e =>
      constructor
      · intro h
        exact ⟨fun p hp => h p (congrArg _ (Except.error.inj hp)), fun a ha => nomatch ha⟩
      · rintro ⟨h, -⟩ p hp
        exact h p (congrArg _ (Except.error.inj hp))
  | ok a =>
      constructor
      · intro h
        refine ⟨safe_ok a, ?_⟩
        rintro _ ⟨⟩
        exact h
      · rintro ⟨-, h⟩
        exact h a rfl

/-- A sequence gives a value exactly if its steps do. -/
theorem exists_bind_ok {x : Except ε α} {f : α → Except ε β} :
    (∃ b, (x >>= f) = .ok b) ↔ ∃ a, x = .ok a ∧ ∃ b, f a = .ok b := by
  cases x with
  | error e => exact ⟨fun ⟨_, h⟩ => (nomatch h), fun ⟨_, h, _⟩ => nomatch h⟩
  | ok a =>
      constructor
      · exact fun ⟨b, h⟩ => ⟨a, rfl, b, h⟩
      · rintro ⟨_, ⟨⟩, b, h⟩
        exact ⟨b, h⟩

/-- A computation whose outcome does not depend on the value before it. -/
theorem safe_bind_const {x : Except (Fault ε) α} {f : α → Except (Fault ε) β} {rest : Prop}
    (h : ∀ a, Safe (f a) ↔ rest) : Safe (x >>= f) ↔ Safe x ∧ ((∃ a, x = .ok a) → rest) := by
  rw [safe_bind]
  apply and_congr_right
  intro _
  constructor
  · rintro all ⟨a, ok⟩
    exact (h a).mp (all a ok)
  · intro all a ok
    exact (h a).mpr (all ⟨a, ok⟩)

theorem exists_bind_const {x : Except ε α} {f : α → Except ε β} {rest : Prop}
    (h : ∀ a, (∃ b, f a = .ok b) ↔ rest) :
    (∃ b, (x >>= f) = .ok b) ↔ (∃ a, x = .ok a) ∧ rest := by
  rw [exists_bind_ok]
  constructor
  · rintro ⟨a, ok, last⟩
    exact ⟨⟨a, ok⟩, (h a).mp last⟩
  · rintro ⟨⟨a, ok⟩, last⟩
    exact ⟨a, ok, (h a).mpr last⟩

theorem safe_mapErr {f : ε → ε'} {x : Except (Fault ε) α} : Safe (mapErr f x) ↔ Safe x := by
  rcases x with (e | p) | a
  · exact iff_of_true (safe_error _) (safe_error e)
  · exact iff_of_false (not_safe_panic p) (not_safe_panic p)
  · exact iff_of_true (safe_ok a) (safe_ok a)

theorem mapErr_eq_ok {f : ε → ε'} {x : Except (Fault ε) α} {a : α} :
    mapErr f x = .ok a ↔ x = .ok a := by
  rcases x with (e | p) | b
  · exact ⟨fun h => (nomatch h), fun h => nomatch h⟩
  · exact ⟨fun h => (nomatch h), fun h => nomatch h⟩
  · exact ⟨fun h => congrArg _ (Except.ok.inj h), fun h => congrArg _ (Except.ok.inj h)⟩

/-! ## Computations in a row -/

/-- Nothing goes wrong before something fails to give a value. -/
def InOrder (harmless yields : α → Prop) (xs : List α) : Prop :=
  ∀ pre x post, xs = pre ++ x :: post → (∀ y ∈ pre, yields y) → harmless x

variable {harmless yields : α → Prop}

theorem inOrder_nil : InOrder harmless yields [] := by
  intro pre x post h
  cases pre with
  | nil => exact nomatch h
  | cons => exact nomatch h

theorem inOrder_cons {x : α} {xs : List α} : InOrder harmless yields (x :: xs) ↔
    harmless x ∧ (yields x → InOrder harmless yields xs) := by
  constructor
  · intro h
    refine ⟨h [] x xs rfl fun _ hy => (nomatch hy), ?_⟩
    intro first pre y post split before
    apply h (x :: pre) y post (congrArg _ split)
    intro z hz
    rcases List.mem_cons.mp hz with rfl | hz
    · exact first
    · exact before z hz
  · rintro ⟨first, rest⟩ pre y post split before
    cases pre with
    | nil =>
        cases split
        exact first
    | cons z pre =>
        cases split
        exact rest (before x List.mem_cons_self) pre y post rfl
          fun w hw => before w (List.mem_cons_of_mem _ hw)

theorem inOrder_append {xs ys : List α} : InOrder harmless yields (xs ++ ys) ↔
    InOrder harmless yields xs ∧ ((∀ x ∈ xs, yields x) → InOrder harmless yields ys) := by
  induction xs with
  | nil => exact ⟨fun h => ⟨inOrder_nil, fun _ => h⟩, fun h => h.2 fun _ hx => (nomatch hx)⟩
  | cons x xs ih =>
      rw [List.cons_append, inOrder_cons, inOrder_cons, ih, List.forall_mem_cons]
      constructor
      · rintro ⟨first, rest⟩
        exact ⟨⟨first, fun h => (rest h).1⟩, fun h => (rest h.1).2 h.2⟩
      · rintro ⟨⟨first, rest⟩, last⟩
        exact ⟨first, fun h => ⟨rest h, fun all => last ⟨h, all⟩⟩⟩

theorem inOrder_flatMap {f : β → List α} {bs : List β} :
    InOrder harmless yields (bs.flatMap f) ↔
      InOrder (fun b => InOrder harmless yields (f b)) (fun b => ∀ a ∈ f b, yields a) bs := by
  induction bs with
  | nil => exact iff_of_true inOrder_nil inOrder_nil
  | cons b bs ih => rw [List.flatMap_cons, inOrder_append, inOrder_cons, ih]

theorem inOrder_congr {harmless' yields' : α → Prop} {xs : List α}
    (same : ∀ x, harmless x ↔ harmless' x) (sameYield : ∀ x, yields x ↔ yields' x) :
    InOrder harmless yields xs ↔ InOrder harmless' yields' xs := by
  rw [show harmless = harmless' from funext fun x => propext (same x),
    show yields = yields' from funext fun x => propext (sameYield x)]

/-- A traversal is safe exactly if its computations are, in order. -/
theorem safe_mapM {f : α → Except (Fault ε) β} {xs : List α} :
    Safe (xs.mapM f) ↔ InOrder (fun x => Safe (f x)) (fun x => ∃ b, f x = .ok b) xs := by
  induction xs with
  | nil => exact iff_of_true (safe_ok []) inOrder_nil
  | cons x xs ih =>
      rw [List.mapM_cons, safe_bind, inOrder_cons, ← ih]
      apply and_congr_right
      intro _
      constructor
      · rintro h ⟨b, hb⟩
        exact (safe_bind.mp (h b hb)).1
      · intro h b hb
        exact safe_bind.mpr ⟨h ⟨b, hb⟩, fun bs _ => safe_ok _⟩

theorem exists_mapM_iff {f : α → Except ε β} {xs : List α} :
    (∃ bs, xs.mapM f = .ok bs) ↔ ∀ x ∈ xs, ∃ b, f x = .ok b := by
  induction xs with
  | nil => exact iff_of_true ⟨[], rfl⟩ fun _ h => nomatch h
  | cons x xs ih =>
      rw [List.mapM_cons, List.forall_mem_cons, ← ih]
      exact exists_bind_const fun b => by
        rw [exists_bind_ok]
        exact ⟨fun ⟨bs, h, _⟩ => ⟨bs, h⟩, fun ⟨bs, h⟩ => ⟨bs, h, _, rfl⟩⟩

end CScript.Lib
