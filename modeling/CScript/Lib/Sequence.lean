import Mathlib.Data.List.Forall2
import Mathlib.Data.List.Enum
import Mathlib.Data.List.Perm.Basic

/-!
# Effects over lists

What it means for a traversal in `Option` or `Except` to succeed, and how the second is the
first once the errors are forgotten.
-/

namespace CScript.Lib

variable {α β ε : Type}

theorem mapM_eq_some_iff {f : α → Option β} {xs : List α} {ys : List β} :
    xs.mapM f = some ys ↔ List.Forall₂ (fun x y => f x = some y) xs ys := by
  induction xs generalizing ys with
  | nil =>
      rw [List.mapM_nil, List.forall₂_nil_left_iff]
      exact ⟨fun h => (Option.some.inj h).symm, fun h => congrArg some h.symm⟩
  | cons x xs ih =>
      rw [List.mapM_cons, List.forall₂_cons_left_iff]
      constructor
      · intro h
        obtain ⟨y, hy, hrest⟩ := Option.bind_eq_some_iff.1 h
        obtain ⟨ys', hys, hsome⟩ := Option.bind_eq_some_iff.1 hrest
        exact ⟨y, ys', hy, ih.1 hys, (Option.some.inj hsome).symm⟩
      · rintro ⟨y, ys', hy, hys, rfl⟩
        rw [hy, ih.2 hys]
        rfl

/-- A traversal that gives one known result per element. -/
theorem mapM_eq_some_map_iff {f : α → Option β} {g : α → β} {xs : List α} :
    xs.mapM f = some (xs.map g) ↔ ∀ x ∈ xs, f x = some (g x) := by
  rw [mapM_eq_some_iff, List.forall₂_map_right_iff, List.forall₂_same]

/-- Decoding the encodings of a list gives the list exactly if it does element by element. -/
theorem mapM_map_eq_some_iff {γ : Type} {e : α → γ} {d : γ → Option α} {xs : List α} :
    (xs.map e).mapM d = some xs ↔ ∀ x ∈ xs, d (e x) = some x := by
  rw [mapM_eq_some_iff, List.forall₂_map_left_iff, List.forall₂_same]

theorem exists_of_mapM_eq_some {f : α → Option β} {xs : List α} {ys : List β} {x : α}
    (h : xs.mapM f = some ys) (hx : x ∈ xs) : ∃ y ∈ ys, f x = some y := by
  have hall := mapM_eq_some_iff.1 h
  clear h
  induction hall with
  | nil => cases hx
  | cons hxy hrest ih =>
      rcases List.mem_cons.1 hx with rfl | hmem
      · exact ⟨_, List.mem_cons_self, hxy⟩
      · obtain ⟨y, hy, hf⟩ := ih hmem
        exact ⟨y, List.mem_cons_of_mem _ hy, hf⟩

theorem exists_of_mem_mapM {f : α → Option β} {xs : List α} {ys : List β} {y : β}
    (h : xs.mapM f = some ys) (hy : y ∈ ys) : ∃ x ∈ xs, f x = some y := by
  have hall := mapM_eq_some_iff.1 h
  clear h
  induction hall with
  | nil => cases hy
  | cons hxy hrest ih =>
      rcases List.mem_cons.1 hy with rfl | hmem
      · exact ⟨_, List.mem_cons_self, hxy⟩
      · obtain ⟨x, hx, hf⟩ := ih hmem
        exact ⟨x, List.mem_cons_of_mem _ hx, hf⟩

theorem findSome?_eq_find?_bind {f : α → Option β} {xs : List α} :
    xs.findSome? f = (xs.find? fun x => (f x).isSome).bind f := by
  induction xs with
  | nil => rfl
  | cons x xs ih =>
      rw [List.findSome?_cons, List.find?_cons]
      cases hx : f x with
      | none => exact ih
      | some y => exact hx.symm

/-- Where keys are distinct, every element is the one found under its key. -/
theorem find?_of_nodup {κ : Type} [DecidableEq κ] {key : α → κ} {xs : List α} {x : α}
    (hnodup : (xs.map key).Nodup) (hx : x ∈ xs) : xs.find? (fun y => key y == key x) = some x := by
  induction xs with
  | nil => cases hx
  | cons y ys ih =>
      rw [List.map_cons, List.nodup_cons] at hnodup
      rcases List.mem_cons.1 hx with rfl | hmem
      · exact List.find?_cons_of_pos (beq_self_eq_true _)
      · have hne : key y ≠ key x := fun heq => hnodup.1 (heq ▸ List.mem_map_of_mem hmem)
        rw [List.find?_cons_of_neg (by simpa using hne)]
        exact ih hnodup.2 hmem

@[simp] theorem toOption_bind {x : Except ε α} {f : α → Except ε β} :
    (x >>= f).toOption = x.toOption.bind fun a => (f a).toOption := by
  cases x <;> rfl

@[simp] theorem toOption_map {x : Except ε α} {f : α → β} :
    (f <$> x).toOption = x.toOption.map f := by
  cases x <;> rfl

@[simp] theorem toOption_pure {a : α} : (pure a : Except ε α).toOption = some a := rfl

@[simp] theorem toOption_ok {a : α} : (Except.ok a : Except ε α).toOption = some a := rfl

@[simp] theorem toOption_error {e : ε} : (Except.error e : Except ε α).toOption = none := rfl

/-- A sequence succeeds only through both of its steps. -/
theorem except_bind_eq_ok {x : Except ε α} {f : α → Except ε β} {b : β}
    (h : (x >>= f) = .ok b) : ∃ a, x = .ok a ∧ f a = .ok b := by
  cases x with
  | error e => exact nomatch h
  | ok a => exact ⟨a, rfl, h⟩

/-- The results of a traversal, each of the element in its place. -/
theorem forall₂_of_mapM_eq_ok {f : α → Except ε β} {xs : List α} {ys : List β}
    (h : xs.mapM f = .ok ys) : List.Forall₂ (fun x y => f x = .ok y) xs ys := by
  induction xs generalizing ys with
  | nil =>
    cases h
    exact .nil
  | cons x xs ih =>
    rw [List.mapM_cons] at h
    obtain ⟨y, hy, h⟩ := except_bind_eq_ok h
    obtain ⟨rest, hrest, h⟩ := except_bind_eq_ok h
    cases h
    exact .cons hy (ih hrest)

/-- A traversal of the same elements in another order gives the same results in that order. -/
theorem perm_of_mapM_eq_ok {f : α → Except ε β} {xs xs' : List α} (hperm : xs.Perm xs')
    {ys : List β} (h : xs.mapM f = .ok ys) : ∃ ys', xs'.mapM f = .ok ys' ∧ ys.Perm ys' := by
  induction hperm generalizing ys with
  | nil => exact ⟨ys, h, .refl ys⟩
  | cons x _ ih =>
      rw [List.mapM_cons] at h
      obtain ⟨y, hy, h⟩ := except_bind_eq_ok h
      obtain ⟨rest, hrest, h⟩ := except_bind_eq_ok h
      cases h
      obtain ⟨rest', hrest', hperm⟩ := ih hrest
      refine ⟨y :: rest', ?_, hperm.cons y⟩
      rw [List.mapM_cons, hy, hrest']
      rfl
  | swap x x' xs =>
      rw [List.mapM_cons, List.mapM_cons] at h
      obtain ⟨y', hy', h⟩ := except_bind_eq_ok h
      obtain ⟨rest', hrest', h⟩ := except_bind_eq_ok h
      obtain ⟨y, hy, hrest'⟩ := except_bind_eq_ok hrest'
      obtain ⟨rest, hrest, hrest'⟩ := except_bind_eq_ok hrest'
      cases h
      cases hrest'
      refine ⟨y :: y' :: rest, ?_, .swap y y' rest⟩
      rw [List.mapM_cons, List.mapM_cons, hy, hy', hrest]
      rfl
  | trans _ _ ih ih' =>
      obtain ⟨zs, hzs, hperm⟩ := ih h
      obtain ⟨ys', hys', hperm'⟩ := ih' hzs
      exact ⟨ys', hys', hperm.trans hperm'⟩

theorem mapM_eq_ok_of_forall₂ {γ : Type} {f : α → Except ε γ} {g : β → γ} {xs : List α}
    {ys : List β} (h : List.Forall₂ (fun x y => f x = .ok (g y)) xs ys) :
    xs.mapM f = .ok (ys.map g) := by
  induction h with
  | nil => rfl
  | cons hxy _ ih =>
    rw [List.mapM_cons, hxy, ih]
    rfl

theorem exists_right_of_forall₂ {r : α → β → Prop} {xs : List α} {ys : List β}
    (h : List.Forall₂ r xs ys) {x : α} (hx : x ∈ xs) : ∃ y ∈ ys, r x y := by
  induction h with
  | nil => exact absurd hx List.not_mem_nil
  | @cons z y _ _ hzy _ ih =>
    rcases List.mem_cons.1 hx with rfl | hx
    · exact ⟨y, List.mem_cons_self, hzy⟩
    · obtain ⟨y', hy', hr⟩ := ih hx
      exact ⟨y', List.mem_cons_of_mem y hy', hr⟩

/-- A traversal succeeds if every step does. -/
theorem exists_mapM_eq_ok {f : α → Except ε β} {xs : List α} (h : ∀ x ∈ xs, ∃ y, f x = .ok y) :
    ∃ ys, xs.mapM f = .ok ys := by
  induction xs with
  | nil => exact ⟨[], rfl⟩
  | cons x xs ih =>
    obtain ⟨y, hy⟩ := h x List.mem_cons_self
    obtain ⟨ys, hys⟩ := ih fun z hz => h z (List.mem_cons_of_mem x hz)
    refine ⟨y :: ys, ?_⟩
    rw [List.mapM_cons, hy, hys]
    rfl

/-- Every result is that of an element. -/
theorem exists_of_mem_mapM_ok {f : α → Except ε β} {xs : List α} {ys : List β}
    (h : xs.mapM f = .ok ys) {y : β} (hy : y ∈ ys) : ∃ x ∈ xs, f x = .ok y :=
  exists_right_of_forall₂ (forall₂_of_mapM_eq_ok h).flip hy

theorem map_eq_of_forall₂ {γ : Type} {f : α → γ} {g : β → γ} {xs : List α} {ys : List β}
    (h : List.Forall₂ (fun x y => f x = g y) xs ys) : xs.map f = ys.map g := by
  induction h with
  | nil => rfl
  | cons hxy _ ih => rw [List.map_cons, List.map_cons, hxy, ih]

theorem filterMap_eq_of_forall₂ {γ : Type} {f : α → Option γ} {g : β → Option γ} {xs : List α}
    {ys : List β} (h : List.Forall₂ (fun x y => f x = g y) xs ys) :
    xs.filterMap f = ys.filterMap g := by
  induction h with
  | nil => rfl
  | cons hxy _ ih => rw [List.filterMap_cons, List.filterMap_cons, hxy, ih]

theorem forall₂_imp_mem {r s : α → β → Prop} {xs : List α} {ys : List β}
    (h : List.Forall₂ r xs ys) (hrs : ∀ x ∈ xs, ∀ y, r x y → s x y) : List.Forall₂ s xs ys := by
  induction h with
  | nil => exact .nil
  | cons hxy _ ih =>
    exact .cons (hrs _ List.mem_cons_self _ hxy)
      (ih fun x hx => hrs x (List.mem_cons_of_mem _ hx))

theorem forall_iff_of_forall₂ {r : α → β → Prop} {p : α → Prop} {q : β → Prop} {xs : List α}
    {ys : List β} (h : List.Forall₂ r xs ys) (hpq : ∀ x y, r x y → (p x ↔ q y)) :
    (∀ x ∈ xs, p x) ↔ ∀ y ∈ ys, q y := by
  induction h with
  | nil => simp
  | cons hxy _ ih => rw [List.forall_mem_cons, List.forall_mem_cons, hpq _ _ hxy, ih]

/-- A relation between the elements of a list is one between what they stand for. -/
theorem pairwise_iff_of_forall₂ {r : α → β → Prop} {p s : α → α → Prop} {t : β → β → Prop}
    {xs : List α} {ys : List β} (h : List.Forall₂ r xs ys) (hp : xs.Pairwise p)
    (hst : ∀ x y x' y', r x y → r x' y' → p x x' → (s x x' ↔ t y y')) :
    xs.Pairwise s ↔ ys.Pairwise t := by
  induction h with
  | nil => exact iff_of_true .nil .nil
  | @cons x y _ _ hxy hrest ih =>
    obtain ⟨hx, hp⟩ := List.pairwise_cons.1 hp
    rw [List.pairwise_cons, List.pairwise_cons, ih hp]
    have hboth := forall₂_imp_mem hrest fun x' hx' y' hr => And.intro hr (hx x' hx')
    exact and_congr_left fun _ =>
      forall_iff_of_forall₂ hboth fun x' y' hr => hst x y x' y' hxy hr.1 hr.2

theorem mapIdx_const {f : α → β} {xs : List α} : (xs.mapIdx fun _ x => f x) = xs.map f :=
  List.mapIdx_eq_iff.mpr fun _ => List.getElem?_map

/-- A check over a list passes only if it passes each element. -/
theorem ok_of_forM_eq_ok {f : α → Except ε Unit} {xs : List α} (h : xs.forM f = .ok ())
    {x : α} (hx : x ∈ xs) : f x = .ok () := by
  induction xs with
  | nil => exact nomatch hx
  | cons y ys ih =>
      change (f y >>= fun _ => ys.forM f) = .ok () at h
      obtain ⟨⟨⟩, hy, hys⟩ := except_bind_eq_ok h
      cases List.mem_cons.mp hx with
      | inl heq => rw [heq, hy]
      | inr hmem => exact ih hys hmem

theorem toOption_eq_some_iff {x : Except ε α} {a : α} : x.toOption = some a ↔ x = .ok a := by
  cases x <;> simp

theorem toOption_mapM {f : α → Except ε β} {g : α → Option β} {xs : List α}
    (h : ∀ x ∈ xs, (f x).toOption = g x) : (xs.mapM f).toOption = xs.mapM g := by
  induction xs with
  | nil => rfl
  | cons x xs ih =>
      rw [List.mapM_cons, List.mapM_cons, toOption_bind, h x List.mem_cons_self]
      refine congrArg _ (funext fun y => ?_)
      rw [toOption_bind, ih fun z hz => h z (List.mem_cons_of_mem x hz)]
      rfl

theorem eq_error_of_toOption_eq_none {x : Except ε α} (h : x.toOption = none) :
    ∃ e, x = .error e := by
  cases x with
  | error e => exact ⟨e, rfl⟩
  | ok a => cases h

theorem mapM_isSome_iff {f : α → Option β} {xs : List α} :
    (xs.mapM f).isSome = true ↔ ∀ x ∈ xs, (f x).isSome = true := by
  constructor
  · intro h x hx
    obtain ⟨ys, hys⟩ := Option.isSome_iff_exists.mp h
    obtain ⟨y, -, hy⟩ := exists_of_mapM_eq_some hys hx
    rw [hy]
    rfl
  · intro h
    induction xs with
    | nil => rfl
    | cons x xs ih =>
        obtain ⟨y, hy⟩ := Option.isSome_iff_exists.mp (h x List.mem_cons_self)
        obtain ⟨ys, hys⟩ := Option.isSome_iff_exists.mp
          (ih fun z hz => h z (List.mem_cons_of_mem x hz))
        rw [List.mapM_cons, hy, hys]
        rfl

theorem mapM_zipIdx_fst {f : α → Option β} {xs : List α} {i : Nat} :
    ((xs.zipIdx i).mapM fun p => f p.1) = xs.mapM f := by
  have h := List.mapM_map (m := Option) (f := Prod.fst) (g := f) (l := xs.zipIdx i)
  rw [List.zipIdx_map_fst] at h
  exact h.symm

theorem mapM_attach_val {f : α → Option β} {xs : List α} :
    (xs.attach.mapM fun x => f x.1) = xs.mapM f := by
  have h := List.mapM_map (m := Option) (f := Subtype.val) (g := f) (l := xs.attach)
  rw [List.attach_map_subtype_val] at h
  exact h.symm

theorem toOption_forM {f : α → Except ε Unit} {p : α → Bool} {xs : List α}
    (h : ∀ x ∈ xs, (f x).toOption = if p x then some () else none) :
    (xs.forM f).toOption = if xs.all p then some () else none := by
  induction xs with
  | nil => rfl
  | cons x xs ih =>
      change (f x >>= fun _ => xs.forM f).toOption = _
      rw [toOption_bind, h x List.mem_cons_self, ih fun y hy => h y (List.mem_cons_of_mem x hy),
        List.all_cons]
      cases p x <;> rfl

/-- What is taken out of a list is one less of its kind in it. -/
theorem countP_eraseIdx {p : α → Bool} {l : List α} {k : Nat} {x : α} (h : l[k]? = some x) :
    (l.eraseIdx k).countP p + (if p x then 1 else 0) = l.countP p := by
  obtain ⟨inside, rfl⟩ := List.getElem?_eq_some_iff.mp h
  have same := List.Perm.countP_eq p (List.getElem_cons_eraseIdx_perm inside)
  rwa [List.countP_cons] at same

end CScript.Lib
