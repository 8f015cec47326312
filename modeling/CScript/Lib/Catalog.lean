import Mathlib.Data.List.Nodup

/-!
# Catalogs of named objects

A catalog is a list of objects under names. An object is added if its name is free, and is
left out without a word if it is not; adding many keeps all of them exactly if their names are
free and differ from each other.
-/

namespace CScript.Lib

abbrev Catalog (N O : Type) := List (N × O)

namespace Catalog

variable {N O : Type}

def names (cat : Catalog N O) : List N := cat.map Prod.fst

@[simp] theorem names_append (a b : Catalog N O) : names (a ++ b) = names a ++ names b :=
  List.map_append

variable [DecidableEq N]

/-- The object is added unless its name is taken. -/
def addNew (cat : Catalog N O) (entry : N × O) : Catalog N O :=
  if entry.1 ∈ cat.names then cat else cat ++ [entry]

def addAll : Catalog N O → List (N × O) → Catalog N O
  | cat, [] => cat
  | cat, e :: es => addAll (cat.addNew e) es

variable {cat : Catalog N O} {e : N × O} {es : List (N × O)} {n : N}

theorem addNew_of_taken (h : e.1 ∈ cat.names) : cat.addNew e = cat := if_pos h

theorem addNew_of_free (h : e.1 ∉ cat.names) : cat.addNew e = cat ++ [e] := if_neg h

theorem mem_names_addNew : n ∈ (cat.addNew e).names ↔ n ∈ cat.names ∨ n = e.1 := by
  by_cases taken : e.1 ∈ cat.names
  · rw [addNew_of_taken taken]
    constructor
    · exact Or.inl
    · rintro (h | rfl)
      · exact h
      · exact taken
  · rw [addNew_of_free taken]
    simp [names]

theorem mem_names_addAll : n ∈ (cat.addAll es).names ↔ n ∈ cat.names ∨ n ∈ names es := by
  induction es generalizing cat with
  | nil => simp [addAll, names]
  | cons e es ih =>
      rw [addAll, ih, mem_names_addNew, or_assoc]
      simp [names]

theorem length_addAll_le : (cat.addAll es).length ≤ cat.length + es.length := by
  induction es generalizing cat with
  | nil => exact Nat.le_refl _
  | cons e es ih =>
      have step : (cat.addNew e).length ≤ cat.length + 1 := by
        by_cases taken : e.1 ∈ cat.names
        · rw [addNew_of_taken taken]
          exact Nat.le_succ _
        · rw [addNew_of_free taken]
          exact Nat.le_of_eq (by simp)
      have rest := @ih (cat.addNew e)
      rw [addAll, List.length_cons]
      omega

/-- Everything is added exactly if no name is taken and no two are the same. -/
theorem addAll_eq_append_iff :
    cat.addAll es = cat ++ es ↔ (names es).Nodup ∧ ∀ n ∈ names es, n ∉ cat.names := by
  induction es generalizing cat with
  | nil => simp [addAll, names]
  | cons e es ih =>
      rw [addAll]
      by_cases taken : e.1 ∈ cat.names
      · have short : (cat.addAll es).length ≤ cat.length + es.length := length_addAll_le
        rw [addNew_of_taken taken]
        constructor
        · intro h
          rw [h, List.length_append, List.length_cons] at short
          omega
        · rintro ⟨-, free⟩
          exact absurd taken (free e.1 List.mem_cons_self)
      · have shift : cat ++ e :: es = cat ++ [e] ++ es := by simp
        rw [addNew_of_free taken, shift, ih]
        simp only [names, List.map_cons, List.map_append, List.map_nil, List.nodup_cons,
          List.mem_append, List.mem_cons, List.not_mem_nil, or_false, forall_eq_or_imp]
        constructor
        · rintro ⟨nodup, free⟩
          refine ⟨⟨?_, nodup⟩, taken, fun n hn hcat => free n hn (Or.inl hcat)⟩
          intro he
          exact free e.1 he (Or.inr rfl)
        · rintro ⟨⟨fresh, nodup⟩, -, free⟩
          refine ⟨nodup, ?_⟩
          rintro n hn (hcat | rfl)
          · exact free n hn hcat
          · exact fresh hn

theorem lookup_append_of_some {a b : Catalog N O} {o : O} (h : List.lookup n a = some o) :
    List.lookup n (a ++ b) = some o := by
  rw [List.lookup_append, h]
  rfl

theorem mem_names_of_lookup {o : O} (h : List.lookup n cat = some o) : n ∈ cat.names := by
  by_contra absent
  have : List.lookup n cat = none := by
    rw [List.lookup_eq_none_iff]
    intro p hp
    have : p.1 ∈ cat.names := List.mem_map_of_mem hp
    grind
  rw [this] at h
  cases h

theorem mem_of_lookup {o : O} (h : List.lookup n cat = some o) : (n, o) ∈ cat := by
  induction cat with
  | nil => cases h
  | cons e cat ih =>
      rw [List.lookup_cons] at h
      split at h
      · next found =>
          obtain rfl : n = e.1 := by simpa using found
          cases h
          exact List.mem_cons_self
      · exact List.mem_cons_of_mem _ (ih h)

theorem lookup_of_mem {o : O} (nodup : cat.names.Nodup) (h : (n, o) ∈ cat) :
    List.lookup n cat = some o := by
  induction cat with
  | nil => cases h
  | cons e cat ih =>
      rw [names, List.map_cons, List.nodup_cons] at nodup
      rw [List.lookup_cons]
      rcases List.mem_cons.mp h with rfl | h
      · simp
      · have other : ¬ n = e.1 := fun same =>
          nodup.1 (same ▸ List.mem_map_of_mem (f := Prod.fst) h)
        rw [beq_false_of_ne other]
        exact ih nodup.2 h

/-- One object in the place of what has the name. -/
theorem lookup_replace (m : N) (o : O) :
    List.lookup n (cat.map fun r => if r.1 = m then (r.1, o) else r) =
      if n = m then (List.lookup n cat).map fun _ => o else List.lookup n cat := by
  induction cat with
  | nil => simp
  | cons e cat ih =>
      rw [List.map_cons, List.lookup_cons, List.lookup_cons, ih]
      by_cases found : n = e.1
      · subst found
        by_cases place : e.1 = m <;> simp [place]
      · have key : (if e.1 = m then (e.1, o) else e).1 = e.1 := by
          split <;> rfl
        simp [key, beq_false_of_ne found]

end Catalog

end CScript.Lib
