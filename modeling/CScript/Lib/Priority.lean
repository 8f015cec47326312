import Mathlib.Data.List.Pairwise
import Mathlib.Data.List.Sort

/-!
# The first match by descending priority

Rules are tried in the order of a priority, the highest first. Where no two rules that both
apply have one priority, the rule that is found does not depend on the order in which they
are given.
-/

namespace CScript.Lib.Priority

variable {α β : Type} (priority : α → Nat) (applies : α → Option β)

/-- The rule `a` applies, and any other that applies has a lower priority. -/
structure Best (rules : List α) (a : α) (b : β) : Prop where
  mem : a ∈ rules
  applied : applies a = some b
  highest : ∀ c ∈ rules, (applies c).isSome → c = a ∨ priority c < priority a

/-- Two rules that both apply never have one priority. -/
def Untied (rules : List α) : Prop :=
  rules.Pairwise fun a b => (applies a).isSome → (applies b).isSome → priority a ≠ priority b

def Descending (rules : List α) : Prop := rules.Pairwise fun a b => priority b ≤ priority a

/-- The rule that the search finds, with what it yields. -/
def first (rules : List α) : Option (α × β) :=
  rules.findSome? fun a => (applies a).map fun b => (a, b)

variable {priority applies}

theorem Best.unique {rules : List α} {a a' : α} {b b' : β}
    (h : Best priority applies rules a b) (h' : Best priority applies rules a' b') :
    a = a' ∧ b = b' := by
  have heq : a = a' := by
    rcases h'.highest a h.mem (by rw [h.applied]; rfl) with heq | hlt
    · exact heq
    rcases h.highest a' h'.mem (by rw [h'.applied]; rfl) with heq | hlt'
    · exact heq.symm
    · omega
  subst heq
  exact ⟨rfl, Option.some.inj (h.applied.symm.trans h'.applied)⟩

theorem Best.perm {rules rules' : List α} {a : α} {b : β} (hperm : rules.Perm rules')
    (h : Best priority applies rules a b) : Best priority applies rules' a b :=
  ⟨hperm.mem_iff.mp h.mem, h.applied, fun c hc => h.highest c (hperm.mem_iff.mpr hc)⟩

theorem Untied.perm {rules rules' : List α} (hperm : rules.Perm rules')
    (h : Untied priority applies rules) : Untied priority applies rules' :=
  (hperm.pairwise_iff fun hab hb ha => (hab ha hb).symm).mp h

theorem Untied.filter {rules : List α} (keep : α → Bool) (h : Untied priority applies rules) :
    Untied priority applies (rules.filter keep) :=
  List.Pairwise.filter keep h

theorem Descending.filter {rules : List α} (keep : α → Bool) (h : Descending priority rules) :
    Descending priority (rules.filter keep) :=
  List.Pairwise.filter keep h

theorem descending_insertionSort (rules : List α) :
    Descending priority (rules.insertionSort fun a b => priority b ≤ priority a) := by
  have htotal : Std.Total fun a b : α => priority b ≤ priority a :=
    ⟨fun a b => Nat.le_total (priority b) (priority a)⟩
  have htrans : IsTrans α fun a b => priority b ≤ priority a :=
    ⟨fun _ _ _ hab hbc => Nat.le_trans hbc hab⟩
  exact List.pairwise_insertionSort _ rules

theorem first_eq_none {rules : List α} :
    first applies rules = none ↔ ∀ a ∈ rules, applies a = none := by
  simp [first]

theorem Best.of_first {rules : List α} {a : α} {b : β} (hsorted : Descending priority rules)
    (huntied : Untied priority applies rules) (h : first applies rules = some (a, b)) :
    Best priority applies rules a b := by
  obtain ⟨before, a', after, rfl, ha, hbefore⟩ := List.findSome?_eq_some_iff.mp h
  obtain ⟨b', hb', heq⟩ := Option.map_eq_some_iff.mp ha
  cases heq
  have hsplit := (List.pairwise_append.mp hsorted).2.1
  have hties := (List.pairwise_append.mp huntied).2.1
  refine ⟨by simp, hb', fun c hc happlies => ?_⟩
  rcases List.mem_append.mp hc with hc | hc
  · have hnone : applies c = none := by simpa using hbefore c hc
    rw [hnone] at happlies
    exact nomatch happlies
  rcases List.mem_cons.mp hc with rfl | hc
  · exact .inl rfl
  · have hle := List.rel_of_pairwise_cons hsplit hc
    have hne := List.rel_of_pairwise_cons hties hc (by rw [hb']; rfl) happlies
    exact .inr (by omega)

/-- The search finds the best rule of the list, in whatever order that one was given. -/
theorem first_eq_some {rules sorted : List α} (hperm : sorted.Perm rules)
    (hsorted : Descending priority sorted) (huntied : Untied priority applies rules)
    {a : α} {b : β} :
    first applies sorted = some (a, b) ↔ Best priority applies rules a b := by
  have huntied' : Untied priority applies sorted := huntied.perm hperm.symm
  constructor
  · exact fun h => (Best.of_first hsorted huntied' h).perm hperm
  · intro hbest
    cases hfirst : first applies sorted with
    | none =>
        have hnone := first_eq_none.mp hfirst a (hperm.mem_iff.mpr hbest.mem)
        exact nomatch hnone.symm.trans hbest.applied
    | some found =>
        obtain ⟨a', b'⟩ := found
        obtain ⟨rfl, rfl⟩ := hbest.unique ((Best.of_first hsorted huntied' hfirst).perm hperm)
        rfl

/-- What is best among some rules is best among all, if those left out that apply have no
higher priority. -/
theorem Best.of_filter {rules : List α} {keep : α → Bool} {a : α} {b : β}
    (huntied : Untied priority applies rules)
    (hout : ∀ c ∈ rules, keep c = false → (applies c).isSome → priority c ≤ priority a)
    (h : Best priority applies (rules.filter keep) a b) : Best priority applies rules a b := by
  have hmem := (List.mem_filter.mp h.mem).1
  refine ⟨hmem, h.applied, fun c hc happlies => ?_⟩
  cases hkeep : keep c with
  | true => exact h.highest c (List.mem_filter.mpr ⟨hc, hkeep⟩) happlies
  | false =>
      by_cases heq : c = a
      · exact .inl heq
      have hsymm : Std.Symm fun a b : α => (applies a).isSome → (applies b).isSome →
          priority a ≠ priority b := ⟨fun _ _ hab hb ha => (hab ha hb).symm⟩
      have hle := hout c hc hkeep happlies
      have hne := huntied.forall hc hmem heq happlies (by rw [h.applied]; rfl)
      exact .inr (by omega)

theorem first_congr {rules sorted sorted' : List α} (hperm : sorted.Perm rules)
    (hperm' : sorted'.Perm rules) (hsorted : Descending priority sorted)
    (hsorted' : Descending priority sorted') (huntied : Untied priority applies rules) :
    first applies sorted = first applies sorted' := by
  apply Option.ext
  rintro ⟨a, b⟩
  rw [first_eq_some hperm hsorted huntied, first_eq_some hperm' hsorted' huntied]

end CScript.Lib.Priority
