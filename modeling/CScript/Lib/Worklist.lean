import Mathlib.Data.List.Nodup
import CScript.Lib.Sequence

/-!
# Worklists

A stack of pending elements beside the list of all that were ever pushed. Visiting an element
yields an output and finds further elements, which are pushed unless they are known. When the
stack runs empty, every element that can be reached from the first ones was visited exactly
once.
-/

namespace CScript.Lib

/-- `pending` with the element pushed last in front, `seen` with it at the end. -/
structure Worklist (α : Type) where
  pending : List α
  seen : List α

namespace Worklist

variable {α β ε : Type}

section

variable [DecidableEq α]

def push (w : Worklist α) (a : α) : Worklist α :=
  if a ∈ w.seen then w else ⟨a :: w.pending, w.seen ++ [a]⟩

def pushAll (w : Worklist α) (found : List α) : Worklist α := found.foldl push w

/-- The outputs in the order of the visits, and the worklist at the end; `stuck` where the
fuel does not last. -/
def drain (stuck : ε) (visit : α → Except ε (β × List α)) :
    Nat → Worklist α → Except ε (List β × Worklist α)
  | 0, _ => .error stuck
  | fuel + 1, w =>
      match w.pending with
      | [] => .ok ([], w)
      | a :: pending => do
          let (b, found) ← visit a
          let (bs, final) ← drain stuck visit fuel (pushAll ⟨pending, w.seen⟩ found)
          return (b :: bs, final)

end

/-- Found from the first elements, visit after visit. -/
inductive Reaches (visit : α → Except ε (β × List α)) (first : List α) : α → Prop where
  | first {a : α} : a ∈ first → Reaches visit first a
  | found {a a' : α} {b : β} {found : List α} :
      Reaches visit first a → visit a = .ok (b, found) → a' ∈ found → Reaches visit first a'

theorem Reaches.trans {visit : α → Except ε (β × List α)} {first first' : List α} {x : α}
    (h : Reaches visit first x) (hfirst : ∀ y ∈ first, Reaches visit first' y) :
    Reaches visit first' x := by
  induction h with
  | first hmem => exact hfirst _ hmem
  | found _ hvisit hmem ih => exact .found ih hvisit hmem

/-- Every element was pushed once, and is either visited or pending. -/
structure Sound (w : Worklist α) (visited : List α) : Prop where
  nodup : w.seen.Nodup
  seen : w.seen.Perm (visited ++ w.pending)

/-- The pending element that is visited next counts among the visited. -/
theorem Sound.pop {a : α} {pending seen visited : List α}
    (h : Worklist.Sound ⟨a :: pending, seen⟩ visited) :
    Worklist.Sound ⟨pending, seen⟩ (visited ++ [a]) := by
  refine ⟨h.nodup, ?_⟩
  rw [List.append_assoc]
  exact h.seen

/-! ## Pushing -/

variable [DecidableEq α]

theorem mem_push_seen {w : Worklist α} {a x : α} : x ∈ (w.push a).seen ↔ x ∈ w.seen ∨ x = a := by
  unfold push
  split_ifs with h
  · exact ⟨Or.inl, fun hx => hx.elim id fun heq => heq ▸ h⟩
  · simp

theorem mem_pushAll_seen {found : List α} {w : Worklist α} {x : α} :
    x ∈ (w.pushAll found).seen ↔ x ∈ w.seen ∨ x ∈ found := by
  induction found generalizing w with
  | nil => simp [pushAll]
  | cons a rest ih =>
    change x ∈ ((w.push a).pushAll rest).seen ↔ _
    rw [ih, mem_push_seen, List.mem_cons, or_assoc]

theorem Sound.push {w : Worklist α} {visited : List α} (h : w.Sound visited) (a : α) :
    (w.push a).Sound visited := by
  unfold Worklist.push
  split_ifs with ha
  · exact h
  · constructor
    · exact List.nodup_append.2 ⟨h.nodup, List.nodup_singleton a, by
        rintro x hx y hy rfl
        exact ha (List.mem_singleton.1 hy ▸ hx)⟩
    · calc
        (w.seen ++ [a]).Perm ((visited ++ w.pending) ++ [a]) := h.seen.append_right [a]
        List.Perm _ (a :: (visited ++ w.pending)) := List.perm_append_singleton a _
        List.Perm _ (visited ++ a :: w.pending) := List.perm_middle.symm

theorem Sound.pushAll {found : List α} {w : Worklist α} {visited : List α} (h : w.Sound visited) :
    (w.pushAll found).Sound visited := by
  induction found generalizing w with
  | nil => exact h
  | cons a rest ih => exact ih (h.push a)

/-! ## Draining -/

/-- What a whole drain has done. -/
structure Drained (visit : α → Except ε (β × List α)) (w final : Worklist α) (visited : List α)
    (bs : List β) (order : List α) : Prop where
  pending : final.pending = []
  sound : final.Sound (visited ++ order)
  outputs : List.Forall₂ (fun a b => ∃ found, visit a = .ok (b, found) ∧
    ∀ x ∈ found, x ∈ final.seen) order bs
  keeps : ∀ x ∈ w.seen, x ∈ final.seen
  reached : ∀ x ∈ final.seen, Reaches visit w.seen x

theorem drained {stuck : ε} {visit : α → Except ε (β × List α)} {fuel : Nat}
    {w final : Worklist α} {visited : List α} {bs : List β} (h : w.Sound visited)
    (hdrain : drain stuck visit fuel w = .ok (bs, final)) :
    ∃ order, Drained visit w final visited bs order := by
  induction fuel generalizing w visited bs with
  | zero => exact nomatch hdrain
  | succ fuel ih =>
    obtain ⟨pending, seen⟩ := w
    cases pending with
    | nil =>
      cases hdrain
      refine ⟨[], rfl, ?_, .nil, fun x hx => hx, fun x hx => .first hx⟩
      rw [List.append_nil]
      exact h
    | cons a pending =>
      obtain ⟨⟨b, found⟩, hvisit, hrest⟩ := except_bind_eq_ok hdrain
      obtain ⟨⟨rest, final'⟩, hrun, hfinal⟩ := except_bind_eq_ok hrest
      cases hfinal
      obtain ⟨order, hd⟩ := ih h.pop.pushAll hrun
      have hkeeps : ∀ x ∈ seen, x ∈ final.seen := fun x hx =>
        hd.keeps x (mem_pushAll_seen.2 (.inl hx))
      have ha : Reaches visit seen a :=
        .first (h.seen.mem_iff.2 (List.mem_append_right visited List.mem_cons_self))
      refine ⟨a :: order, hd.pending, ?_, ?_, hkeeps, ?_⟩
      · rw [List.append_cons]
        exact hd.sound
      · exact .cons ⟨found, hvisit, fun x hx => hd.keeps x (mem_pushAll_seen.2 (.inr hx))⟩
          hd.outputs
      · intro x hx
        refine (hd.reached x hx).trans fun y hy => ?_
        rcases mem_pushAll_seen.1 hy with hseen | hfound
        · exact .first hseen
        · exact .found ha hvisit hfound

/-- From the first elements on, exactly what they reach is visited, each element once. -/
theorem drain_spec {stuck : ε} {visit : α → Except ε (β × List α)} {fuel : Nat} {first : List α}
    {final : Worklist α} {bs : List β}
    (h : drain stuck visit fuel (pushAll ⟨[], []⟩ first) = .ok (bs, final)) :
    ∃ order, order.Nodup ∧ (∀ x, x ∈ order ↔ Reaches visit first x) ∧
      List.Forall₂ (fun a b => ∃ found, visit a = .ok (b, found)) order bs := by
  have hempty : Sound (⟨[], []⟩ : Worklist α) [] := ⟨List.nodup_nil, .nil⟩
  obtain ⟨order, hd⟩ := drained hempty.pushAll h
  have hperm : final.seen.Perm order := by
    have hseen := hd.sound.seen
    rwa [hd.pending, List.append_nil, List.nil_append] at hseen
  have hfirst : ∀ x, x ∈ (pushAll ⟨[], []⟩ first).seen ↔ x ∈ first := fun x => by
    rw [mem_pushAll_seen]
    exact or_iff_right (List.not_mem_nil)
  refine ⟨order, hperm.nodup_iff.1 hd.sound.nodup, fun x => ⟨fun hx => ?_, fun hx => ?_⟩, ?_⟩
  · refine (hd.reached x (hperm.mem_iff.2 hx)).trans fun y hy => ?_
    exact .first ((hfirst y).1 hy)
  · induction hx with
    | first hmem => exact hperm.mem_iff.1 (hd.keeps _ ((hfirst _).2 hmem))
    | found _ hvisit hmem ih =>
      obtain ⟨b, -, found, hvisit', hfound⟩ := exists_right_of_forall₂ hd.outputs ih
      rw [hvisit] at hvisit'
      cases hvisit'
      exact hperm.mem_iff.1 (hfound _ hmem)
  · exact (hd.outputs).imp fun a b hab => hab.imp fun found hfound => hfound.1

end Worklist

end CScript.Lib
