import Mathlib.Logic.Relation
import Mathlib.Data.List.Nodup
import Mathlib.Data.List.Perm.Subperm
import CScript.Lib.Tracks

/-!
# Depth-first search in post-order

A graph whose nodes are opened while it is searched: a node may fail to open, an edge may
fail to lead anywhere. The search lists every node after the nodes that its edges lead to,
and fails at a node that it meets again before it has finished it.
-/

namespace CScript.Lib.PostOrder

open Comp Relation

variable {α ε ρ : Type}

/-- `edges x` fails where the node does not open; each edge has a target or an error. -/
structure EdgeMap (α ε : Type) where
  edges : α → Except ε (List (Except ε α))
  cycle : α → ε

/-- The nodes entered and not finished, and the finished ones, the last one first. -/
structure Search (α : Type) where
  onStack : List α
  finished : List α

def Search.isFinished [DecidableEq α] (x : α) : Comp (Search α) ε ρ Bool :=
  fun s => (.value (decide (x ∈ s.finished)), s)

/-- Whether the node is entered now; one that is on the stack already is not. -/
def Search.enter [DecidableEq α] (x : α) : Comp (Search α) ε ρ Bool := fun s =>
  if x ∈ s.onStack then (.value false, s)
  else (.value true, { s with onStack := x :: s.onStack })

def Search.finish [DecidableEq α] (x : α) : Comp (Search α) ε ρ Unit := fun s =>
  (.value (), ⟨s.onStack.erase x, x :: s.finished⟩)

def follow (visit : α → Comp (Search α) ε ρ Unit) :
    List (Except ε α) → Comp (Search α) ε ρ Unit
  | [] => pure ()
  | e :: es => do
      let y ← lift e
      visit y
      follow visit es

def EdgeMap.visit [DecidableEq α] (g : EdgeMap α ε) : Nat → α → Comp (Search α) ε ρ Unit
  | 0, _ => exhausted
  | fuel + 1, x => do
      let seen ← Search.isFinished x
      if seen then pure ()
      else
        let fresh ← Search.enter x
        if fresh then
          let es ← lift (g.edges x)
          follow (g.visit fuel) es
          Search.finish x
        else fail (g.cycle x)

namespace EdgeMap

/-- One node leads to another. -/
def Edge (g : EdgeMap α ε) (x y : α) : Prop := ∃ es, g.edges x = .ok es ∧ .ok y ∈ es

/-- A node that opens and whose edges all lead somewhere. -/
def Opens (g : EdgeMap α ε) (x : α) : Prop :=
  ∃ es, g.edges x = .ok es ∧ ∀ e ∈ es, ∃ y, e = .ok y

abbrev Reaches (g : EdgeMap α ε) : α → α → Prop := ReflTransGen g.Edge

/-- Everything reachable from the node opens and nothing reachable lies on a cycle. -/
def Sound (g : EdgeMap α ε) (x : α) : Prop :=
  ∀ y, g.Reaches x y → g.Opens y ∧ ¬ TransGen g.Edge y y

/-- A list of finished nodes, the last one first: each opens and leads to earlier ones. -/
inductive Settled (g : EdgeMap α ε) : List α → Prop
  | nil : Settled g []
  | cons {x : α} {l : List α} : Settled g l → x ∉ l → g.Opens x → (∀ y, g.Edge x y → y ∈ l) →
      Settled g (x :: l)

variable {g : EdgeMap α ε}

namespace Settled

theorem nodup {l : List α} (h : g.Settled l) : l.Nodup := by
  induction h with
  | nil => exact List.nodup_nil
  | cons _ hx _ _ ih => exact List.nodup_cons.mpr ⟨hx, ih⟩

theorem opens {l : List α} (h : g.Settled l) {x : α} (hx : x ∈ l) : g.Opens x := by
  induction h with
  | nil => exact nomatch hx
  | cons _ _ hopens _ ih =>
      rcases List.mem_cons.mp hx with rfl | hx
      · exact hopens
      · exact ih hx

theorem edge_mem {l : List α} (h : g.Settled l) {x y : α} (hx : x ∈ l) (hxy : g.Edge x y) :
    y ∈ l := by
  induction h with
  | nil => exact nomatch hx
  | cons _ _ _ hedges ih =>
      rcases List.mem_cons.mp hx with rfl | hx
      · exact List.mem_cons_of_mem _ (hedges y hxy)
      · exact List.mem_cons_of_mem _ (ih hx)

theorem reaches_mem {l : List α} (h : g.Settled l) {x y : α} (hx : x ∈ l)
    (hxy : g.Reaches x y) : y ∈ l := by
  induction hxy with
  | refl => exact hx
  | tail _ hedge ih => exact h.edge_mem ih hedge

/-- A path from the last node leads to earlier ones, and none of these leads back. -/
theorem acyclic {l : List α} (h : g.Settled l) {x : α} (hx : x ∈ l) :
    ¬ TransGen g.Edge x x := by
  induction h with
  | nil => exact nomatch hx
  | @cons z l hl hz _ hedges ih =>
      rcases List.mem_cons.mp hx with rfl | hx
      · intro hcycle
        obtain ⟨y, hxy, hyx⟩ := TransGen.head'_iff.mp hcycle
        exact hz (hl.reaches_mem (hedges y hxy) hyx)
      · exact ih hx

theorem sound {l : List α} (h : g.Settled l) {x : α} (hx : x ∈ l) : g.Sound x := fun _ hxy =>
  ⟨h.opens (h.reaches_mem hx hxy), h.acyclic (h.reaches_mem hx hxy)⟩

/-- Read from the first node on, no node stands before one that it leads to. -/
theorem pairwise {l : List α} (h : g.Settled l) :
    l.reverse.Pairwise fun x y => ¬ g.Edge x y := by
  rw [List.pairwise_reverse]
  induction h with
  | nil => exact List.Pairwise.nil
  | cons hl hx _ _ ih =>
      exact List.pairwise_cons.mpr ⟨fun _ hy hedge => hx (hl.edge_mem hy hedge), ih⟩

end Settled

/-! ## What a search does -/

/-- After a search from `x` that returns: the stack is as it was, `x` is finished, and every
newly finished node is reachable from `x` and was not on the stack. -/
structure Grown (g : EdgeMap α ε) (x : α) (s t : Search α) : Prop where
  onStack : t.onStack = s.onStack
  settled : g.Settled t.finished
  kept : s.finished ⊆ t.finished
  here : x ∈ t.finished
  added : ∀ y ∈ t.finished, y ∈ s.finished ∨ g.Reaches x y ∧ y ∉ s.onStack

/-- How a search from `x` may end. -/
def Ends (g : EdgeMap α ε) (x : α) (s : Search α) : Outcome ε ρ Unit × Search α → Prop
  | (.value _, t) => g.Grown x s t
  | (.left _, _) => False
  | (.failed _, _) => ¬ g.Sound x
  | (.outOfFuel, _) => True

/-- The stack on which a search of `x` starts: its nodes lead to `x`. -/
structure Ready (g : EdgeMap α ε) (x : α) (s : Search α) : Prop where
  settled : g.Settled s.finished
  leads : ∀ y ∈ s.onStack, TransGen g.Edge y x

/-- The edges still to follow from the node `x`, which is on the stack. -/
structure Following (g : EdgeMap α ε) (x : α) (es done : List (Except ε α)) (s : Search α) :
    Prop where
  settled : g.Settled s.finished
  leads : ∀ y ∈ s.onStack, g.Reaches y x
  edges : g.edges x = .ok (done ++ es)
  reached : ∀ e ∈ done, ∃ y ∈ s.finished, e = .ok y

/-- After all edges of `x`: they all lead to finished nodes. -/
structure Followed (g : EdgeMap α ε) (x : α) (s t : Search α) : Prop where
  onStack : t.onStack = s.onStack
  settled : g.Settled t.finished
  kept : s.finished ⊆ t.finished
  opens : g.Opens x
  targets : ∀ y, g.Edge x y → y ∈ t.finished
  added : ∀ y ∈ t.finished, y ∈ s.finished ∨ g.Reaches x y ∧ y ∉ s.onStack

def FollowEnds (g : EdgeMap α ε) (x : α) (s : Search α) : Outcome ε ρ Unit × Search α → Prop
  | (.value _, t) => g.Followed x s t
  | (.left _, _) => False
  | (.failed _, _) => ¬ g.Sound x
  | (.outOfFuel, _) => True

theorem Sound.edge {x y : α} (h : g.Sound x) (hxy : g.Edge x y) : g.Sound y :=
  fun z hz => h z (.head hxy hz)

theorem Ready.following {x : α} {s : Search α} (hs : g.Ready x s) {es : List (Except ε α)}
    (hedges : g.edges x = .ok es) :
    g.Following x es [] { s with onStack := x :: s.onStack } := by
  refine ⟨hs.settled, fun y hy => ?_, hedges, fun e he => nomatch he⟩
  rcases List.mem_cons.mp hy with rfl | hy
  · exact .refl
  · exact (hs.leads y hy).to_reflTransGen

theorem Following.next {x y : α} {es done : List (Except ε α)} {s t : Search α}
    (hs : g.Following x (.ok y :: es) done s) (hgrown : g.Grown y s t) :
    g.Following x es (done ++ [.ok y]) t := by
  refine ⟨hgrown.settled, by rw [hgrown.onStack]; exact hs.leads,
    by rw [hs.edges, List.append_assoc, List.singleton_append], fun e he => ?_⟩
  rcases List.mem_append.mp he with he | he
  · obtain ⟨z, hz, rfl⟩ := hs.reached e he
    exact ⟨z, hgrown.kept hz, rfl⟩
  · rw [List.mem_singleton.mp he]
    exact ⟨y, hgrown.here, rfl⟩

theorem follow_ends {visit : α → Comp (Search α) ε ρ Unit} {x : α}
    (hvisit : ∀ y s, g.Ready y s → g.Ends y s (visit y s)) {es done : List (Except ε α)}
    {s : Search α} (hs : g.Following x es done s) : g.FollowEnds x s (follow visit es s) := by
  induction es generalizing done s with
  | nil =>
      have hopen : g.edges x = .ok done := by rw [hs.edges, List.append_nil]
      refine ⟨rfl, hs.settled, fun _ h => h, ⟨done, hopen, fun e he => ?_⟩, fun y hy => ?_,
        fun y hy => .inl hy⟩
      · obtain ⟨y, -, rfl⟩ := hs.reached e he
        exact ⟨y, rfl⟩
      · obtain ⟨es, hes, hy⟩ := hy
        rw [hopen] at hes
        cases hes
        obtain ⟨z, hz, heq⟩ := hs.reached _ hy
        cases heq
        exact hz
  | cons e es ih =>
      rw [follow]
      cases e with
      | error e =>
          -- an edge that leads nowhere: `x` does not open
          intro hsound
          obtain ⟨es', hes', hall⟩ := (hsound x .refl).1
          rw [hs.edges] at hes'
          cases hes'
          obtain ⟨y, hy⟩ := hall (.error e) (by simp)
          exact nomatch hy
      | ok y =>
          have hxy : g.Edge x y := ⟨_, hs.edges, by simp⟩
          have hready : g.Ready y s := ⟨hs.settled, fun z hz => .tail' (hs.leads z hz) hxy⟩
          have hend := hvisit y s hready
          change g.FollowEnds x s ((visit y >>= fun _ => follow visit es) s)
          rcases hv : visit y s with ⟨o, t⟩
          rw [hv] at hend
          cases o with
          | left v => exact hend.elim
          | failed e =>
              rw [bind_failed hv]
              exact fun hsound => hend (hsound.edge hxy)
          | outOfFuel =>
              rw [bind_outOfFuel hv]
              trivial
          | value u =>
              rw [bind_value hv]
              have hgrown : g.Grown y s t := hend
              have hrest := ih (hs.next hgrown)
              rcases hf : follow visit es t with ⟨o, t'⟩
              rw [hf] at hrest
              cases o with
              | value u =>
                  have hfollowed : g.Followed x t t' := hrest
                  refine ⟨hfollowed.onStack.trans hgrown.onStack, hfollowed.settled,
                    fun z hz => hfollowed.kept (hgrown.kept hz), hfollowed.opens,
                    hfollowed.targets, fun z hz => ?_⟩
                  rcases hfollowed.added z hz with hz | ⟨hz, hfresh⟩
                  · rcases hgrown.added z hz with hz | ⟨hz, hfresh⟩
                    · exact .inl hz
                    · exact .inr ⟨.head hxy hz, hfresh⟩
                  · rw [hgrown.onStack] at hfresh
                    exact .inr ⟨hz, hfresh⟩
              | left v => exact hrest.elim
              | failed e => exact hrest
              | outOfFuel => trivial

theorem ready_empty (x : α) : g.Ready x ⟨[], []⟩ := ⟨.nil, fun _ h => nomatch h⟩

theorem follow_fuel {visit : α → Comp (Search α) ε ρ Unit} {x : α} {stack : List α}
    (hvisit : ∀ y s, g.Ready y s → g.Ends y s (visit y s))
    (hfuel : ∀ y s, s.onStack = stack → g.Ready y s → (visit y s).1 ≠ .outOfFuel)
    {es done : List (Except ε α)} {s : Search α} (hstack : s.onStack = stack)
    (hs : g.Following x es done s) : (follow visit es s).1 ≠ .outOfFuel := by
  induction es generalizing done s with
  | nil => exact fun h => nomatch h
  | cons e es ih =>
      rw [follow]
      cases e with
      | error e => exact fun h => nomatch h
      | ok y =>
          have hxy : g.Edge x y := ⟨_, hs.edges, by simp⟩
          have hready : g.Ready y s := ⟨hs.settled, fun z hz => .tail' (hs.leads z hz) hxy⟩
          have hend := hvisit y s hready
          have hmore := hfuel y s hstack hready
          change ((visit y >>= fun _ => follow visit es) s).1 ≠ .outOfFuel
          rcases hv : visit y s with ⟨o, t⟩
          rw [hv] at hend hmore
          cases o with
          | left v => exact hend.elim
          | failed e =>
              rw [bind_failed hv]
              exact fun h => nomatch h
          | outOfFuel => exact absurd rfl hmore
          | value u =>
              rw [bind_value hv]
              have hgrown : g.Grown y s t := hend
              exact ih (hgrown.onStack.trans hstack) (hs.next hgrown)

variable [DecidableEq α]

theorem visit_finished (fuel : Nat) {x : α} {s : Search α} (h : x ∈ s.finished) :
    g.visit (fuel + 1) x s = ((.value (), s) : Outcome ε ρ Unit × Search α) := by
  rw [visit, bind_value (a := true) (t := s) (by simp [Search.isFinished, h])]
  rfl

theorem visit_onStack (fuel : Nat) {x : α} {s : Search α} (h : x ∉ s.finished)
    (hstack : x ∈ s.onStack) :
    g.visit (fuel + 1) x s = ((.failed (g.cycle x), s) : Outcome ε ρ Unit × Search α) := by
  rw [visit, bind_value (a := false) (t := s) (by simp [Search.isFinished, h])]
  change (Search.enter x >>= _) s = _
  rw [bind_value (a := false) (t := s) (by simp [Search.enter, hstack])]
  rfl

theorem visit_fresh (fuel : Nat) {x : α} {s : Search α} (h : x ∉ s.finished)
    (hstack : x ∉ s.onStack) :
    g.visit (fuel + 1) x s = ((lift (g.edges x) >>= fun es => follow (g.visit fuel) es >>=
      fun _ => Search.finish x) { s with onStack := x :: s.onStack } :
        Outcome ε ρ Unit × Search α) := by
  rw [visit, bind_value (a := false) (t := s) (by simp [Search.isFinished, h])]
  change (Search.enter x >>= _) s = _
  rw [bind_value (a := true) (t := { s with onStack := x :: s.onStack })
    (by simp [Search.enter, hstack])]
  rfl

/-- What a search with any fuel does from a state that is ready for it. -/
theorem visit_ends (fuel : Nat) {x : α} {s : Search α} (hs : g.Ready x s) :
    g.Ends x s (g.visit fuel x s : Outcome ε ρ Unit × Search α) := by
  induction fuel generalizing x s with
  | zero => trivial
  | succ fuel ih =>
      by_cases hfin : x ∈ s.finished
      · rw [visit_finished fuel hfin]
        exact ⟨rfl, hs.settled, fun _ h => h, hfin, fun y hy => .inl hy⟩
      by_cases hstack : x ∈ s.onStack
      · rw [visit_onStack fuel hfin hstack]
        exact fun hsound => (hsound x .refl).2 (hs.leads x hstack)
      rw [visit_fresh fuel hfin hstack]
      cases hedges : g.edges x with
      | error e =>
          intro hsound
          obtain ⟨es, hes, -⟩ := (hsound x .refl).1
          exact nomatch hedges.symm.trans hes
      | ok es =>
          have hend := follow_ends (ρ := ρ) (fun y t ht => ih ht) (hs.following hedges)
          change g.Ends x s ((follow (g.visit fuel) es >>= fun _ => Search.finish x) _)
          rcases hf : follow (g.visit fuel (ρ := ρ)) es { s with onStack := x :: s.onStack } with ⟨o, t⟩
          rw [hf] at hend
          cases o with
          | left v => exact hend.elim
          | failed e =>
              rw [bind_failed hf]
              exact hend
          | outOfFuel =>
              rw [bind_outOfFuel hf]
              trivial
          | value u =>
              rw [bind_value hf]
              have hdone : g.Followed x { s with onStack := x :: s.onStack } t := hend
              have hnew : x ∉ t.finished := by
                intro hx
                rcases hdone.added x hx with hx | ⟨-, hx⟩
                · exact hfin hx
                · exact hx (List.mem_cons_self ..)
              refine ⟨?_, hdone.settled.cons hnew hdone.opens hdone.targets,
                fun y hy => List.mem_cons_of_mem _ (hdone.kept hy), List.mem_cons_self ..,
                fun y hy => ?_⟩
              · simp only [hdone.onStack, List.erase_cons_head]
              · rcases List.mem_cons.mp hy with rfl | hy
                · exact .inr ⟨.refl, hstack⟩
                · rcases hdone.added y hy with hy | ⟨hy, hfresh⟩
                  · exact .inl hy
                  · exact .inr ⟨hy, fun h => hfresh (List.mem_cons_of_mem _ h)⟩

/-! ## Termination -/

/-- On a stack of distinct nodes that all open, fuel beyond the nodes left is enough. -/
theorem visit_fuel {nodes : List α} (hnodes : ∀ x es, g.edges x = .ok es → x ∈ nodes)
    (fuel : Nat) {x : α} {s : Search α} (hnodup : s.onStack.Nodup) (hsub : s.onStack ⊆ nodes)
    (henough : nodes.length < fuel + s.onStack.length) (hs : g.Ready x s) :
    (g.visit fuel x s : Outcome ε ρ Unit × Search α).1 ≠ .outOfFuel := by
  induction fuel generalizing x s with
  | zero =>
      have hlen : s.onStack.length ≤ nodes.length := (hnodup.subperm hsub).length_le
      omega
  | succ fuel ih =>
      by_cases hfin : x ∈ s.finished
      · rw [visit_finished fuel hfin]
        exact fun h => nomatch h
      by_cases hstack : x ∈ s.onStack
      · rw [visit_onStack fuel hfin hstack]
        exact fun h => nomatch h
      rw [visit_fresh fuel hfin hstack]
      cases hedges : g.edges x with
      | error e => exact fun h => nomatch h
      | ok es =>
          -- the node that is entered uses one of the fuel and is one of the nodes
          have hbelow : ∀ y (t : Search α), t.onStack = x :: s.onStack → g.Ready y t →
              (g.visit fuel y t : Outcome ε ρ Unit × Search α).1 ≠ .outOfFuel := by
            intro y t hstackEq ht
            refine ih ?_ ?_ ?_ ht
            · rw [hstackEq]
              exact List.nodup_cons.mpr ⟨hstack, hnodup⟩
            · rw [hstackEq]
              exact List.cons_subset.mpr ⟨hnodes x es hedges, hsub⟩
            · rw [hstackEq, List.length_cons]
              omega
          have hmore := follow_fuel (fun y t ht => visit_ends fuel ht) hbelow rfl
            (hs.following hedges)
          change ((follow (g.visit fuel) es >>= fun _ => Search.finish x) _).1 ≠ _
          rcases hf : follow (g.visit fuel (ρ := ρ)) es { s with onStack := x :: s.onStack } with ⟨o, t⟩
          rw [hf] at hmore
          cases o with
          | left v => rw [bind_left hf]; exact fun h => nomatch h
          | failed e => rw [bind_failed hf]; exact fun h => nomatch h
          | outOfFuel => exact absurd rfl hmore
          | value u => rw [bind_value hf]; exact fun h => nomatch h

end EdgeMap

end CScript.Lib.PostOrder
