import Mathlib.Data.List.Basic

/-! Finite runs of a partial step function. A system is given by `step`, which refuses a
label with `none`; its runs are the label lists it executes from a start state. The rules
below carry an invariant along a run whose steps all meet a side condition. -/
namespace CScript.Lib

variable {σ ε : Type*}

/-- Execute the labels in order, stopping with `none` at the first refused one. -/
def runFrom (step : σ → ε → Option σ) : σ → List ε → Option σ
  | s, [] => some s
  | s, e :: es => match step s e with
      | some t => runFrom step t es
      | none => none

/-- `P` holds of every label the run executes, in the state that executes it. -/
def AllSteps (step : σ → ε → Option σ) (P : σ → ε → Prop) : σ → List ε → Prop
  | _, [] => True
  | s, e :: es => match step s e with
      | some t => P s e ∧ AllSteps step P t es
      | none => True

variable {step : σ → ε → Option σ} {P Q : σ → ε → Prop}

theorem allSteps_cons_some {s t : σ} {e : ε} {es : List ε} (h : step s e = some t) :
    AllSteps step P s (e :: es) ↔ P s e ∧ AllSteps step P t es := by
  simp only [AllSteps, h]

theorem runFrom_cons_some {s t u : σ} {e : ε} {es : List ε} (h : step s e = some t) :
    runFrom step s (e :: es) = some u ↔ runFrom step t es = some u := by
  simp only [runFrom, h]

/-- An invariant that every good step keeps holds wherever a run of good steps ends. -/
theorem invariant_of_run {Inv : σ → Prop}
    (keep : ∀ s e t, Inv s → P s e → step s e = some t → Inv t)
    {s u : σ} {es : List ε} (start : Inv s) (good : AllSteps step P s es)
    (run : runFrom step s es = some u) : Inv u := by
  induction es generalizing s with
  | nil => cases run; exact start
  | cons e es ih =>
      cases h : step s e with
      | none => simp only [runFrom, h, reduceCtorEq] at run
      | some t =>
          rw [allSteps_cons_some h] at good
          exact ih (keep s e t start good.1 h) good.2 ((runFrom_cons_some h).mp run)

/-- Along a run of good steps every step has the property its invariant yields. -/
theorem allSteps_of_invariant {Inv : σ → Prop}
    (keep : ∀ s e t, Inv s → P s e → step s e = some t → Inv t)
    (yields : ∀ s e t, Inv s → P s e → step s e = some t → Q s e)
    {s : σ} {es : List ε} (start : Inv s) (good : AllSteps step P s es) :
    AllSteps step Q s es := by
  induction es generalizing s with
  | nil => trivial
  | cons e es ih =>
      cases h : step s e with
      | none => simp only [AllSteps, h]
      | some t =>
          rw [allSteps_cons_some h] at good ⊢
          exact ⟨yields s e t start good.1 h, ih (keep s e t start good.1 h) good.2⟩

theorem runFrom_append {s t : σ} {es fs : List ε} (h : runFrom step s es = some t) :
    runFrom step s (es ++ fs) = runFrom step t fs := by
  induction es generalizing s with
  | nil => cases h; rfl
  | cons e es ih =>
      cases hs : step s e with
      | none => simp only [runFrom, hs, reduceCtorEq] at h
      | some u =>
          rw [runFrom_cons_some hs] at h
          simpa only [List.cons_append, runFrom, hs] using ih h

theorem runFrom_append_iff {s u : σ} {es fs : List ε} :
    runFrom step s (es ++ fs) = some u ↔
      ∃ t, runFrom step s es = some t ∧ runFrom step t fs = some u := by
  constructor
  · intro h
    induction es generalizing s with
    | nil => exact ⟨s, rfl, h⟩
    | cons e es ih =>
        cases hs : step s e with
        | none => simp only [List.cons_append, runFrom, hs, reduceCtorEq] at h
        | some t =>
            simp only [List.cons_append, runFrom, hs] at h ⊢
            exact ih h
  · rintro ⟨t, first, rest⟩
    rw [runFrom_append first]
    exact rest

theorem runFrom_snoc {s t u : σ} {es : List ε} {e : ε} (h : runFrom step s es = some t)
    (hs : step t e = some u) : runFrom step s (es ++ [e]) = some u := by
  rw [runFrom_append h, runFrom_cons_some hs]
  rfl

/-- The steps of a run up to the first label that is refused: each with the states around it. -/
def executed (step : σ → ε → Option σ) : σ → List ε → List (σ × ε × σ)
  | _, [] => []
  | s, e :: es => match step s e with
      | some t => (s, e, t) :: executed step t es
      | none => []

/-- An invariant that the labels of the list keep holds before each executed step. -/
theorem invariant_of_executed {Inv : σ → Prop} {s : σ} {es : List ε}
    (keep : ∀ s, ∀ e ∈ es, ∀ t, Inv s → step s e = some t → Inv t) (start : Inv s) :
    ∀ x ∈ executed step s es, Inv x.1 ∧ x.2.1 ∈ es ∧ step x.1 x.2.1 = some x.2.2 := by
  induction es generalizing s with
  | nil =>
      intro x hx
      cases hx
  | cons e es ih =>
      intro x hx
      cases hs : step s e with
      | none => simp only [executed, hs, List.not_mem_nil] at hx
      | some t =>
          simp only [executed, hs, List.mem_cons] at hx
          rcases hx with rfl | hx
          · exact ⟨start, List.mem_cons_self, hs⟩
          · obtain ⟨inv, mem, made⟩ := ih (fun s e he => keep s e (List.mem_cons_of_mem _ he))
              (keep s e List.mem_cons_self t start hs) x hx
            exact ⟨inv, List.mem_cons_of_mem _ mem, made⟩

/-- An invariant that the labels of the list keep holds where the run ends. -/
theorem invariant_of_labels {Inv : σ → Prop} {s u : σ} {es : List ε}
    (keep : ∀ s, ∀ e ∈ es, ∀ t, Inv s → step s e = some t → Inv t) (start : Inv s)
    (run : runFrom step s es = some u) : Inv u := by
  induction es generalizing s with
  | nil => cases run; exact start
  | cons e es ih =>
      cases hs : step s e with
      | none => simp only [runFrom, hs, reduceCtorEq] at run
      | some t =>
          exact ih (fun s e he => keep s e (List.mem_cons_of_mem _ he))
            (keep s e List.mem_cons_self t start hs) ((runFrom_cons_some hs).mp run)

/-- `AllSteps` read off the prefixes of the run. -/
theorem allSteps_iff_runs {s : σ} {es : List ε} :
    AllSteps step P s es ↔ ∀ pre e t u, pre ++ [e] <+: es → runFrom step s pre = some t →
      step t e = some u → P t e := by
  induction es generalizing s with
  | nil =>
      refine ⟨?_, fun _ => trivial⟩
      intro _ pre e t u hp
      exact absurd (List.prefix_nil.mp hp) (List.append_ne_nil_of_right_ne_nil pre (by simp))
  | cons f es ih =>
      cases hs : step s f with
      | none =>
          refine ⟨?_, fun _ => by simp only [AllSteps, hs]⟩
          intro _ pre e t u hp run he
          cases pre with
          | nil =>
              obtain ⟨rest, same⟩ := hp
              simp only [List.nil_append, List.cons_append, List.cons.injEq] at same
              cases run
              rw [same.1, hs] at he
              cases he
          | cons g pre =>
              obtain ⟨rest, same⟩ := hp
              simp only [List.cons_append, List.cons.injEq] at same
              simp only [runFrom, same.1, hs, reduceCtorEq] at run
      | some v =>
          rw [allSteps_cons_some hs, ih]
          constructor
          · intro ⟨first, later⟩ pre e t u hp run he
            cases pre with
            | nil =>
                obtain ⟨rest, same⟩ := hp
                simp only [List.nil_append, List.cons_append, List.cons.injEq] at same
                cases run
                rw [same.1]
                exact first
            | cons g pre =>
                rw [List.cons_append, List.cons_prefix_cons] at hp
                rw [hp.1, runFrom_cons_some hs] at run
                exact later pre e t u hp.2 run he
          · intro all
            refine ⟨all [] f s v (by simp) rfl hs, ?_⟩
            intro pre e t u hp run he
            refine all (f :: pre) e t u ?_ ((runFrom_cons_some hs).mpr run) he
            rw [List.cons_append, List.cons_prefix_cons]
            exact ⟨rfl, hp⟩

/-- An invariant kept by every step holds wherever a run ends. -/
theorem invariant_of_any_run {Inv : σ → Prop}
    (keep : ∀ s e t, Inv s → step s e = some t → Inv t)
    {s u : σ} {es : List ε} (start : Inv s) (run : runFrom step s es = some u) : Inv u := by
  induction es generalizing s with
  | nil => cases run; exact start
  | cons e es ih =>
      cases h : step s e with
      | none => simp only [runFrom, h, reduceCtorEq] at run
      | some t => exact ih (keep s e t start h) ((runFrom_cons_some h).mp run)

theorem AllSteps.initial {s : σ} {pre es : List ε} (h : AllSteps step P s es)
    (hp : pre <+: es) : AllSteps step P s pre := by
  rw [allSteps_iff_runs] at h ⊢
  intro pre' e t u hp'
  exact h pre' e t u (hp'.trans hp)

/-- When a step that breaks `P` shows in the state it leads to, the states of a run are good
exactly when its steps are. -/
theorem good_states_iff_allSteps {Inv Good : σ → Prop}
    (keep : ∀ s e t, Inv s → P s e → step s e = some t → Inv t)
    (good : ∀ s, Inv s → Good s)
    (shows : ∀ s e t, Inv s → step s e = some t → Good t → P s e)
    {s : σ} {es : List ε} (start : Inv s) :
    (∀ pre u, pre <+: es → runFrom step s pre = some u → Good u) ↔ AllSteps step P s es := by
  constructor
  · intro states
    induction es generalizing s with
    | nil => trivial
    | cons e es ih =>
        cases h : step s e with
        | none => simp only [AllSteps, h]
        | some t =>
            have first : P s e := shows s e t start h <| states [e] t (by simp) <| by
              rw [runFrom_cons_some h]
              rfl
            rw [allSteps_cons_some h]
            refine ⟨first, ih (keep s e t start first h) ?_⟩
            intro pre u hp run
            exact states (e :: pre) u (by simpa using hp) ((runFrom_cons_some h).mpr run)
  · intro steps pre u hp run
    exact good u (invariant_of_run keep start (steps.initial hp) run)

end CScript.Lib
