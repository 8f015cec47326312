import CScript.Lang.Resolution
import CScript.Lib.CallDepth

/-!
# Where type resolution returns

It returns on everything exactly if no declaration leads back to itself.
-/

namespace CScript

namespace Checker

theorem sizeOf_lt_of_mem_anyParts {ts : List TypeExpr} {p : Part} (h : p ∈ anyParts ts) :
    sizeOf p.1 < sizeOf ts := by
  obtain ⟨t, ht, rfl⟩ := List.mem_map.mp h
  exact List.sizeOf_lt_of_mem ht

section

variable (checker : Checker)

theorem sizeOf_lt_of_mem_parts {t : TypeExpr} {p : Part} (h : p ∈ checker.parts t) :
    sizeOf p.1 < sizeOf t := by
  cases t with
  | named name args =>
      suffices hargs : sizeOf p.1 < sizeOf args by
        rw [TypeExpr.named.sizeOf_spec]
        omega
      change p ∈ checker.namedParts name args at h
      unfold namedParts at h
      split at h
      · simp only [List.mem_cons, List.not_mem_nil, or_false] at h
        rcases h with rfl | rfl <;> exact List.sizeOf_lt_of_mem (by simp)
      · cases List.mem_singleton.mp h
        exact List.sizeOf_lt_of_mem List.mem_cons_self
      · simp only [List.mem_cons, List.not_mem_nil, or_false] at h
        rcases h with rfl | rfl <;> exact List.sizeOf_lt_of_mem (by simp)
      · split at h
        · exact sizeOf_lt_of_mem_anyParts h
        · exact absurd h List.not_mem_nil
  | struct fields =>
      obtain ⟨t, ht, rfl⟩ := List.mem_map.mp h
      obtain ⟨f, hf, rfl⟩ := List.mem_map.mp ht
      have hlt := FieldOf.sizeOf_ty_lt hf
      rw [TypeExpr.struct.sizeOf_spec]
      dsimp only
      omega
  | optional inner =>
      cases List.mem_singleton.mp h
      rw [TypeExpr.optional.sizeOf_spec]
      dsimp only
      omega
  | list inner =>
      cases List.mem_singleton.mp h
      rw [TypeExpr.list.sizeOf_spec]
      dsimp only
      omega
  | tuple items =>
      have hlt := sizeOf_lt_of_mem_anyParts h
      rw [TypeExpr.tuple.sizeOf_spec]
      omega
  | function params ret =>
      rw [TypeExpr.function.sizeOf_spec]
      rcases List.mem_append.mp h with h | h
      · have hlt := sizeOf_lt_of_mem_anyParts h
        omega
      · cases List.mem_singleton.mp h
        dsimp only
        omega
  | map key val => exact absurd h List.not_mem_nil
  | union members =>
      have hlt := sizeOf_lt_of_mem_anyParts h
      rw [TypeExpr.union.sizeOf_spec]
      omega

/-- What a type expression has to be written as for its type to meet a need. -/
inductive Fits : Need → TypeExpr → Prop
  | any {t : TypeExpr} : Fits .any t
  | struct {fields : List Field} : Fits .struct (.struct fields)
  | string {args : List TypeExpr} : Fits .key (.named "String" args)
  | int {args : List TypeExpr} : Fits .key (.named "Int" args)
  | entered {need : Need} {t : TypeExpr} {decl : TypeDecl} (h : checker.entered t = some decl)
      (body : Fits need decl.ty) : Fits need t

/-- A type expression that denotes a type. -/
inductive WellFormed : TypeExpr → Prop
  | parts {t : TypeExpr} (h : checker.entered t = none) (alone : checker.WellFormedAlone t)
      (wellFormed : ∀ p ∈ checker.parts t, WellFormed p.1)
      (fits : ∀ p ∈ checker.parts t, checker.Fits p.2 p.1) : WellFormed t
  | entered {t : TypeExpr} {decl : TypeDecl} (h : checker.entered t = some decl)
      (body : WellFormed decl.ty) : WellFormed t

/-- The parts that resolution gets to: none in front is refused. -/
def Reached : List Part → Part → Prop
  | [], _ => False
  | q :: qs, p => p = q ∨ (checker.WellFormed q.1 ∧ checker.Fits q.2 q.1) ∧ Reached qs p

/-- A declaration that is entered for a type expression, none being open yet. -/
inductive Enters : TypeExpr → TypeDecl → Prop
  | here {t : TypeExpr} {decl : TypeDecl} (h : checker.entered t = some decl) : Enters t decl
  | part {t : TypeExpr} {p : Part} {decl : TypeDecl} (h : checker.entered t = none)
      (reached : checker.Reached (checker.parts t) p) (enters : Enters p.1 decl) : Enters t decl

end

section

variable {checker : Checker} {enter : TypeDecl → Subst → Answer Ty}

theorem mem_of_reached {ps : List Part} {p : Part} (h : checker.Reached ps p) : p ∈ ps := by
  induction ps with
  | nil => exact h.elim
  | cons q qs ih =>
      rcases h with rfl | ⟨-, h⟩
      · exact List.mem_cons_self
      · exact List.mem_cons_of_mem q (ih h)

/-- A named struct in place of an anonymous one. -/
def named (name : String) : Ty → Ty
  | .struct _ fields => .struct (some name) fields
  | other => other

theorem named_met (name : String) (need : Need) (ty : Ty) :
    need.Met (named name ty) ↔ need.Met ty := by
  cases need <;> cases ty <;> simp [named, Need.Met]

theorem entered_named {t : TypeExpr} {decl : TypeDecl} (h : checker.entered t = some decl) :
    ∃ name, t = .named name [] ∧ name ∉ builtinNames ∧ checker.typeDecl name = some decl ∧
      decl.typeParams = [] := by
  cases t with
  | named name args =>
      rw [entered] at h
      split at h
      · cases h
      · next hbuiltin =>
        obtain ⟨hdecl, hempty⟩ := Option.filter_eq_some_iff.mp h
        rw [Bool.and_eq_true, List.isEmpty_iff, List.isEmpty_iff] at hempty
        obtain ⟨hparams, rfl⟩ := hempty
        exact ⟨name, rfl, hbuiltin, hdecl, hparams⟩
  | _ => cases h

theorem resolveWith_entered {t : TypeExpr} {decl : TypeDecl} (h : checker.entered t = some decl) :
    ∃ name, (checker.resolveWith enter t []).run =
      (enter decl []).run.map (Except.map (named name)) := by
  obtain ⟨name, rfl, hbuiltin, hdecl, hparams⟩ := entered_named h
  refine ⟨name, ?_⟩
  rw [resolveWith_named, resolveNamedWith_declared List.lookup_nil hbuiltin, hdecl]
  dsimp only
  rw [hparams, if_pos List.isEmpty_nil, if_pos List.isEmpty_nil, ExceptT.run_bind]
  rcases hrun : (enter decl []).run with _ | ⟨e | ty⟩
  · rfl
  · rfl
  · cases ty <;> rfl

theorem ok_of_bind {α β : Type} {x : Answer α} {k : α → Answer β} {b : β}
    (h : (x >>= k).run = some (.ok b)) : ∃ a, (k a).run = some (.ok b) := by
  rw [ExceptT.run_bind] at h
  rcases hrun : x.run with _ | ⟨e | a⟩
  · rw [hrun] at h
    exact nomatch h
  · rw [hrun] at h
    exact nomatch h
  · rw [hrun] at h
    exact ⟨a, h⟩

/-- Neither a struct nor a key. -/
def Plain (ty : Ty) : Prop := ¬ Need.struct.Met ty ∧ ¬ Need.key.Met ty

theorem plain_of_bind {α : Type} {x : Answer α} {make : α → Ty} {ty : Ty}
    (h : (x >>= fun a => (pure (make a) : Answer Ty)).run = some (.ok ty))
    (hmake : ∀ a, Plain (make a)) : Plain ty := by
  obtain ⟨a, ha⟩ := ok_of_bind h
  cases ha
  exact hmake a

theorem resolveInstanceWith_plain {name : String} {arity : Nat} {args : List TypeExpr} {ty : Ty}
    (h : (checker.resolveInstanceWith enter name arity args []).run = some (.ok ty)) :
    Plain ty := by
  rw [resolveInstanceWith_eq] at h
  split at h
  · cases h
  · exact plain_of_bind h fun _ => by simp [Plain, Need.Met]

theorem resolveDeclared_plain {name : String} {args : List TypeExpr} {ty : Ty}
    (hbuiltin : name ∉ builtinNames) (h : checker.entered (.named name args) = none)
    (hok : (checker.resolveNamedWith enter name args []).run = some (.ok ty)) : Plain ty := by
  rw [resolveNamedWith_declared List.lookup_nil hbuiltin] at hok
  cases hdecl : checker.typeDecl name with
  | some decl =>
      rw [hdecl] at hok
      dsimp only at hok
      cases hparams : decl.typeParams with
      | nil =>
          cases args with
          | nil =>
              rw [entered, if_neg hbuiltin, hdecl, Option.filter_some] at h
              simp [hparams] at h
          | cons a rest =>
              rw [hparams, if_pos List.isEmpty_nil, if_neg (by simp)] at hok
              cases hok
      | cons p rest =>
          rw [hparams, if_neg (by simp)] at hok
          exact resolveInstanceWith_plain hok
  | none =>
      rw [hdecl] at hok
      dsimp only at hok
      split at hok
      · split at hok
        · split at hok
          · cases hok
            simp [Plain, Need.Met]
          · cases hok
        · exact resolveInstanceWith_plain hok
      · cases hok

theorem resolveNamedWith_plain {name : String} {args : List TypeExpr} {ty : Ty}
    (h : checker.entered (.named name args) = none)
    (hok : (checker.resolveNamedWith enter name args []).run = some (.ok ty))
    (hstring : name ≠ "String") (hint : name ≠ "Int") : Plain ty := by
  by_cases hbuiltin : name ∈ builtinNames
  · simp only [builtinNames, List.mem_cons, List.not_mem_nil, or_false] at hbuiltin
    rcases hbuiltin with
      rfl | rfl | rfl | rfl | rfl | rfl | rfl | rfl | rfl | rfl | rfl | rfl | rfl | rfl
    case inl => exact absurd rfl hint
    all_goals try exact absurd rfl hstring
    all_goals try
      rw [resolveNamedWith] at hok
      cases hok
      simp [Plain, Need.Met]
      done
    all_goals unfold resolveNamedWith at hok
    all_goals simp only [List.lookup_nil] at hok
    · split at hok
      · split at hok
        · exact plain_of_bind hok fun _ => by simp [Plain, Need.Met]
        · cases hok
      · cases hok
    · split at hok
      · obtain ⟨a, ha⟩ := ok_of_bind hok
        exact plain_of_bind ha fun _ => by simp [Plain, Need.Met]
      · cases hok
    · split at hok
      · obtain ⟨a, ha⟩ := ok_of_bind hok
        split at ha
        · exact plain_of_bind ha fun _ => by simp [Plain, Need.Met]
        · cases ha
      · cases hok
    · split at hok
      · obtain ⟨a, ha⟩ := ok_of_bind hok
        split at ha
        · exact plain_of_bind ha fun _ => by simp [Plain, Need.Met]
        · cases ha
      · cases hok
  · exact resolveDeclared_plain hbuiltin h hok

theorem fits_struct_iff {t : TypeExpr} (h : checker.entered t = none) :
    checker.Fits .struct t ↔ ∃ fields, t = .struct fields := by
  constructor
  · rintro (_ | _ | _ | _ | ⟨hentered, -⟩)
    · exact ⟨_, rfl⟩
    · exact nomatch h.symm.trans hentered
  · rintro ⟨fields, rfl⟩
    exact .struct

theorem fits_key_iff {t : TypeExpr} (h : checker.entered t = none) :
    checker.Fits .key t ↔ ∃ args, t = .named "String" args ∨ t = .named "Int" args := by
  constructor
  · rintro (_ | _ | _ | _ | ⟨hentered, -⟩)
    · exact ⟨_, .inl rfl⟩
    · exact ⟨_, .inr rfl⟩
    · exact nomatch h.symm.trans hentered
  · rintro ⟨args, rfl | rfl⟩
    · exact .string
    · exact .int

/-- What a type expression is written as decides what its type can stand for. -/
theorem resolveWith_met {t : TypeExpr} {ty : Ty} (h : checker.entered t = none)
    (hok : (checker.resolveWith enter t []).run = some (.ok ty)) (need : Need) :
    need.Met ty ↔ checker.Fits need t := by
  have plain (hplain : Plain ty) (hstruct : ¬ ∃ fields, t = .struct fields)
      (hkey : ¬ ∃ args, t = .named "String" args ∨ t = .named "Int" args) :
      need.Met ty ↔ checker.Fits need t := by
    cases need with
    | any => exact iff_of_true trivial .any
    | struct => exact iff_of_false hplain.1 (mt (fits_struct_iff h).mp hstruct)
    | key => exact iff_of_false hplain.2 (mt (fits_key_iff h).mp hkey)
  have key (hty : ty = .string ∨ ty = .int)
      (ht : ∃ args, t = .named "String" args ∨ t = .named "Int" args) :
      need.Met ty ↔ checker.Fits need t := by
    cases need with
    | any => exact iff_of_true trivial .any
    | struct =>
        refine iff_of_false ?_ (mt (fits_struct_iff h).mp ?_)
        · rcases hty with rfl | rfl <;> simp [Need.Met]
        · rintro ⟨fields, rfl⟩
          simp at ht
    | key => exact iff_of_true hty ((fits_key_iff h).mpr ht)
  cases t with
  | named name args =>
      rw [resolveWith_named] at hok
      by_cases hstring : name = "String"
      · subst hstring
        rw [resolveNamedWith] at hok
        cases hok
        exact key (.inl rfl) ⟨args, .inl rfl⟩
      by_cases hint : name = "Int"
      · subst hint
        rw [resolveNamedWith] at hok
        cases hok
        exact key (.inr rfl) ⟨args, .inr rfl⟩
      exact plain (resolveNamedWith_plain h hok hstring hint) (by simp) (by simp [hstring, hint])
  | struct fields =>
      rw [resolveWith] at hok
      obtain ⟨tys, htys⟩ := ok_of_bind hok
      cases htys
      cases need with
      | any => exact iff_of_true trivial .any
      | struct => exact iff_of_true ⟨_, _, rfl⟩ .struct
      | key => exact iff_of_false (by simp [Need.Met]) (mt (fits_key_iff h).mp (by simp))
  | map key val =>
      rw [resolveWith] at hok
      cases hok
  | function params ret =>
      rw [resolveWith] at hok
      obtain ⟨tys, htys⟩ := ok_of_bind hok
      exact plain (plain_of_bind htys fun _ => by simp [Plain, Need.Met]) (by simp) (by simp)
  | optional inner | list inner | tuple items | union members =>
      rw [resolveWith] at hok
      exact plain (plain_of_bind hok fun _ => by simp [Plain, Need.Met]) (by simp) (by simp)

/-- What resolution says of a type expression if it returns. -/
def Judges (checker : Checker) (ask : TypeExpr → Answer Ty) (t : TypeExpr) : Prop :=
  ∀ r, (ask t).run = some r → ((∃ ty, r = .ok ty) ↔ checker.WellFormed t) ∧
    ∀ ty, r = .ok ty → ∀ need : Need, need.Met ty ↔ checker.Fits need t

/-- A part is passed exactly if it is well formed and fits. -/
theorem passes_iff {ask : TypeExpr → Answer Ty} {p : Part} (h : checker.Judges ask p.1)
    (hreturns : (ask p.1).run ≠ none) :
    (∃ ty, (ask p.1).run = some (.ok ty) ∧ p.2.Met ty) ↔
      checker.WellFormed p.1 ∧ checker.Fits p.2 p.1 := by
  obtain ⟨r, hr⟩ := Option.ne_none_iff_exists'.mp hreturns
  obtain ⟨hwell, hfits⟩ := h r hr
  rw [hr]
  constructor
  · rintro ⟨ty, hty, hmet⟩
    cases hty
    exact ⟨hwell.mp ⟨ty, rfl⟩, (hfits ty rfl p.2).mp hmet⟩
  · rintro ⟨hp, hpfits⟩
    obtain ⟨ty, rfl⟩ := hwell.mpr hp
    exact ⟨ty, rfl, (hfits ty rfl p.2).mpr hpfits⟩

theorem stuck_iff {ask : TypeExpr → Answer Ty} {ps : List Part}
    (h : ∀ p ∈ ps, checker.Judges ask p.1) :
    Stuck ask ps ↔ ∃ p, checker.Reached ps p ∧ (ask p.1).run = none := by
  induction ps with
  | nil => exact iff_of_false id fun ⟨_, hp, _⟩ => hp
  | cons q qs ih =>
      rw [List.forall_mem_cons] at h
      rw [Stuck, ih h.2]
      constructor
      · rintro (hnone | ⟨hq, p, hp, hnone⟩)
        · exact ⟨q, .inl rfl, hnone⟩
        · have hreturns : (ask q.1).run ≠ none := by
            obtain ⟨ty, hty, -⟩ := hq
            rw [hty]
            exact Option.some_ne_none _
          exact ⟨p, .inr ⟨(passes_iff h.1 hreturns).mp hq, hp⟩, hnone⟩
      · rintro ⟨p, rfl | ⟨hq, hp⟩, hnone⟩
        · exact .inl hnone
        · by_cases hreturns : (ask q.1).run = none
          · exact .inl hreturns
          · exact .inr ⟨(passes_iff h.1 hreturns).mpr hq, p, hp, hnone⟩

theorem passes_of_not_stuck {ask : TypeExpr → Answer Ty} {ps : List Part}
    (h : ∀ p ∈ ps, checker.Judges ask p.1) (hstuck : ¬ Stuck ask ps) :
    Passes ask ps ↔ ∀ p ∈ ps, checker.WellFormed p.1 ∧ checker.Fits p.2 p.1 := by
  induction ps with
  | nil => exact iff_of_true (by simp [Passes]) (by simp)
  | cons q qs ih =>
      rw [List.forall_mem_cons] at h
      rw [Stuck, not_or] at hstuck
      unfold Passes at ih ⊢
      rw [List.forall_mem_cons, List.forall_mem_cons, passes_iff h.1 hstuck.1]
      refine and_congr_right fun hq => ih h.2 ?_
      exact fun hqs => hstuck.2 ⟨(passes_iff h.1 hstuck.1).mpr hq, hqs⟩

theorem wellFormed_iff_parts {t : TypeExpr} (h : checker.entered t = none) :
    checker.WellFormed t ↔ checker.WellFormedAlone t ∧
      ∀ p ∈ checker.parts t, checker.WellFormed p.1 ∧ checker.Fits p.2 p.1 := by
  constructor
  · rintro (⟨-, halone, hwell, hfits⟩ | ⟨hentered, -⟩)
    · exact ⟨halone, fun p hp => ⟨hwell p hp, hfits p hp⟩⟩
    · exact nomatch h.symm.trans hentered
  · rintro ⟨halone, hparts⟩
    exact .parts h halone (fun p hp => (hparts p hp).1) fun p hp => (hparts p hp).2

theorem wellFormed_iff_body {t : TypeExpr} {decl : TypeDecl} (h : checker.entered t = some decl) :
    checker.WellFormed t ↔ checker.WellFormed decl.ty := by
  constructor
  · rintro (⟨hentered, -, -, -⟩ | ⟨hentered, hbody⟩)
    · exact nomatch h.symm.trans hentered
    · cases h.symm.trans hentered
      exact hbody
  · exact .entered h

theorem fits_iff_body {need : Need} {t : TypeExpr} {decl : TypeDecl}
    (h : checker.entered t = some decl) : checker.Fits need t ↔ checker.Fits need decl.ty := by
  constructor
  · rintro (_ | _ | _ | _ | ⟨hentered, hbody⟩)
    · exact .any
    · cases h
    · rw [entered, if_pos (by decide)] at h
      cases h
    · rw [entered, if_pos (by decide)] at h
      cases h
    · cases h.symm.trans hentered
      exact hbody
  · exact .entered h

/-- The parts of a type expression are judged before it. -/
theorem judges_of_parts {t : TypeExpr} (h : checker.entered t = none)
    (hparts : ∀ p ∈ checker.parts t,
      checker.Judges (fun t => checker.resolveWith enter t []) p.1) :
    checker.Judges (fun t => checker.resolveWith enter t []) t := by
  intro r hr
  have hfollows := @resolveWith_follows checker enter t h
  have hr' : (checker.resolveWith enter t []).run = some r := hr
  rw [hr'] at hfollows
  have hstuck : ¬ Stuck (fun t => checker.resolveWith enter t []) (checker.parts t) :=
    fun hstuck => nomatch hfollows.stuck.mpr hstuck
  refine ⟨?_, ?_⟩
  · rw [wellFormed_iff_parts h, ← passes_of_not_stuck hparts hstuck, ← hfollows.ok]
    exact exists_congr fun ty => ⟨congrArg some, Option.some.inj⟩
  · rintro ty rfl need
    exact resolveWith_met h hr' need

/-- A type expression that enters a declaration is judged as its body. -/
theorem judges_of_body {t : TypeExpr} {decl : TypeDecl} (h : checker.entered t = some decl)
    {ask : TypeExpr → Answer Ty} (henter : enter decl [] = ask decl.ty)
    (hbody : checker.Judges ask decl.ty) :
    checker.Judges (fun t => checker.resolveWith enter t []) t := by
  intro r hr
  obtain ⟨name, hname⟩ := @resolveWith_entered checker enter t decl h
  have hr' : (ask decl.ty).run.map (Except.map (named name)) = some r := by
    rw [← henter, ← hname]
    exact hr
  obtain ⟨r', hask, rfl⟩ := Option.map_eq_some_iff.mp hr'
  obtain ⟨hwell, hfits⟩ := hbody r' hask
  rw [wellFormed_iff_body h, ← hwell]
  cases r' with
  | error e => exact ⟨by simp [Except.map], by simp [Except.map]⟩
  | ok ty =>
      refine ⟨by simp [Except.map], ?_⟩
      rintro _ ⟨⟩ need
      rw [named_met, fits_iff_body h]
      exact hfits ty rfl need

theorem resolveWithin_judges (n : Nat) (t : TypeExpr) :
    checker.Judges (fun t => resolveWithin checker n t []) t := by
  induction n generalizing t with
  | zero =>
      induction hsize : sizeOf t using Nat.strongRecOn generalizing t with
      | ind size ih =>
          subst hsize
          cases h : checker.entered t with
          | none =>
              exact judges_of_parts h fun p hp => ih _ (checker.sizeOf_lt_of_mem_parts hp) p.1 rfl
          | some decl =>
              exact @judges_of_body checker _ t decl h (fun _ => ExceptT.mk none) rfl
                fun r hr => nomatch hr
  | succ n ihn =>
      induction hsize : sizeOf t using Nat.strongRecOn generalizing t with
      | ind size ih =>
          subst hsize
          cases h : checker.entered t with
          | none =>
              exact judges_of_parts h fun p hp => ih _ (checker.sizeOf_lt_of_mem_parts hp) p.1 rfl
          | some decl =>
              exact @judges_of_body checker _ t decl h (fun t => resolveWithin checker n t []) rfl
                (ihn decl.ty)

theorem mem_types_of_enters {t : TypeExpr} {decl : TypeDecl} (h : checker.Enters t decl) :
    decl ∈ checker.types := by
  induction h with
  | here h =>
      obtain ⟨name, -, -, hdecl, -⟩ := entered_named h
      exact List.mem_of_find?_eq_some hdecl
  | part _ _ _ ih => exact ih

theorem enters_iff_parts {t : TypeExpr} {decl : TypeDecl} (h : checker.entered t = none) :
    checker.Enters t decl ↔ ∃ p, checker.Reached (checker.parts t) p ∧ checker.Enters p.1 decl := by
  constructor
  · rintro (hentered | ⟨-, hreached, henters⟩)
    · exact nomatch h.symm.trans hentered
    · exact ⟨_, hreached, henters⟩
  · rintro ⟨p, hreached, henters⟩
    exact .part h hreached henters

theorem enters_iff_eq {t : TypeExpr} {decl other : TypeDecl} (h : checker.entered t = some decl) :
    checker.Enters t other ↔ other = decl := by
  constructor
  · rintro (hentered | ⟨hentered, -, -⟩)
    · exact Option.some.inj (hentered.symm.trans h)
    · exact nomatch h.symm.trans hentered
  · rintro rfl
    exact .here h

/-- `resolve_type` gives a type or an error with so many declarations open at once. -/
def Returns (checker : Checker) (n : Nat) (t : TypeExpr) : Prop :=
  (resolveWithin checker n t []).run ≠ none

/-- Resolution returns exactly if that of each declaration it enters does, one level down. -/
theorem returns_iff_enters (n : Nat) (t : TypeExpr) :
    checker.Returns n t ↔
      ∀ decl, checker.Enters t decl → ∃ m, n = m + 1 ∧ checker.Returns m decl.ty := by
  unfold Returns
  induction hsize : sizeOf t using Nat.strongRecOn generalizing t with
  | ind size ih =>
      subst hsize
      cases h : checker.entered t with
      | none =>
          have hstuck : (resolveWithin checker n t []).run = none ↔
              Stuck (fun t => resolveWithin checker n t []) (checker.parts t) := by
            cases n with
            | zero => exact (resolveWith_follows h).stuck
            | succ n => exact (resolveWith_follows h).stuck
          rw [ne_eq, hstuck, stuck_iff fun p _ => resolveWithin_judges n p.1, not_exists]
          constructor
          · intro hparts decl henters
            obtain ⟨p, hreached, hp⟩ := (enters_iff_parts h).mp henters
            have hlt := checker.sizeOf_lt_of_mem_parts (mem_of_reached hreached)
            exact (ih _ hlt p.1 rfl).mp (fun hnone => hparts p ⟨hreached, hnone⟩) decl hp
          · rintro henters p ⟨hreached, hnone⟩
            have hlt := checker.sizeOf_lt_of_mem_parts (mem_of_reached hreached)
            refine (ih _ hlt p.1 rfl).mpr ?_ hnone
            exact fun decl hp => henters decl ((enters_iff_parts h).mpr ⟨p, hreached, hp⟩)
      | some decl =>
          simp only [enters_iff_eq h, forall_eq]
          cases n with
          | zero =>
              obtain ⟨name, hname⟩ :=
                @resolveWith_entered checker (fun _ _ => ExceptT.mk none) t decl h
              refine iff_of_false (not_not_intro hname) ?_
              rintro ⟨m, hm, -⟩
              exact nomatch hm
          | succ n =>
              obtain ⟨name, hname⟩ := @resolveWith_entered checker
                (fun decl subst => resolveWithin checker n decl.ty subst) t decl h
              rw [resolveWithin, hname, ne_eq, Option.map_eq_none_iff]
              constructor
              · exact fun hreturns => ⟨n, rfl, hreturns⟩
              · rintro ⟨m, hm, hreturns⟩
                cases hm
                exact hreturns

/-- One declaration enters another while it is expanded. -/
abbrev Expands (checker : Checker) : TypeDecl → TypeDecl → Prop :=
  Lib.CallDepth.Enters TypeDecl.ty checker.Enters

theorem returns_of_acyclic (h : ∀ decl, ¬ Relation.TransGen checker.Expands decl decl)
    (t : TypeExpr) : checker.Returns checker.types.length t :=
  Lib.CallDepth.returns_of_acyclic returns_iff_enters (fun _ _ => mem_types_of_enters) h t

theorem returns_iff_acyclic :
    (∀ t, ∃ n, checker.Returns n t) ↔ ∀ decl, ¬ Relation.TransGen checker.Expands decl decl :=
  Lib.CallDepth.returns_iff_acyclic returns_iff_enters fun _ _ => mem_types_of_enters

theorem resolveWithin_of_cycle {t : TypeExpr} {decl : TypeDecl} (h : checker.Enters t decl)
    (hcycle : Relation.TransGen checker.Expands decl decl) (n : Nat) :
    (resolveWithin checker n t []).run = none := by
  by_contra hreturns
  obtain ⟨m, -, hm⟩ := (returns_iff_enters n t).mp hreturns decl h
  exact Lib.CallDepth.not_returns_of_cycle returns_iff_enters hcycle m hm

end

end Checker

end CScript
