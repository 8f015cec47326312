import CScript.Lang.Program

/-!
# Whether type resolution returns

`resolve_type` expands a declared type in place, and nothing stops it from entering a declaration
that it is already expanding.
-/

namespace CScript

namespace Checker

/-- What resolution gives, if it returns. -/
abbrev Answer (α : Type) := ExceptT CheckError Option α

section

variable (checker : Checker) (enter : TypeDecl → Subst → Answer Ty)

mutual

/-- `resolve_type_subst`, where `enter` resolves the declarations that are entered. -/
def resolveWith (texpr : TypeExpr) (subst : Subst) : Answer Ty :=
  match texpr with
  | .named name args => resolveNamedWith name args subst
  | .struct fields => do
      let ftys ← fields.mapM fun f => do
        return ⟨f.name, f.optional, ← resolveWith f.ty subst⟩
      return .struct none ftys
  | .optional inner => return .optional (← resolveWith inner subst)
  | .list inner => return .list (← resolveWith inner subst)
  | .tuple items => do
      return .tuple (← items.mapM fun i => resolveWith i subst)
  | .function params ret => do
      let ptys ← params.mapM fun p => resolveWith p subst
      return .function ptys (← resolveWith ret subst)
  | .map _ _ =>
      throw ⟨"tipo map \x7b K: V \x7d todavía no soportado por el checker (ambigüedad real con structs de un campo, GRAMMAR.md §2.2) — usa Map<K, V>"⟩
  | .union members => do
      return .union (← members.mapM fun m => resolveWith m subst)
termination_by 2 * sizeOf texpr
decreasing_by
  all_goals simp_wf
  all_goals first
    | omega
    | (have hlt := FieldOf.sizeOf_ty_lt ‹_ ∈ _›; omega)
    | (have hlt := List.sizeOf_lt_of_mem ‹_ ∈ _›; omega)

/-- `resolve_named_type_subst`, less the spelling suggestion of its last message. -/
def resolveNamedWith (name : String) (args : List TypeExpr) (subst : Subst) : Answer Ty :=
  match subst.lookup name with
  | some bound =>
      if args.isEmpty then return bound
      else throw ⟨s!"'{name}' es un parámetro de tipo, no toma argumentos"⟩
  | none =>
    match name with
    | "Int" => return .int
    | "Int64" => return .int64
    | "Decimal" => return .decimal
    | "Timestamp" => return .timestamp
    | "Float" => return .float
    | "String" => return .string
    | "Uuid" => return .uuid
    | "Html" => return .html
    | "Vector" =>
        match args with
        | [.named digits dimArgs] =>
            if dimArgs.isEmpty then return .vector (← liftExcept (parseDimension digits))
            else throw ⟨"'Vector<N>': N tiene que ser un entero literal, no un tipo"⟩
        | _ => throw ⟨"'Vector<N>' requiere exactamente 1 argumento -- un entero literal, ej. 'Vector<1536>'"⟩
    | "Bool" => return .bool
    | "Void" => return .void
    | "Result" =>
        match args with
        | [a, b] => return .resultOf (← resolveWith a subst) (← resolveWith b subst)
        | _ => throw ⟨"Result<T, E> requiere exactamente 2 argumentos de tipo"⟩
    | "Patch" =>
        match args with
        | [inner] => do
            match ← resolveWith inner subst with
            | .struct _ _ => return .patchOf (← resolveWith inner subst)
            | other => throw ⟨s!"Patch<T> requiere que T sea un struct, se encontró {other.display}"⟩
        | _ => throw ⟨"Patch<T> requiere exactamente 1 argumento de tipo"⟩
    | "Map" =>
        match args with
        | [k, v] => do
            let kTy ← resolveWith k subst
            if kTy = .string ∨ kTy = .int then return .mapOf kTy (← resolveWith v subst)
            else throw ⟨s!"Map<K, V>: K debe ser String o Int (son las únicas claves JSON válidas), se encontró {kTy.display}"⟩
        | _ => throw ⟨"Map<K, V> requiere exactamente 2 argumentos de tipo"⟩
    | _ =>
        match checker.typeDecl name with
        | some decl =>
            if decl.typeParams.isEmpty then
              if args.isEmpty then do
                match ← enter decl subst with
                | .struct _ fields => return .struct (some name) fields
                | other => return other
              else throw ⟨s!"'{name}' no es genérico, no toma argumentos de tipo"⟩
            else resolveInstanceWith name decl.typeParams.length args subst
        | none =>
          match checker.enumDecl name with
          | some decl =>
              if decl.typeParams.isEmpty then
                if args.isEmpty then return .enum name
                else throw ⟨s!"'{name}' no es genérico, no toma argumentos de tipo"⟩
              else resolveInstanceWith name decl.typeParams.length args subst
          | none => throw ⟨s!"tipo desconocido: '{name}'"⟩
termination_by 2 * sizeOf args + 1

def resolveInstanceWith (name : String) (arity : Nat) (args : List TypeExpr) (subst : Subst) :
    Answer Ty :=
  if args.length ≠ arity then
    throw ⟨s!"'{name}' espera {arity} argumento(s) de tipo, se dieron {args.length}"⟩
  else do
    return .generic name (← args.mapM fun a => resolveWith a subst)
termination_by 2 * sizeOf args
decreasing_by
  have := List.sizeOf_lt_of_mem ‹_ ∈ args›
  omega

end

end

-- made here once, and not by each of the proofs that unfold the functions side by side
alias resolveWith_named := resolveWith.eq_1
alias resolveNamedWith_int := resolveNamedWith.eq_1
alias resolveInstanceWith_eq := resolveInstanceWith.eq_1

/-- `resolve_type_subst` down to a number of declarations open at once. -/
def resolveWithin (checker : Checker) : Nat → TypeExpr → Subst → Answer Ty
  | 0 => checker.resolveWith fun _ _ => ExceptT.mk none
  | n + 1 => checker.resolveWith fun decl subst => resolveWithin checker n decl.ty subst

/-! ## What is resolved in turn -/

/-- What a part has to be for the parts behind it to be resolved. -/
inductive Need where
  | any
  | struct
  | key

def Need.Met : Need → Ty → Prop
  | .any, _ => True
  | .struct, t => ∃ name fields, t = .struct name fields
  | .key, t => t = .string ∨ t = .int

abbrev Part := TypeExpr × Need

def anyParts (ts : List TypeExpr) : List Part := ts.map fun t => (t, .any)

def builtinNames : List String :=
  ["Int", "Int64", "Decimal", "Timestamp", "Float", "String", "Uuid", "Html", "Vector", "Bool", "Void",
    "Result", "Patch", "Map"]

section

variable (checker : Checker)

/-- How many arguments a declared name takes. -/
def declaredArity (name : String) : Option Nat :=
  match checker.typeDecl name with
  | some decl => some decl.typeParams.length
  | none => (checker.enumDecl name).map fun decl => decl.typeParams.length

def namedParts (name : String) (args : List TypeExpr) : List Part :=
  match name, args with
  | "Result", [a, b] => [(a, .any), (b, .any)]
  | "Patch", [inner] => [(inner, .struct)]
  | "Map", [k, v] => [(k, .key), (v, .any)]
  | name, args =>
      if name ∉ builtinNames ∧ checker.declaredArity name = some args.length then anyParts args
      else []

/-- The parts of a type expression in the order in which they are resolved. -/
def parts : TypeExpr → List Part
  | .named name args => checker.namedParts name args
  | .struct fields => anyParts (fields.map fun f => f.ty)
  | .optional inner | .list inner => [(inner, .any)]
  | .tuple items => anyParts items
  | .function params ret => anyParts params ++ [(ret, .any)]
  | .map _ _ => []
  | .union members => anyParts members

/-- The declaration that is entered in place of a name. -/
def entered : TypeExpr → Option TypeDecl
  | .named name args =>
      if name ∈ builtinNames then none
      else (checker.typeDecl name).filter fun decl => decl.typeParams.isEmpty && args.isEmpty
  | _ => none

/-- A type expression that is not refused for its own form. -/
def WellFormedAlone : TypeExpr → Prop
  | .named "Vector" args => ∃ digits n, args = [.named digits []] ∧ parseDimension digits = .ok n
  | .named "Result" args => args.length = 2
  | .named "Patch" args => args.length = 1
  | .named "Map" args => args.length = 2
  | .named name args => name ∈ builtinNames ∨ checker.declaredArity name = some args.length
  | .map _ _ => False
  | _ => True

end

/-- The first part that is reached and does not return. -/
def Stuck (ask : TypeExpr → Answer Ty) : List Part → Prop
  | [] => False
  | p :: ps => (ask p.1).run = none ∨
      (∃ ty, (ask p.1).run = some (.ok ty) ∧ p.2.Met ty) ∧ Stuck ask ps

def Passes (ask : TypeExpr → Answer Ty) (ps : List Part) : Prop :=
  ∀ p ∈ ps, ∃ ty, (ask p.1).run = some (.ok ty) ∧ p.2.Met ty

/-- Resolution goes through the parts. -/
structure Follows (ask : TypeExpr → Answer Ty) (ps : List Part) (alone : Prop)
    (answer : Option (Except CheckError Ty)) : Prop where
  stuck : answer = none ↔ Stuck ask ps
  ok : (∃ ty, answer = some (.ok ty)) ↔ alone ∧ Passes ask ps

theorem follows_ok (ask : TypeExpr → Answer Ty) (ty : Ty) :
    Follows ask [] True (some (.ok ty)) :=
  ⟨iff_of_false (fun h => nomatch h) id,
    iff_of_true ⟨ty, rfl⟩ ⟨trivial, fun _ h => absurd h List.not_mem_nil⟩⟩

theorem follows_scalar {ask : TypeExpr → Answer Ty} {ps : List Part} {alone : Prop}
    {answer : Option (Except CheckError Ty)} (hps : ps = []) (halone : alone) {ty : Ty}
    (hanswer : answer = some (.ok ty)) : Follows ask ps alone answer := by
  rw [hps, hanswer, eq_true halone]
  exact follows_ok ask ty

theorem follows_error (ask : TypeExpr → Answer Ty) (e : CheckError) :
    Follows ask [] False (some (.error e)) :=
  ⟨iff_of_false (fun h => nomatch h) id, iff_of_false (fun ⟨_, h⟩ => nomatch h) (·.1)⟩

/-- One part, and what follows it. -/
theorem follows_cons {ask : TypeExpr → Answer Ty} {p : Part} {ps : List Part} {alone : Prop}
    {answer : Option (Except CheckError Ty)}
    (hnone : (ask p.1).run = none → answer = none)
    (herror : ∀ e, (ask p.1).run = some (.error e) → answer = some (.error e))
    (hunmet : ∀ ty, (ask p.1).run = some (.ok ty) → ¬ p.2.Met ty → ∃ e, answer = some (.error e))
    (hmet : ∀ ty, (ask p.1).run = some (.ok ty) → p.2.Met ty → Follows ask ps alone answer) :
    Follows ask (p :: ps) alone answer := by
  have refused {e : CheckError} (hanswer : answer = some (.error e)) (hrun : (ask p.1).run ≠ none)
      (hp : ¬ ∃ ty, (ask p.1).run = some (.ok ty) ∧ p.2.Met ty) :
      Follows ask (p :: ps) alone answer := by
    refine ⟨iff_of_false (by rw [hanswer]; exact fun h => nomatch h) ?_,
      iff_of_false (by rw [hanswer]; exact fun ⟨_, h⟩ => nomatch h)
        fun h => hp (h.2 p List.mem_cons_self)⟩
    rintro (h | ⟨h, -⟩)
    · exact hrun h
    · exact hp h
  cases hrun : (ask p.1).run with
  | none =>
      refine ⟨iff_of_true (hnone hrun) (.inl hrun), iff_of_false ?_ fun h => ?_⟩
      · rw [hnone hrun]
        exact fun ⟨_, h⟩ => nomatch h
      · obtain ⟨ty, hty, -⟩ := h.2 p List.mem_cons_self
        exact nomatch hrun.symm.trans hty
  | some r =>
      cases r with
      | error e =>
          refine refused (herror e hrun) (by rw [hrun]; exact fun h => nomatch h) ?_
          rintro ⟨ty, hty, -⟩
          exact nomatch hrun.symm.trans hty
      | ok ty =>
          by_cases hneed : p.2.Met ty
          · obtain ⟨hstuck, hok⟩ := hmet ty hrun hneed
            have hp : ∃ ty, (ask p.1).run = some (.ok ty) ∧ p.2.Met ty := ⟨ty, hrun, hneed⟩
            refine ⟨?_, ?_⟩
            · rw [hstuck, Stuck, hrun]
              exact ⟨fun h => .inr ⟨⟨ty, rfl, hneed⟩, h⟩,
                fun h => h.elim (fun h => nomatch h) (·.2)⟩
            · rw [hok]
              unfold Passes
              rw [List.forall_mem_cons]
              exact and_congr_right fun _ => (and_iff_right hp).symm
          · obtain ⟨e, he⟩ := hunmet ty hrun hneed
            refine refused he (by rw [hrun]; exact fun h => nomatch h) ?_
            rintro ⟨ty', hty', hneed'⟩
            rw [hrun] at hty'
            cases hty'
            exact hneed hneed'

theorem follows_bind {ask : TypeExpr → Answer Ty} {t : TypeExpr} {ps : List Part} {alone : Prop}
    {k : Ty → Answer Ty} (h : ∀ ty, Follows ask ps alone (k ty).run) :
    Follows ask ((t, .any) :: ps) alone (ask t >>= k).run := by
  rw [ExceptT.run_bind]
  refine follows_cons ?_ ?_ ?_ ?_
  · intro hrun
    rw [show (ask t).run = none from hrun]
    rfl
  · intro e hrun
    rw [show (ask t).run = some (.error e) from hrun]
    rfl
  · exact fun _ _ h => absurd trivial h
  · intro ty hrun _
    rw [show (ask t).run = some (.ok ty) from hrun]
    exact h ty

theorem follows_mapM {α : Type} {ask : TypeExpr → Answer Ty} {form : α → TypeExpr} {β : Type}
    {make : α → Ty → β} {xs : List α} {ps : List Part} {alone : Prop} {k : List β → Answer Ty}
    (h : ∀ tys, Follows ask ps alone (k tys).run) :
    Follows ask (anyParts (xs.map form) ++ ps) alone
      ((xs.mapM fun x => do return make x (← ask (form x))) >>= k).run := by
  induction xs generalizing k with
  | nil => exact h []
  | cons x xs ih =>
      have hstep : ((x :: xs).mapM fun x => do return make x (← ask (form x))) >>= k =
          ask (form x) >>= fun ty =>
            (xs.mapM fun x => do return make x (← ask (form x))) >>= fun tys =>
              k (make x ty :: tys) := by
        simp only [List.mapM_cons, bind_assoc, pure_bind]
      rw [hstep]
      exact follows_bind fun ty => ih fun tys => h _

theorem follows_list {ask : TypeExpr → Answer Ty} {ts : List TypeExpr} {ps : List Part}
    {alone : Prop} {k : List Ty → Answer Ty} (h : ∀ tys, Follows ask ps alone (k tys).run) :
    Follows ask (anyParts ts ++ ps) alone (ts.mapM ask >>= k).run := by
  have hlist := @follows_mapM TypeExpr ask id Ty (fun _ ty => ty) ts ps alone k h
  simpa only [bind_pure, List.map_id, id_eq] using hlist

section

variable {checker : Checker} {enter : TypeDecl → Subst → Answer Ty}

theorem resolveInstanceWith_follows {name : String} {arity : Nat} {args : List TypeExpr} :
    Follows (fun t => checker.resolveWith enter t [])
      (if arity = args.length then anyParts args else []) (arity = args.length)
      (checker.resolveInstanceWith enter name arity args []).run := by
  rw [resolveInstanceWith_eq]
  by_cases harity : args.length = arity
  · rw [if_neg (not_not_intro harity), if_pos harity.symm, ← List.append_nil (anyParts args),
      eq_true harity.symm]
    exact follows_list fun tys => follows_ok _ _
  · rw [if_pos harity, if_neg (Ne.symm harity), eq_false (Ne.symm harity)]
    exact follows_error _ _

theorem ne_of_not_builtin {name : String} (h : name ∉ builtinNames) :
    ∀ builtin ∈ builtinNames, name ≠ builtin := fun _ hmem heq => h (heq ▸ hmem)

/-- A name that is not built in is a declared one. -/
theorem resolveNamedWith_declared {name : String} {args : List TypeExpr} {subst : Subst}
    (hfree : subst.lookup name = none) (h : name ∉ builtinNames) :
    checker.resolveNamedWith enter name args subst =
      match checker.typeDecl name with
      | some decl =>
          if decl.typeParams.isEmpty then
            if args.isEmpty then do
              match ← enter decl subst with
              | .struct _ fields => return .struct (some name) fields
              | other => return other
            else throw ⟨s!"'{name}' no es genérico, no toma argumentos de tipo"⟩
          else checker.resolveInstanceWith enter name decl.typeParams.length args subst
      | none =>
          match checker.enumDecl name with
          | some decl =>
              if decl.typeParams.isEmpty then
                if args.isEmpty then return .enum name
                else throw ⟨s!"'{name}' no es genérico, no toma argumentos de tipo"⟩
              else checker.resolveInstanceWith enter name decl.typeParams.length args subst
          | none => throw ⟨s!"tipo desconocido: '{name}'"⟩ := by
  rw [resolveNamedWith, hfree]
  all_goals
    intro heq
    exact ne_of_not_builtin h _ (by decide) heq

theorem follows_refused {ask : TypeExpr → Answer Ty} {ps : List Part} {alone : Prop}
    {answer : Option (Except CheckError Ty)} (hps : ps = []) (halone : ¬ alone)
    (hanswer : ∃ e, answer = some (.error e)) : Follows ask ps alone answer := by
  obtain ⟨e, rfl⟩ := hanswer
  rw [hps, eq_false halone]
  exact follows_error ask e

theorem namedParts_eq_nil {name : String} {args : List TypeExpr} (h : name ∈ builtinNames)
    (hresult : ∀ a b, name = "Result" → args ≠ [a, b]) (hpatch : ∀ a, name = "Patch" → args ≠ [a])
    (hmap : ∀ k v, name = "Map" → args ≠ [k, v]) : checker.namedParts name args = [] := by
  unfold namedParts
  split
  · exact absurd rfl (hresult _ _ rfl)
  · exact absurd rfl (hpatch _ rfl)
  · exact absurd rfl (hmap _ _ rfl)
  · exact if_neg fun hdeclared => hdeclared.1 h

theorem resolveVector_follows (args : List TypeExpr) :
    Follows (fun t => checker.resolveWith enter t []) (checker.namedParts "Vector" args)
      (checker.WellFormedAlone (.named "Vector" args))
      (checker.resolveNamedWith enter "Vector" args []).run := by
  by_cases hform : ∃ digits dimArgs, args = [.named digits dimArgs]
  · obtain ⟨digits, dimArgs, rfl⟩ := hform
    have hrun : (checker.resolveNamedWith enter "Vector" [.named digits dimArgs] []).run =
        if dimArgs.isEmpty then some ((parseDimension digits).map .vector)
        else some (.error ⟨"'Vector<N>': N tiene que ser un entero literal, no un tipo"⟩) := by
      rw [resolveNamedWith]
      change (if dimArgs.isEmpty = true then _ else _ : Answer Ty).run = _
      split
      · cases parseDimension digits <;> rfl
      · rfl
    rw [hrun]
    cases dimArgs with
    | nil =>
        cases hdim : parseDimension digits with
        | ok n => exact follows_scalar rfl ⟨digits, n, rfl, hdim⟩ rfl
        | error e =>
            refine follows_refused rfl ?_ ⟨e, rfl⟩
            rintro ⟨digits', n, hargs, hok⟩
            cases hargs
            exact nomatch hdim.symm.trans hok
    | cons a rest =>
        refine follows_refused rfl ?_ ⟨_, rfl⟩
        rintro ⟨digits', n, hargs, -⟩
        cases hargs
  · refine follows_refused rfl ?_ ?_
    · rintro ⟨digits, n, hargs, -⟩
      exact hform ⟨digits, [], hargs⟩
    · rw [resolveNamedWith]
      · exact ⟨_, rfl⟩
      · exact fun digits dimArgs hargs => hform ⟨digits, dimArgs, hargs⟩

theorem resolveResult_follows (args : List TypeExpr) :
    Follows (fun t => checker.resolveWith enter t []) (checker.namedParts "Result" args)
      (checker.WellFormedAlone (.named "Result" args))
      (checker.resolveNamedWith enter "Result" args []).run := by
  by_cases hform : ∃ a b, args = [a, b]
  · obtain ⟨a, b, rfl⟩ := hform
    have halone : checker.WellFormedAlone (.named "Result" [a, b]) = True := eq_true rfl
    rw [resolveNamedWith, halone]
    exact follows_bind fun _ => follows_bind fun _ => follows_ok _ _
  · refine follows_refused (namedParts_eq_nil (by decide) (fun a b _ hargs => hform ⟨a, b, hargs⟩)
      (by simp) (by simp)) (fun hlength => hform (List.length_eq_two.mp hlength)) ?_
    rw [resolveNamedWith]
    · exact ⟨_, rfl⟩
    · exact fun a b hargs => hform ⟨a, b, hargs⟩

/-- The argument of `Patch` is resolved twice, to the same struct. -/
theorem resolvePatch_follows (args : List TypeExpr) :
    Follows (fun t => checker.resolveWith enter t []) (checker.namedParts "Patch" args)
      (checker.WellFormedAlone (.named "Patch" args))
      (checker.resolveNamedWith enter "Patch" args []).run := by
  by_cases hform : ∃ inner, args = [inner]
  · obtain ⟨inner, rfl⟩ := hform
    have halone : checker.WellFormedAlone (.named "Patch" [inner]) = True := eq_true rfl
    rw [resolveNamedWith, halone]
    simp only [List.lookup_nil]
    rw [ExceptT.run_bind]
    refine @follows_cons _ (inner, .struct) [] _ _ ?_ ?_ ?_ ?_
    · intro hrun
      rw [show (checker.resolveWith enter inner []).run = none from hrun]
      rfl
    · intro e hrun
      rw [show (checker.resolveWith enter inner []).run = some (.error e) from hrun]
      rfl
    · intro ty hrun hneed
      rw [show (checker.resolveWith enter inner []).run = some (.ok ty) from hrun]
      cases ty
      case struct name fields => exact absurd ⟨name, fields, rfl⟩ hneed
      all_goals exact ⟨_, rfl⟩
    · rintro ty hrun ⟨name, fields, rfl⟩
      have hagain : (checker.resolveWith enter inner [] : Answer Ty) =
          ExceptT.mk (some (.ok (.struct name fields))) := hrun
      rw [hagain]
      exact follows_ok _ _
  · refine follows_refused (namedParts_eq_nil (by decide) (by simp)
      (fun inner _ hargs => hform ⟨inner, hargs⟩) (by simp))
      (fun hlength => hform (List.length_eq_one_iff.mp hlength)) ?_
    rw [resolveNamedWith]
    · exact ⟨_, rfl⟩
    · exact fun inner hargs => hform ⟨inner, hargs⟩

theorem resolveMap_follows (args : List TypeExpr) :
    Follows (fun t => checker.resolveWith enter t []) (checker.namedParts "Map" args)
      (checker.WellFormedAlone (.named "Map" args))
      (checker.resolveNamedWith enter "Map" args []).run := by
  by_cases hform : ∃ k v, args = [k, v]
  · obtain ⟨k, v, rfl⟩ := hform
    have halone : checker.WellFormedAlone (.named "Map" [k, v]) = True := eq_true rfl
    rw [resolveNamedWith, halone]
    simp only [List.lookup_nil]
    rw [ExceptT.run_bind]
    refine @follows_cons _ (k, .key) [(v, .any)] _ _ ?_ ?_ ?_ ?_
    · intro hrun
      rw [show (checker.resolveWith enter k []).run = none from hrun]
      rfl
    · intro e hrun
      rw [show (checker.resolveWith enter k []).run = some (.error e) from hrun]
      rfl
    · intro ty hrun hneed
      rw [show (checker.resolveWith enter k []).run = some (.ok ty) from hrun]
      have hkey : ¬ (ty = .string ∨ ty = .int) := hneed
      dsimp only [bind, Option.bind]
      rw [if_neg hkey]
      exact ⟨_, rfl⟩
    · intro ty hrun hneed
      rw [show (checker.resolveWith enter k []).run = some (.ok ty) from hrun]
      have hkey : ty = .string ∨ ty = .int := hneed
      dsimp only [bind, Option.bind]
      rw [if_pos hkey]
      exact follows_bind fun _ => follows_ok _ _
  · refine follows_refused (namedParts_eq_nil (by decide) (by simp) (by simp)
      fun k v _ hargs => hform ⟨k, v, hargs⟩) (fun hlength => hform (List.length_eq_two.mp hlength))
      ?_
    rw [resolveNamedWith]
    · exact ⟨_, rfl⟩
    · exact fun k v hargs => hform ⟨k, v, hargs⟩

theorem resolveDeclared_follows {name : String} {args : List TypeExpr}
    (hbuiltin : name ∉ builtinNames) (h : checker.entered (.named name args) = none) :
    Follows (fun t => checker.resolveWith enter t [])
      (if checker.declaredArity name = some args.length then anyParts args else [])
      (checker.declaredArity name = some args.length)
      (match checker.typeDecl name with
        | some decl =>
            if decl.typeParams.isEmpty then
              if args.isEmpty then do
                match ← enter decl [] with
                | .struct _ fields => return .struct (some name) fields
                | other => return other
              else throw ⟨s!"'{name}' no es genérico, no toma argumentos de tipo"⟩
            else checker.resolveInstanceWith enter name decl.typeParams.length args []
        | none =>
            match checker.enumDecl name with
            | some decl =>
                if decl.typeParams.isEmpty then
                  if args.isEmpty then return .enum name
                  else throw ⟨s!"'{name}' no es genérico, no toma argumentos de tipo"⟩
                else checker.resolveInstanceWith enter name decl.typeParams.length args []
            | none => throw ⟨s!"tipo desconocido: '{name}'"⟩ : Answer Ty).run := by
  unfold declaredArity
  cases hdecl : checker.typeDecl name with
  | some decl =>
      simp only [Option.some.injEq]
      cases hparams : decl.typeParams with
      | nil =>
          cases args with
          | nil =>
              rw [entered, if_neg hbuiltin, hdecl, Option.filter_some] at h
              simp [hparams] at h
          | cons a rest => exact follows_refused (if_neg (by simp)) (by simp) ⟨_, rfl⟩
      | cons p rest => exact resolveInstanceWith_follows
  | none =>
      cases henum : checker.enumDecl name with
      | some decl =>
          simp only [Option.map_some, Option.some.injEq]
          cases hparams : decl.typeParams with
          | nil =>
              cases args with
              | nil => exact follows_scalar rfl rfl rfl
              | cons a rest => exact follows_refused (if_neg (by simp)) (by simp) ⟨_, rfl⟩
          | cons p rest => exact resolveInstanceWith_follows
      | none => exact follows_refused (if_neg (by simp)) (by simp) ⟨_, rfl⟩

theorem resolveNamedWith_follows {name : String} {args : List TypeExpr}
    (h : checker.entered (.named name args) = none) :
    Follows (fun t => checker.resolveWith enter t []) (checker.namedParts name args)
      (checker.WellFormedAlone (.named name args))
      (checker.resolveNamedWith enter name args []).run := by
  by_cases hbuiltin : name ∈ builtinNames
  · simp only [builtinNames, List.mem_cons, List.not_mem_nil, or_false] at hbuiltin
    rcases hbuiltin with
      rfl | rfl | rfl | rfl | rfl | rfl | rfl | rfl | rfl | rfl | rfl | rfl | rfl | rfl
    all_goals try exact follows_scalar rfl (.inl (by decide)) (by rw [resolveNamedWith]; rfl)
    · exact resolveVector_follows args
    · exact resolveResult_follows args
    · exact resolvePatch_follows args
    · exact resolveMap_follows args
  · have hparts : checker.namedParts name args =
        if checker.declaredArity name = some args.length then anyParts args else [] := by
      have hne := ne_of_not_builtin hbuiltin
      unfold namedParts
      split
      · exact absurd rfl (hne _ (by decide))
      · exact absurd rfl (hne _ (by decide))
      · exact absurd rfl (hne _ (by decide))
      · exact if_congr (and_iff_right hbuiltin) rfl rfl
    have halone : checker.WellFormedAlone (.named name args) ↔
        checker.declaredArity name = some args.length := by
      have hne := ne_of_not_builtin hbuiltin
      unfold WellFormedAlone
      split
      case h_5 heq =>
          cases heq
          exact or_iff_right hbuiltin
      case h_6 heq => cases heq
      case h_7 hnamed _ => exact absurd rfl (hnamed name args)
      all_goals
        rename_i heq
        cases heq
        exact absurd rfl (hne _ (by decide))
    rw [hparts, halone, resolveNamedWith_declared List.lookup_nil hbuiltin]
    exact resolveDeclared_follows hbuiltin h

/-- A type expression that enters no declaration follows its parts. -/
theorem resolveWith_follows {t : TypeExpr} (h : checker.entered t = none) :
    Follows (fun t => checker.resolveWith enter t []) (checker.parts t) (checker.WellFormedAlone t)
      (checker.resolveWith enter t []).run := by
  cases t with
  | named name args =>
      rw [resolveWith_named]
      exact resolveNamedWith_follows h
  | struct fields =>
      rw [resolveWith, parts, ← List.append_nil (anyParts _)]
      exact @follows_mapM Field _ (fun f => f.ty) FieldType
        (fun f ty => ⟨f.name, f.optional, ty⟩) fields [] True (fun tys => return .struct none tys)
        fun tys => follows_ok _ _
  | optional inner =>
      rw [resolveWith]
      exact follows_bind fun ty => follows_ok _ _
  | list inner =>
      rw [resolveWith]
      exact follows_bind fun ty => follows_ok _ _
  | tuple items =>
      rw [resolveWith, parts, ← List.append_nil (anyParts _)]
      exact follows_list fun tys => follows_ok _ _
  | function params ret =>
      rw [resolveWith, parts]
      exact follows_list fun tys => follows_bind fun ty => follows_ok _ _
  | map key val =>
      rw [resolveWith]
      exact follows_error _ _
  | union members =>
      rw [resolveWith, parts, ← List.append_nil (anyParts _)]
      exact follows_list fun tys => follows_ok _ _

end

end Checker

end CScript
