import CScript.Lang.ResolutionReturns

/-!
# Whether the symbol tables are built

`build_symbols` asks for a resolution of every signature and collection. Without a recursive type it
returns the tables that the checker is modelled with.
-/

namespace CScript

namespace Checker

/-! ## The resolution with a bound -/

/-- What the first gives if it returns is the second. -/
def Agree {α : Type} (x : Answer α) (y : Except CheckError α) : Prop := ∀ r, x.run = some r → y = r

theorem agree_pure {α : Type} (a : α) : Agree (pure a) (.ok a) := fun _ h => Option.some.inj h

theorem agree_throw {α : Type} (e : CheckError) : Agree (throw e : Answer α) (.error e) :=
  fun _ h => Option.some.inj h

theorem agree_liftExcept {α : Type} (y : Except CheckError α) : Agree (liftExcept y) y := by
  cases y with
  | ok a => exact agree_pure a
  | error e => exact agree_throw e

theorem agree_bind {α β : Type} {x : Answer α} {y : Except CheckError α} {k : α → Answer β}
    {l : α → Except CheckError β} (h : Agree x y) (hk : ∀ a, Agree (k a) (l a)) :
    Agree (x >>= k) (y >>= l) := by
  intro r hr
  rw [ExceptT.run_bind] at hr
  rcases hrun : x.run with _ | ⟨e | a⟩
  · rw [hrun] at hr
    exact nomatch hr
  · rw [hrun] at hr
    cases hr
    rw [h _ hrun]
    rfl
  · rw [hrun] at hr
    rw [h _ hrun]
    exact hk a r hr

theorem agree_mapM {α β : Type} {p : α → Prop} {f : α → Answer β}
    {g : { x // p x } → Except CheckError β} {xs : List { x // p x }}
    (h : ∀ x ∈ xs, Agree (f x.1) (g x)) : Agree ((xs.map Subtype.val).mapM f) (xs.mapM g) := by
  induction xs with
  | nil => exact agree_pure []
  | cons x xs ih =>
      rw [List.forall_mem_cons] at h
      rw [List.map_cons, List.mapM_cons, List.mapM_cons]
      exact agree_bind h.1 fun b => agree_bind (ih h.2) fun bs => agree_pure _

theorem agree_attach {α β : Type} {xs : List α} {f : α → Answer β}
    {g : { x // x ∈ xs } → Except CheckError β} (h : ∀ x, Agree (f x.1) (g x)) :
    Agree (xs.mapM f) (xs.attach.mapM g) := by
  have hmapM : Agree ((xs.attach.map Subtype.val).mapM f) (xs.attach.mapM g) :=
    agree_mapM fun x _ => h x
  rwa [List.attach_map_subtype_val] at hmapM

section

variable {checker : Checker} {enter : TypeDecl → Subst → Answer Ty} {fuel : Nat}

theorem resolveInstanceWith_agrees {name : String} {arity : Nat} {args : List TypeExpr}
    (h : ∀ a ∈ args, Agree (checker.resolveWith enter a []) (checker.resolveTypeSubst fuel a [])) :
    Agree (checker.resolveInstanceWith enter name arity args [])
      (checker.resolveInstance fuel name arity args []) := by
  rw [resolveInstanceWith_eq, resolveInstance]
  split
  · exact agree_throw _
  · exact agree_bind (agree_attach fun a => h a.1 a.2) fun _ => agree_pure _

theorem resolveNamedTypeSubst_declared {name : String} {args : List TypeExpr} {subst : Subst}
    (hfree : subst.lookup name = none) (h : name ∉ builtinNames) :
    checker.resolveNamedTypeSubst fuel name args subst =
      match checker.typeDecl name with
      | some decl =>
          if decl.typeParams.isEmpty then
            if args.isEmpty then
              match fuel with
              | 0 => .error ⟨s!"tipo recursivo: '{name}'"⟩
              | fuel + 1 => do
                  match ← checker.resolveTypeSubst fuel decl.ty subst with
                  | .struct _ fields => return .struct (some name) fields
                  | other => return other
            else .error ⟨s!"'{name}' no es genérico, no toma argumentos de tipo"⟩
          else checker.resolveInstance fuel name decl.typeParams.length args subst
      | none =>
          match checker.enumDecl name with
          | some decl =>
              if decl.typeParams.isEmpty then
                if args.isEmpty then .ok (.enum name)
                else .error ⟨s!"'{name}' no es genérico, no toma argumentos de tipo"⟩
              else checker.resolveInstance fuel name decl.typeParams.length args subst
          | none => .error ⟨s!"tipo desconocido: '{name}'"⟩ := by
  rw [resolveNamedTypeSubst.eq_def, hfree]
  dsimp only
  split
  case h_15 => rfl
  all_goals exact absurd (by decide) h

/-- What entering a declaration agrees with. -/
def EntersWithin (checker : Checker) (enter : TypeDecl → Subst → Answer Ty) : Nat → Prop
  | 0 => ∀ decl, (enter decl []).run = none
  | fuel + 1 => ∀ decl, Agree (enter decl []) (checker.resolveTypeSubst fuel decl.ty [])

theorem resolveDeclared_agrees {name : String} {args : List TypeExpr}
    (hbuiltin : name ∉ builtinNames) (henter : EntersWithin checker enter fuel)
    (h : ∀ a ∈ args, Agree (checker.resolveWith enter a []) (checker.resolveTypeSubst fuel a [])) :
    Agree (checker.resolveNamedWith enter name args [])
      (checker.resolveNamedTypeSubst fuel name args []) := by
  rw [resolveNamedWith_declared List.lookup_nil hbuiltin,
    resolveNamedTypeSubst_declared List.lookup_nil hbuiltin]
  cases checker.typeDecl name with
  | some decl =>
      dsimp only
      by_cases hparams : decl.typeParams.isEmpty
      · rw [if_pos hparams, if_pos hparams]
        by_cases hargs : args.isEmpty
        · rw [if_pos hargs, if_pos hargs]
          cases fuel with
          | zero =>
              intro r hr
              rw [ExceptT.run_bind, henter decl] at hr
              exact nomatch hr
          | succ fuel =>
              refine agree_bind (henter decl) fun ty => ?_
              cases ty <;> exact agree_pure _
        · rw [if_neg hargs, if_neg hargs]
          exact agree_throw _
      · rw [if_neg hparams, if_neg hparams]
        exact resolveInstanceWith_agrees h
  | none =>
      dsimp only
      cases checker.enumDecl name with
      | some decl =>
          dsimp only
          by_cases hparams : decl.typeParams.isEmpty
          · rw [if_pos hparams, if_pos hparams]
            by_cases hargs : args.isEmpty
            · rw [if_pos hargs, if_pos hargs]
              exact agree_pure _
            · rw [if_neg hargs, if_neg hargs]
              exact agree_throw _
          · rw [if_neg hparams, if_neg hparams]
            exact resolveInstanceWith_agrees h
      | none => exact agree_throw _

theorem resolveVector_agrees (args : List TypeExpr) :
    Agree (checker.resolveNamedWith enter "Vector" args [])
      (checker.resolveNamedTypeSubst fuel "Vector" args []) := by
  by_cases hform : ∃ digits dimArgs, args = [.named digits dimArgs]
  · obtain ⟨digits, dimArgs, rfl⟩ := hform
    rw [resolveNamedWith, resolveNamedTypeSubst]
    dsimp only [List.lookup_nil]
    split
    · exact agree_bind (agree_liftExcept _) fun _ => agree_pure _
    · exact agree_throw _
  · rw [resolveNamedWith, resolveNamedTypeSubst]
    · exact agree_throw _
    all_goals exact fun digits dimArgs hargs => hform ⟨digits, dimArgs, hargs⟩

theorem resolveResult_agrees {args : List TypeExpr}
    (h : ∀ a ∈ args, Agree (checker.resolveWith enter a []) (checker.resolveTypeSubst fuel a [])) :
    Agree (checker.resolveNamedWith enter "Result" args [])
      (checker.resolveNamedTypeSubst fuel "Result" args []) := by
  by_cases hform : ∃ a b, args = [a, b]
  · obtain ⟨a, b, rfl⟩ := hform
    rw [resolveNamedWith, resolveNamedTypeSubst]
    exact agree_bind (h a (by simp)) fun _ => agree_bind (h b (by simp)) fun _ => agree_pure _
  · rw [resolveNamedWith, resolveNamedTypeSubst]
    · exact agree_throw _
    all_goals exact fun a b hargs => hform ⟨a, b, hargs⟩

/-- The argument of `Patch` gives the same type both times. -/
theorem resolvePatch_agrees {args : List TypeExpr}
    (h : ∀ a ∈ args, Agree (checker.resolveWith enter a []) (checker.resolveTypeSubst fuel a [])) :
    Agree (checker.resolveNamedWith enter "Patch" args [])
      (checker.resolveNamedTypeSubst fuel "Patch" args []) := by
  by_cases hform : ∃ inner, args = [inner]
  · obtain ⟨inner, rfl⟩ := hform
    have hinner := h inner List.mem_cons_self
    rw [resolveNamedWith, resolveNamedTypeSubst]
    simp only [List.lookup_nil]
    intro r hr
    rw [ExceptT.run_bind] at hr
    rcases hrun : (checker.resolveWith enter inner []).run with _ | ⟨e | ty⟩
    · rw [hrun] at hr
      cases hr
    · rw [hrun] at hr
      cases hr
      rw [hinner _ hrun]
      rfl
    · rw [hrun] at hr
      rw [hinner _ hrun]
      dsimp only [bind, Option.bind] at hr
      cases ty
      case struct name fields =>
        have hagain : (checker.resolveWith enter inner [] : Answer Ty) =
            ExceptT.mk (some (.ok (.struct name fields))) := hrun
        rw [hagain] at hr
        cases hr
        rfl
      all_goals
        cases hr
        rfl
  · rw [resolveNamedWith, resolveNamedTypeSubst]
    · exact agree_throw _
    all_goals exact fun inner hargs => hform ⟨inner, hargs⟩

theorem resolveMap_agrees {args : List TypeExpr}
    (h : ∀ a ∈ args, Agree (checker.resolveWith enter a []) (checker.resolveTypeSubst fuel a [])) :
    Agree (checker.resolveNamedWith enter "Map" args [])
      (checker.resolveNamedTypeSubst fuel "Map" args []) := by
  by_cases hform : ∃ k v, args = [k, v]
  · obtain ⟨k, v, rfl⟩ := hform
    rw [resolveNamedWith, resolveNamedTypeSubst]
    refine agree_bind (h k (by simp)) fun _ => ?_
    split
    · exact agree_bind (h v (by simp)) fun _ => agree_pure _
    · exact agree_throw _
  · rw [resolveNamedWith, resolveNamedTypeSubst]
    · exact agree_throw _
    all_goals exact fun k v hargs => hform ⟨k, v, hargs⟩

theorem resolveNamedWith_agrees {name : String} {args : List TypeExpr}
    (henter : EntersWithin checker enter fuel)
    (h : ∀ a ∈ args, Agree (checker.resolveWith enter a []) (checker.resolveTypeSubst fuel a [])) :
    Agree (checker.resolveNamedWith enter name args [])
      (checker.resolveNamedTypeSubst fuel name args []) := by
  by_cases hbuiltin : name ∈ builtinNames
  · simp only [builtinNames, List.mem_cons, List.not_mem_nil, or_false] at hbuiltin
    rcases hbuiltin with
      rfl | rfl | rfl | rfl | rfl | rfl | rfl | rfl | rfl | rfl | rfl | rfl | rfl | rfl
    all_goals try
      rw [resolveNamedWith, resolveNamedTypeSubst]
      exact agree_pure _
    · exact resolveVector_agrees args
    · exact resolveResult_agrees h
    · exact resolvePatch_agrees h
    · exact resolveMap_agrees h
  · exact resolveDeclared_agrees hbuiltin henter h

theorem resolveWith_agrees (henter : EntersWithin checker enter fuel) (t : TypeExpr) :
    Agree (checker.resolveWith enter t []) (checker.resolveTypeSubst fuel t []) := by
  induction hsize : sizeOf t using Nat.strongRecOn generalizing t with
  | ind size ih =>
      subst hsize
      have hpart (a : TypeExpr) (hlt : sizeOf a < sizeOf t) :
          Agree (checker.resolveWith enter a []) (checker.resolveTypeSubst fuel a []) :=
        ih _ hlt a rfl
      have hmem (ts : List TypeExpr) (hts : sizeOf ts < sizeOf t) (a : TypeExpr) (ha : a ∈ ts) :
          Agree (checker.resolveWith enter a []) (checker.resolveTypeSubst fuel a []) :=
        hpart a ((List.sizeOf_lt_of_mem ha).trans hts)
      cases t with
      | named name args =>
          have hlt : sizeOf args < sizeOf (TypeExpr.named name args) := by
            rw [TypeExpr.named.sizeOf_spec]
            omega
          rw [resolveWith_named, resolveTypeSubst_named]
          exact resolveNamedWith_agrees henter (hmem args hlt)
      | struct fields =>
          rw [resolveWith, resolveTypeSubst]
          refine agree_bind (agree_attach fun field => ?_) fun _ => agree_pure _
          obtain ⟨f, hf⟩ := field
          have hlt : sizeOf f.ty < sizeOf (TypeExpr.struct fields) := by
            have hlt := FieldOf.sizeOf_ty_lt hf
            rw [TypeExpr.struct.sizeOf_spec]
            omega
          exact agree_bind (hpart f.ty hlt) fun _ => agree_pure _
      | optional inner =>
          have hlt : sizeOf inner < sizeOf (TypeExpr.optional inner) := by
            rw [TypeExpr.optional.sizeOf_spec]
            omega
          rw [resolveWith, resolveTypeSubst]
          exact agree_bind (hpart inner hlt) fun _ => agree_pure _
      | list inner =>
          have hlt : sizeOf inner < sizeOf (TypeExpr.list inner) := by
            rw [TypeExpr.list.sizeOf_spec]
            omega
          rw [resolveWith, resolveTypeSubst]
          exact agree_bind (hpart inner hlt) fun _ => agree_pure _
      | tuple items =>
          have hlt : sizeOf items < sizeOf (TypeExpr.tuple items) := by
            rw [TypeExpr.tuple.sizeOf_spec]
            omega
          rw [resolveWith, resolveTypeSubst]
          exact agree_bind (agree_attach fun a => hmem items hlt a.1 a.2) fun _ => agree_pure _
      | function params ret =>
          have hparams : sizeOf params < sizeOf (TypeExpr.function params ret) := by
            rw [TypeExpr.function.sizeOf_spec]
            omega
          have hret : sizeOf ret < sizeOf (TypeExpr.function params ret) := by
            rw [TypeExpr.function.sizeOf_spec]
            omega
          rw [resolveWith, resolveTypeSubst]
          refine agree_bind (agree_attach fun a => hmem params hparams a.1 a.2) fun _ => ?_
          exact agree_bind (hpart ret hret) fun _ => agree_pure _
      | map key val =>
          rw [resolveWith, resolveTypeSubst]
          exact agree_throw _
      | union members =>
          have hlt : sizeOf members < sizeOf (TypeExpr.union members) := by
            rw [TypeExpr.union.sizeOf_spec]
            omega
          rw [resolveWith, resolveTypeSubst]
          exact agree_bind (agree_attach fun a => hmem members hlt a.1 a.2) fun _ => agree_pure _

/-- A resolution that returns within a bound is the one that the bound is put on. -/
theorem resolveWithin_agrees (n : Nat) (t : TypeExpr) :
    Agree (resolveWithin checker n t []) (checker.resolveTypeSubst n t []) := by
  induction n generalizing t with
  | zero => exact @resolveWith_agrees checker (fun _ _ => ExceptT.mk none) 0 (fun _ => rfl) t
  | succ n ih =>
      exact @resolveWith_agrees checker
        (fun decl subst => resolveWithin checker n decl.ty subst) (n + 1) (fun decl => ih decl.ty) t

/-- Without a recursive type the number of declared types is bound enough. -/
theorem resolveWithin_of_acyclic (h : ∀ decl, ¬ Relation.TransGen checker.Expands decl decl)
    (t : TypeExpr) :
    (resolveWithin checker checker.types.length t []).run = some (checker.resolveType t) := by
  obtain ⟨r, hr⟩ := Option.ne_none_iff_exists'.mp (returns_of_acyclic h t)
  rw [hr, resolveType, resolveWithin_agrees _ t r hr]

end

theorem run_bind_of_run {α β : Type} {x : Answer α} {y : Except CheckError α} {k : α → Answer β}
    {l : α → Except CheckError β} (h : x.run = some y) (hk : ∀ a, (k a).run = some (l a)) :
    (x >>= k).run = some (y >>= l) := by
  rw [ExceptT.run_bind, h]
  cases y with
  | error e => rfl
  | ok a => exact hk a

theorem run_mapM_of_run {α β : Type} {f : α → Answer β} {g : α → Except CheckError β}
    (h : ∀ a, (f a).run = some (g a)) (xs : List α) : (xs.mapM f).run = some (xs.mapM g) := by
  induction xs with
  | nil => rfl
  | cons x xs ih =>
      rw [List.mapM_cons, List.mapM_cons]
      exact run_bind_of_run (h x) fun b => run_bind_of_run ih fun bs => rfl

end Checker

/-! ## The symbol tables -/

/-- A way to resolve type expressions against the declared types. -/
abbrev Resolver := Checker → TypeExpr → Checker.Answer Ty

namespace Symbols

variable (resolve : Resolver) (sym : Symbols)

def resolveSignatureWith (params : List Param) (returnType : TypeExpr) :
    Checker.Answer Signature := do
  let tys ← params.mapM fun p => resolve sym.checker p.ty
  return (tys, ← resolve sym.checker returnType)

def declareFnWith : Item → Option (Symbols × List CheckError)
  | .fn f =>
      if (sym.fnSignature f.name).isSome then
        some (sym, [⟨s!"'{f.name}' ya está declarado (fn duplicada)"⟩])
      else
        (sym.resolveSignatureWith resolve f.params f.returnType).run.map fun
          | .ok sig => ({ sym with fns := sym.fns ++ [(f.name, sig)] }, [])
          | .error e => (sym, [e])
  | _ => some (sym, [])

/-- The type of the elements of a collection. -/
def resolveElementWith (validElement : Ty → Except CheckError Unit) (coll : Field) :
    Checker.Answer Ty := do
  match ← resolve sym.checker coll.ty with
  | .list element => do
      liftExcept (validElement element)
      return element
  | other => throw ⟨s!"la colección '{coll.name}' de 'db' tiene que ser una lista de structs (T[]), se encontró {other.display}"⟩

def declareCollectionsWith (validElement : Ty → Except CheckError Unit) :
    List String → List Field → Symbols → Option (Symbols × List CheckError)
  | _, [], sym => some (sym, [])
  | seen, coll :: rest, sym =>
      if seen.contains coll.name then do
        let (final, errors) ← declareCollectionsWith validElement seen rest sym
        return (final, ⟨s!"la colección '{coll.name}' ya está declarada -- un nombre de colección no puede repetirse, ni dentro del mismo 'db \x7b ... \x7d' ni en otro distinto"⟩ :: errors)
      else do
        match ← (sym.resolveElementWith resolve validElement coll).run with
        | .ok ty =>
            declareCollectionsWith validElement (coll.name :: seen) rest
              { sym with dbCollections := sym.dbCollections ++ [(coll.name, ty)] }
        | .error e => do
            let (final, errors) ← declareCollectionsWith validElement (coll.name :: seen) rest sym
            return (final, e :: errors)

/-- A method whose signature is refused is left out. -/
def declareMethodWith (methods : List (String × Signature)) (m : Member) :
    Option (List (String × Signature)) :=
  (sym.resolveSignatureWith resolve m.decl.params m.decl.returnType).run.map fun
    | .ok sig => (m.decl.name, sig) :: methods
    | .error _ => methods

def declareServiceWith : Item → Option Symbols
  | .service s => do
      let methods ← s.members.foldlM (sym.declareMethodWith resolve) []
      return { sym with
        services := (s.name, methods) :: sym.services
        serviceDecls := s :: sym.serviceDecls }
  | _ => some sym

end Symbols

def declarePassWith (declare : Symbols → Item → Option (Symbols × List CheckError)) :
    List Item → Symbols → Option (Symbols × List CheckError)
  | [], sym => some (sym, [])
  | item :: items, sym => do
      let (sym', errors) ← declare sym item
      let (final, rest) ← declarePassWith declare items sym'
      return (final, errors ++ rest)

/-- The tables once the types and enums are declared, which is before anything is resolved. -/
def declareTypes (program : Program) : Symbols × List CheckError :=
  declarePass Symbols.declareType program.items ⟨.prelude, [], [], [], [], [], []⟩

/-- `build_symbols`, if the resolutions it asks for return. -/
def buildSymbolsWith (resolve : Resolver) (validElement : Ty → Except CheckError Unit)
    (program : Program) : Option (Symbols × List CheckError) := do
  let (sym, typeErrors) := declareTypes program
  let (sym, fnErrors) ← declarePassWith (Symbols.declareFnWith resolve) program.items sym
  let (sym, constErrors) := declarePass Symbols.declareConst program.items sym
  let (sym, dbErrors) ← Symbols.declareCollectionsWith resolve validElement []
    (program.items.flatMap Item.collections) sym
  let sym ← program.items.foldlM (Symbols.declareServiceWith resolve) sym
  return (sym, typeErrors ++ fnErrors ++ constErrors ++ dbErrors)

/-! ## What the tables are -/

section

variable {resolve : Resolver} {checker : Checker}

/-- A resolver that returns what `resolve_type` gives. -/
def Resolves (resolve : Resolver) (checker : Checker) : Prop :=
  ∀ t, (resolve checker t).run = some (checker.resolveType t)

theorem resolveSignatureWith_run {sym : Symbols} (h : Resolves resolve sym.checker)
    (params : List Param) (returnType : TypeExpr) :
    (sym.resolveSignatureWith resolve params returnType).run =
      some (sym.resolveSignature params returnType) :=
  Checker.run_bind_of_run (Checker.run_mapM_of_run (fun p => h p.ty) params) fun _ =>
    Checker.run_bind_of_run (h returnType) fun _ => rfl

theorem declareFnWith_eq {sym : Symbols} (h : Resolves resolve sym.checker) (item : Item) :
    sym.declareFnWith resolve item = some (sym.declareFn item) := by
  cases item with
  | fn f =>
      rw [Symbols.declareFnWith, Symbols.declareFn]
      split
      · rfl
      · rw [resolveSignatureWith_run h]
        cases sym.resolveSignature f.params f.returnType <;> rfl
  | _ => rfl

theorem declareFn_checker (sym : Symbols) (item : Item) :
    (sym.declareFn item).1.checker = sym.checker := by
  unfold Symbols.declareFn
  split
  · split
    · rfl
    · split <;> rfl
  · rfl

theorem declareConst_checker (sym : Symbols) (item : Item) :
    (sym.declareConst item).1.checker = sym.checker := by
  unfold Symbols.declareConst
  split
  · split <;> rfl
  · rfl

theorem declarePassWith_eq {items : List Item} {sym : Symbols} (h : Resolves resolve sym.checker) :
    declarePassWith (Symbols.declareFnWith resolve) items sym =
      some (declarePass Symbols.declareFn items sym) := by
  induction items generalizing sym with
  | nil => rfl
  | cons item items ih =>
      have hnext : Resolves resolve (sym.declareFn item).1.checker := by
        rw [declareFn_checker]
        exact h
      rw [declarePassWith, declareFnWith_eq h, declarePass]
      dsimp only [bind, Option.bind]
      rw [ih hnext]
      rfl

/-- The type of the elements of a collection, as `declareCollections` reads it. -/
def resolveElement (validElement : Ty → Except CheckError Unit) (sym : Symbols) (coll : Field) :
    Except CheckError Ty := do
  match ← sym.checker.resolveType coll.ty with
  | .list element => do
      validElement element
      return element
  | other => throw ⟨s!"la colección '{coll.name}' de 'db' tiene que ser una lista de structs (T[]), se encontró {other.display}"⟩

theorem resolveElementWith_run {validElement : Ty → Except CheckError Unit} {sym : Symbols}
    (h : Resolves resolve sym.checker) (coll : Field) :
    (sym.resolveElementWith resolve validElement coll).run =
      some (resolveElement validElement sym coll) := by
  refine Checker.run_bind_of_run (h coll.ty) fun ty => ?_
  cases ty
  case list element =>
    dsimp only
    cases validElement element <;> rfl
  all_goals rfl

theorem declareCollections_cons {validElement : Ty → Except CheckError Unit} {coll : Field}
    {rest : List Field} {seen : List String} {sym : Symbols} (h : ¬ seen.contains coll.name) :
    Symbols.declareCollections validElement seen (coll :: rest) sym =
      match resolveElement validElement sym coll with
      | .ok ty =>
          Symbols.declareCollections validElement (coll.name :: seen) rest
            { sym with dbCollections := sym.dbCollections ++ [(coll.name, ty)] }
      | .error e =>
          let (final, errors) :=
            Symbols.declareCollections validElement (coll.name :: seen) rest sym
          (final, e :: errors) := by
  rw [Symbols.declareCollections, if_neg h]
  rfl

theorem declareCollectionsWith_eq {validElement : Ty → Except CheckError Unit} {colls : List Field}
    {seen : List String} {sym : Symbols} (h : Resolves resolve sym.checker) :
    Symbols.declareCollectionsWith resolve validElement seen colls sym =
      some (Symbols.declareCollections validElement seen colls sym) := by
  induction colls generalizing seen sym with
  | nil => rfl
  | cons coll rest ih =>
      rw [Symbols.declareCollectionsWith]
      by_cases hseen : seen.contains coll.name
      · rw [Symbols.declareCollections, if_pos hseen, if_pos hseen, ih h]
        rfl
      · rw [declareCollections_cons hseen, if_neg hseen, resolveElementWith_run h]
        cases resolveElement validElement sym coll with
        | ok ty => exact ih h
        | error e =>
            dsimp only [bind, Option.bind]
            rw [ih h]
            rfl

theorem declareMethodsWith_eq {sym : Symbols} (h : Resolves resolve sym.checker)
    (members : List Member) (methods : List (String × Signature)) :
    members.foldlM (sym.declareMethodWith resolve) methods =
      some (members.foldl (fun ms m =>
        match sym.resolveSignature m.decl.params m.decl.returnType with
        | .ok sig => (m.decl.name, sig) :: ms
        | .error _ => ms) methods) := by
  induction members generalizing methods with
  | nil => rfl
  | cons m members ih =>
      rw [List.foldlM_cons, List.foldl_cons, Symbols.declareMethodWith, resolveSignatureWith_run h]
      cases sym.resolveSignature m.decl.params m.decl.returnType <;> exact ih _

theorem declareServiceWith_eq {sym : Symbols} (h : Resolves resolve sym.checker) (item : Item) :
    sym.declareServiceWith resolve item = some (sym.declareService item) := by
  cases item with
  | service s =>
      rw [Symbols.declareServiceWith, declareMethodsWith_eq h]
      rfl
  | _ => rfl

theorem declareService_checker (sym : Symbols) (item : Item) :
    (sym.declareService item).checker = sym.checker := by
  cases item <;> rfl

theorem declareServicesWith_eq {items : List Item} {sym : Symbols}
    (h : Resolves resolve sym.checker) :
    items.foldlM (Symbols.declareServiceWith resolve) sym =
      some (items.foldl Symbols.declareService sym) := by
  induction items generalizing sym with
  | nil => rfl
  | cons item items ih =>
      rw [List.foldlM_cons, List.foldl_cons, declareServiceWith_eq h]
      refine ih ?_
      rw [declareService_checker]
      exact h

/-- Where `resolve_type` returns, the tables are those of `build_symbols`. -/
theorem buildSymbolsWith_eq {program : Program}
    (h : Resolves resolve (declareTypes program).1.checker)
    (validElement : Ty → Except CheckError Unit) :
    buildSymbolsWith resolve validElement program = some (buildSymbols validElement program) := by
  have hfns : Resolves resolve
      (declarePass Symbols.declareFn program.items (declareTypes program).1).1.checker :=
    declarePass_preserves (P := fun sym => Resolves resolve sym.checker)
      (fun item _ sym hsym => by rw [declareFn_checker]; exact hsym) h
  have hconsts : Resolves resolve (declarePass Symbols.declareConst program.items
      (declarePass Symbols.declareFn program.items (declareTypes program).1).1).1.checker :=
    declarePass_preserves (P := fun sym => Resolves resolve sym.checker)
      (fun item _ sym hsym => by rw [declareConst_checker]; exact hsym) hfns
  have hdb : Resolves resolve (Symbols.declareCollections validElement []
      (program.items.flatMap Item.collections) (declarePass Symbols.declareConst program.items
        (declarePass Symbols.declareFn program.items (declareTypes program).1).1).1).1.checker :=
    declareCollections_preserves (P := fun sym => Resolves resolve sym.checker)
      (fun _ _ hsym => hsym) _ _ _ hconsts
  unfold buildSymbolsWith
  dsimp only [bind, Option.bind]
  rw [declarePassWith_eq h]
  dsimp only
  rw [declareCollectionsWith_eq hconsts]
  dsimp only
  rw [declareServicesWith_eq hdb]
  rfl

end

/-- `build_symbols` down to a number of declarations open at once. -/
def buildSymbolsWithin (n : Nat) : (Ty → Except CheckError Unit) → Program →
    Option (Symbols × List CheckError) :=
  buildSymbolsWith fun checker t => checker.resolveWithin n t []

/-- Without a recursive type `build_symbols` returns, within as many declarations as there are. -/
theorem buildSymbolsWithin_of_acyclic {program : Program}
    (h : ∀ decl, ¬ Relation.TransGen (declareTypes program).1.checker.Expands decl decl)
    (validElement : Ty → Except CheckError Unit) :
    buildSymbolsWithin (declareTypes program).1.checker.types.length validElement program =
      some (buildSymbols validElement program) :=
  buildSymbolsWith_eq (fun t => Checker.resolveWithin_of_acyclic h t) validElement

/-- Types are resolved, and the tables built, in finitely many steps exactly if no declared type is
entered again while it is expanded. -/
theorem type_resolution_returns_iff (validElement : Ty → Except CheckError Unit)
    (program : Program) :
    ((∃ n, buildSymbolsWithin n validElement program ≠ none) ∧
        ∀ t, ∃ n, (declareTypes program).1.checker.Returns n t) ↔
      ∀ decl, ¬ Relation.TransGen (declareTypes program).1.checker.Expands decl decl := by
  constructor
  · exact fun hreturns => Checker.returns_iff_acyclic.mp hreturns.2
  · intro hacyclic
    refine ⟨⟨(declareTypes program).1.checker.types.length, ?_⟩,
      Checker.returns_iff_acyclic.mpr hacyclic⟩
    rw [buildSymbolsWithin_of_acyclic hacyclic]
    exact Option.some_ne_none _

private def nodeDecl : TypeDecl where
  name := "Node"
  typeParams := []
  ty := .struct [⟨"next", true, .named "Node" [], []⟩]
  annotations := []

/-- `type Node = \x7b next?: Node \x7d` and a collection of nodes. -/
private def linked : Program where
  items := [.type nodeDecl [], .db [⟨"nodes", false, .list (.named "Node" []), []⟩]]

private theorem linked_enters {t : TypeExpr}
    (h : (declareTypes linked).1.checker.Enters (.named "Node" []) nodeDecl →
      (declareTypes linked).1.checker.Enters t nodeDecl) (n : Nat) :
    ((declareTypes linked).1.checker.resolveWithin n t []).run = none := by
  have hnode : (declareTypes linked).1.checker.Enters (.named "Node" []) nodeDecl := .here rfl
  have hnext : (declareTypes linked).1.checker.Reached
      ((declareTypes linked).1.checker.parts nodeDecl.ty) (.named "Node" [], .any) := .inl rfl
  exact Checker.resolveWithin_of_cycle (h hnode) (.single (.part rfl hnext hnode)) n

/-- An optional field of its own type is enough for resolution never to return. -/
theorem linked_node_never_resolved :
    (∀ n, buildSymbolsWithin n (fun _ => .ok ()) linked = none) ∧
      ∀ n, ((declareTypes linked).1.checker.resolveWithin n (.named "Node" []) []).run = none := by
  refine ⟨fun n => ?_, linked_enters id⟩
  have helement : (declareTypes linked).1.checker.Reached
      ((declareTypes linked).1.checker.parts (.list (.named "Node" []))) (.named "Node" [], .any) :=
    .inl rfl
  have hnodes := linked_enters (.part rfl helement) n
  have hcolls : Symbols.declareCollectionsWith (fun checker t => checker.resolveWithin n t [])
      (fun _ => .ok ()) [] [⟨"nodes", false, .list (.named "Node" []), []⟩]
      (declareTypes linked).1 = none := by
    rw [Symbols.declareCollectionsWith, if_neg (by simp), Symbols.resolveElementWith,
      ExceptT.run_bind, hnodes]
    rfl
  unfold buildSymbolsWithin buildSymbolsWith
  exact congrArg (fun built : Option (Symbols × List CheckError) => built.bind _) hcolls

end CScript
