import CScript.Names.Occurrences

/-!
# The tables of an accepted program

What acceptance says about the tables that the two resolvers read: both know the same
functions and services, no constant can be called, and every rpc has a signature.
-/

namespace CScript.Names

open Lib

/-! ## Constants cannot be called -/

/-- A type that is its own head: no function, no union, not `Dynamic`. -/
def isNominal : Ty → Bool
  | .function _ _ | .dynamic | .union _ => false
  | _ => true

theorem resolveInstance_nominal {checker : Checker} {fuel arity : Nat} {name : String}
    {args : List TypeExpr} {subst : Subst} {ty : Ty}
    (h : checker.resolveInstance fuel name arity args subst = .ok ty) : isNominal ty = true := by
  rw [Checker.resolveInstance] at h
  split at h
  · exact nomatch h
  · obtain ⟨tys, -, htys⟩ := except_bind_eq_ok h
    cases htys
    rfl

/-- A name denotes a type of another head only as an alias of one. -/
theorem resolveNamed_alias {checker : Checker} {fuel : Nat} {name : String}
    {args : List TypeExpr} {ty : Ty}
    (h : checker.resolveNamedTypeSubst fuel name args [] = .ok ty) (hc : isNominal ty = false) :
    ∃ decl n, checker.typeDecl name = some decl ∧ fuel = n + 1 ∧
      checker.resolveTypeSubst n decl.ty [] = .ok ty := by
  unfold Checker.resolveNamedTypeSubst at h
  simp only [List.lookup_nil] at h
  split at h
  case h_9 =>
    split at h
    · split at h
      · obtain ⟨n, -, hn⟩ := except_bind_eq_ok h
        cases hn
        cases hc
      · cases h
    · cases h
  case h_12 =>
    split at h
    · obtain ⟨a, -, ha⟩ := except_bind_eq_ok h
      obtain ⟨b, -, hb⟩ := except_bind_eq_ok ha
      cases hb
      cases hc
    · cases h
  case h_13 =>
    split at h
    · obtain ⟨a, -, ha⟩ := except_bind_eq_ok h
      split at ha
      · cases ha
        cases hc
      · cases ha
    · cases h
  case h_14 =>
    split at h
    · obtain ⟨k, -, hk⟩ := except_bind_eq_ok h
      split at hk
      · obtain ⟨v, -, hv⟩ := except_bind_eq_ok hk
        cases hv
        cases hc
      · cases hk
    · cases h
  case h_15 =>
    split at h
    case h_1 decl hdecl =>
      split at h
      · split at h
        · split at h
          case h_1 => cases h
          case h_2 n =>
            obtain ⟨t, ht, hres⟩ := except_bind_eq_ok h
            split at hres
            · cases hres
              cases hc
            · cases hres
              exact ⟨decl, n, hdecl, rfl, ht⟩
        · cases h
      · rw [resolveInstance_nominal h] at hc
        cases hc
    case h_2 =>
      split at h
      · split at h
        · split at h
          · cases h
            cases hc
          · cases h
        · rw [resolveInstance_nominal h] at hc
          cases hc
      · cases h
  all_goals
    cases h
    cases hc

/-- What is written other than by name denotes no `Dynamic`. -/
theorem resolveTypeSubst_ne_dynamic_of_shape {checker : Checker} {fuel : Nat} {t : TypeExpr}
    (hnamed : ∀ name args, t = .named name args →
      checker.resolveNamedTypeSubst fuel name args [] ≠ .ok .dynamic) :
    checker.resolveTypeSubst fuel t [] ≠ .ok .dynamic := by
  intro h
  cases t with
  | named name args =>
      rw [Checker.resolveTypeSubst] at h
      exact hnamed name args rfl h
  | map =>
      rw [Checker.resolveTypeSubst] at h
      cases h
  | struct fields | optional inner | list inner | tuple items | union members =>
      rw [Checker.resolveTypeSubst] at h
      obtain ⟨_, -, hres⟩ := except_bind_eq_ok h
      cases hres
  | function params ret =>
      rw [Checker.resolveTypeSubst] at h
      obtain ⟨_, -, hret⟩ := except_bind_eq_ok h
      obtain ⟨_, -, hres⟩ := except_bind_eq_ok hret
      cases hres

/-- `Dynamic` cannot be written. -/
theorem resolveTypeSubst_ne_dynamic (checker : Checker) (fuel : Nat) :
    ∀ t : TypeExpr, checker.resolveTypeSubst fuel t [] ≠ .ok .dynamic := by
  induction fuel with
  | zero =>
      intro t
      refine resolveTypeSubst_ne_dynamic_of_shape fun name args _ h => ?_
      obtain ⟨_, n, -, hn, -⟩ := resolveNamed_alias h rfl
      exact nomatch hn
  | succ n ih =>
      intro t
      refine resolveTypeSubst_ne_dynamic_of_shape fun name args _ h => ?_
      obtain ⟨decl, m, -, hm, hdecl⟩ := resolveNamed_alias h rfl
      cases hm
      exact ih decl.ty hdecl

/-- A declared struct, by name, is a struct or hidden behind a builtin name. -/
theorem resolveType_struct_nominal {checker : Checker} {name : String} {decl : TypeDecl}
    {fields : List Field} {ty : Ty} (hdecl : checker.typeDecl name = some decl)
    (hstruct : decl.ty = .struct fields)
    (h : checker.resolveType (.named name []) = .ok ty) : isNominal ty = true := by
  by_contra hc
  rw [Bool.not_eq_true] at hc
  rw [Checker.resolveType, Checker.resolveTypeSubst] at h
  obtain ⟨decl', n, hdecl', -, hty⟩ := resolveNamed_alias h hc
  rw [hdecl] at hdecl'
  cases hdecl'
  rw [hstruct, Checker.resolveTypeSubst] at hty
  obtain ⟨_, -, hres⟩ := except_bind_eq_ok hty
  cases hres
  cases hc

theorem isSubtype_function {t : Ty} {params : List Ty} {ret : Ty} (hc : isNominal t = true) :
    isSubtype t (.function params ret) = false := by
  cases t with
  | function | dynamic | union => exact nomatch hc
  | _ => simp [isSubtype]

theorem conclude_function {t out : Ty} {params : List Ty} {ret : Ty} (hc : isNominal t = true) :
    (Mode.check (.function params ret)).conclude t ≠ .ok out := by
  intro h
  rw [Mode.conclude, isSubtype_function hc] at h
  exact nomatch h

section

variable (sym : Symbols) (builtins : BuiltinMethods)

theorem structLitDecl_nominal {name : String} {variant : Option String}
    {decls : List FieldType} {ty : Ty} (h : structLitDecl sym name variant = .ok (decls, ty)) :
    isNominal ty = true := by
  simp only [structLitDecl] at h
  split at h
  · exact nomatch h
  · split at h
    · exact nomatch h
    · split at h
      · split at h
        · exact nomatch h
        · split at h
          · exact nomatch h
          · obtain ⟨_, -, hres⟩ := except_bind_eq_ok h
            cases hres
            rfl
      · split at h
        · exact nomatch h
        · split at h
          · obtain ⟨_, -, hfields⟩ := except_bind_eq_ok h
            obtain ⟨t, ht, hres⟩ := except_bind_eq_ok hfields
            cases hres
            exact resolveType_struct_nominal ‹_› ‹_› ht
          · exact nomatch h

/-- Against a function type a struct literal is never typed by the expected type. -/
theorem structLitPlan_function {name : String} {variant : Option String} {given : List String}
    {params : List Ty} {ret : Ty} {plan : StructLitPlan}
    (h : structLitPlan sym (.check (.function params ret)) name variant given = .ok plan) :
    plan = .open ∨ ∃ decls ty, plan = .declared decls ty ∧ isNominal ty = true := by
  simp only [structLitPlan] at h
  split at h
  · exact nomatch h
  · split at h
    · exact nomatch h
    · have hmap : isMapTy (.function params ret) = false := rfl
      rw [hmap, Bool.and_false, if_neg Bool.false_ne_true] at h
      split at h
      · cases h
        exact .inl rfl
      · obtain ⟨⟨decls, ty⟩, hdecl, hres⟩ := except_bind_eq_ok h
        cases hres
        exact .inr ⟨decls, ty, rfl, structLitDecl_nominal sym hdecl⟩

/-- A literal is no function. -/
theorem constLiteral_not_function {e : Expr} {params : List Ty} {ret out : Ty} {inTx : Bool}
    {env : TyEnv} (he : isConstLiteralShape e = true) :
    typeExpr sym builtins inTx (.check (.function params ret)) env e ≠ .ok out := by
  intro h
  cases e with
  | int | float | str | bool | null => exact conclude_function rfl h
  | arrayLit items =>
      cases items with
      | nil => exact nomatch h
      | cons first rest =>
          rw [typeExpr] at h
          · obtain ⟨_, -, hrest⟩ := except_bind_eq_ok h
            obtain ⟨_, -, hres⟩ := except_bind_eq_ok hrest
            exact conclude_function rfl hres
          · intro hmode
            exact nomatch hmode
  | tupleLit items =>
      rw [typeExpr] at h
      obtain ⟨_, -, hres⟩ := except_bind_eq_ok h
      exact conclude_function rfl hres
  | structLit name variant fields =>
      rw [typeExpr] at h
      obtain ⟨plan, hplan, hrest⟩ := except_bind_eq_ok h
      obtain rfl | ⟨decls, ty, rfl, hty⟩ := structLitPlan_function sym hplan
      · obtain ⟨_, -, hres⟩ := except_bind_eq_ok hrest
        exact conclude_function rfl hres
      · obtain ⟨_, -, hcomplete⟩ := except_bind_eq_ok hrest
        obtain ⟨_, -, hres⟩ := except_bind_eq_ok hcomplete
        exact conclude_function hty hres
  | mapLit entries =>
      cases entries with
      | nil => exact nomatch h
      | cons first rest =>
          rw [typeExpr] at h
          obtain ⟨_, -, hrest⟩ := except_bind_eq_ok h
          obtain ⟨_, -, hres⟩ := except_bind_eq_ok hrest
          exact conclude_function rfl hres
  | _ => exact nomatch he

theorem checkConst_not_callable {parts : CheckerParts} {c : ConstDecl}
    (h : checkConst sym parts c = .ok ()) :
    (sym.checker.resolveType c.ty).toOption.any isCallable = false := by
  rw [checkConst] at h
  split at h
  · exact nomatch h
  case isFalse hshape =>
    rw [Bool.not_eq_true, Bool.not_eq_false'] at hshape
    obtain ⟨ty, hty, hrest⟩ := except_bind_eq_ok h
    obtain ⟨out, hvalue, -⟩ := except_bind_eq_ok hrest
    rw [hty]
    cases ty with
    | function params ret => exact absurd hvalue (constLiteral_not_function sym _ hshape)
    | dynamic => exact absurd hty (resolveTypeSubst_ne_dynamic _ _ _)
    | _ => rfl

end

/-! ## The two tables of functions and services -/

theorem declareType_fields (sym : Symbols) (item : Item) :
    (sym.declareType item).1.consts = sym.consts ∧ (sym.declareType item).1.fns = sym.fns ∧
      (sym.declareType item).1.services = sym.services ∧
      (sym.declareType item).1.serviceDecls = sym.serviceDecls := by
  cases item with
  | type t defaults | enum t defaults =>
      simp only [Symbols.declareType]
      split <;> exact ⟨rfl, rfl, rfl, rfl⟩
  | _ => exact ⟨rfl, rfl, rfl, rfl⟩

theorem declareFn_fields (sym : Symbols) (item : Item) :
    (sym.declareFn item).1.consts = sym.consts ∧ (sym.declareFn item).1.services = sym.services ∧
      (sym.declareFn item).1.serviceDecls = sym.serviceDecls := by
  cases item with
  | fn f =>
      simp only [Symbols.declareFn]
      split
      · exact ⟨rfl, rfl, rfl⟩
      · split <;> exact ⟨rfl, rfl, rfl⟩
  | _ => exact ⟨rfl, rfl, rfl⟩

theorem declareConst_fields (sym : Symbols) (item : Item) :
    (sym.declareConst item).1.fns = sym.fns ∧
      (sym.declareConst item).1.services = sym.services ∧
      (sym.declareConst item).1.serviceDecls = sym.serviceDecls := by
  cases item with
  | const c =>
      simp only [Symbols.declareConst]
      split <;> exact ⟨rfl, rfl, rfl⟩
  | _ => exact ⟨rfl, rfl, rfl⟩

theorem declareService_fields (sym : Symbols) (item : Item) :
    (sym.declareService item).consts = sym.consts ∧ (sym.declareService item).fns = sym.fns := by
  cases item <;> exact ⟨rfl, rfl⟩

section

variable {parts : CheckerParts} {program : Program}

theorem const_declared {c : ConstDecl} (h : c ∈ (buildSymbols parts.validElement program).1.consts) :
    .const c ∈ program.items := by
  refine buildSymbols_preserves (P := fun sym => ∀ c ∈ sym.consts, .const c ∈ program.items)
    (fun _ h => nomatch h) ?_ ?_ ?_ (fun _ _ h => h) ?_ c h
  · intro sym item h
    rwa [(declareType_fields sym item).1]
  · intro sym item h
    rwa [(declareFn_fields sym item).1]
  · intro sym item hitem h
    cases item with
    | const d =>
        simp only [Symbols.declareConst]
        split
        · exact h
        · intro e he
          rcases List.mem_append.mp he with hold | hnew
          · exact h e hold
          · rwa [List.mem_singleton.mp hnew]
    | _ => exact h
  · intro sym item _ h
    rwa [(declareService_fields sym item).1]

theorem service_declared {s : ServiceDecl}
    (h : s ∈ (buildSymbols parts.validElement program).1.serviceDecls) :
    .service s ∈ program.items := by
  refine buildSymbols_preserves (P := fun sym => ∀ s ∈ sym.serviceDecls, .service s ∈ program.items)
    (fun _ h => nomatch h) ?_ ?_ ?_ (fun _ _ h => h) ?_ s h
  · intro sym item h
    rwa [(declareType_fields sym item).2.2.2]
  · intro sym item h
    rwa [(declareFn_fields sym item).2.2]
  · intro sym item _ h
    rwa [(declareConst_fields sym item).2.2]
  · intro sym item hitem h
    cases item with
    | service t =>
        intro u hu
        rcases List.mem_cons.mp hu with rfl | hold
        · exact hitem
        · exact h u hold
    | _ => exact h

/-- The signatures of a service and its declaration are entered together. -/
theorem services_names :
    (buildSymbols parts.validElement program).1.services.map Prod.fst =
      (buildSymbols parts.validElement program).1.serviceDecls.map fun s => s.name := by
  refine buildSymbols_preserves
    (P := fun sym => sym.services.map Prod.fst = sym.serviceDecls.map fun s => s.name)
    rfl ?_ ?_ ?_ (fun _ _ h => h) ?_
  · intro sym item h
    rwa [(declareType_fields sym item).2.2.1, (declareType_fields sym item).2.2.2]
  · intro sym item h
    rwa [(declareFn_fields sym item).2.1, (declareFn_fields sym item).2.2]
  · intro sym item _ h
    rwa [(declareConst_fields sym item).2.1, (declareConst_fields sym item).2.2]
  · intro sym item _ h
    cases item with
    | service t => simpa only [Symbols.declareService, List.map_cons] using congrArg (t.name :: ·) h
    | _ => exact h

end

theorem lookup_isSome_iff {α : Type} {xs : List (String × α)} {name : String} :
    (xs.lookup name).isSome ↔ name ∈ xs.map Prod.fst := by
  induction xs with
  | nil => simp
  | cons x xs ih =>
      obtain ⟨k, a⟩ := x
      rw [List.lookup_cons, List.map_cons, List.mem_cons, ← ih]
      by_cases hk : name = k
      · simp [hk]
      · simp [hk, beq_eq_false_iff_ne.mpr hk]

theorem find?_isSome_iff {α : Type} {key : α → String} {xs : List α} {name : String} :
    (xs.find? fun x => key x == name).isSome ↔ name ∈ xs.map key := by
  simp

/-- The names of the functions of a program. -/
def fnNames (items : List Item) : List String :=
  items.filterMap fun
    | .fn f => some f.name
    | _ => none

theorem declareFn_names {sym : Symbols} {item : Item} (h : (sym.declareFn item).2 = []) :
    (sym.declareFn item).1.fns.map Prod.fst = sym.fns.map Prod.fst ++ fnNames [item] := by
  cases item with
  | fn f =>
      simp only [Symbols.declareFn] at h ⊢
      split at h
      · cases h
      · rename_i hnew
        split at h
        · simp [hnew, fnNames]
        · cases h
  | _ => simp [Symbols.declareFn, fnNames]

/-- A pass over the functions without an error enters every one of them. -/
theorem declareFns_names {items : List Item} {sym : Symbols}
    (h : (declarePass Symbols.declareFn items sym).2 = []) :
    (declarePass Symbols.declareFn items sym).1.fns.map Prod.fst =
      sym.fns.map Prod.fst ++ fnNames items := by
  induction items generalizing sym with
  | nil => simp [declarePass, fnNames]
  | cons item items ih =>
      have hpass : declarePass Symbols.declareFn (item :: items) sym =
          ((declarePass Symbols.declareFn items (sym.declareFn item).1).1,
            (sym.declareFn item).2 ++
              (declarePass Symbols.declareFn items (sym.declareFn item).1).2) := rfl
      rw [hpass] at h ⊢
      obtain ⟨hitem, hrest⟩ := List.append_eq_nil_iff.mp h
      rw [ih hrest, declareFn_names hitem, List.append_assoc]
      congr 1
      cases item <;> rfl

theorem fnTable_names (program : Program) :
    (fnTable program).map Prod.fst = (fnNames program.items).reverse := by
  rw [fnTable, List.map_reverse, List.map_filterMap, fnNames]
  congr 2
  funext item
  cases item <;> rfl

section

variable {parts : CheckerParts} {program : Program}

theorem fns_names (h : (buildSymbols parts.validElement program).2 = []) :
    (buildSymbols parts.validElement program).1.fns.map Prod.fst = fnNames program.items := by
  have htypes : (declarePass Symbols.declareType program.items
      ⟨.prelude, [], [], [], [], [], []⟩).1.fns = [] :=
    declarePass_preserves (P := fun sym => sym.fns = [])
      (fun item _ sym h => by rwa [(declareType_fields sym item).2.1]) rfl
  obtain ⟨hfront, -⟩ := List.append_eq_nil_iff.mp h
  obtain ⟨hfront, -⟩ := List.append_eq_nil_iff.mp hfront
  obtain ⟨-, hfn⟩ := List.append_eq_nil_iff.mp hfront
  have hfns := declareFns_names hfn
  rw [htypes, List.map_nil, List.nil_append] at hfns
  -- what follows the pass over the functions leaves their table alone
  apply foldl_preserves (P := fun sym => sym.fns.map Prod.fst = fnNames program.items)
    fun item _ sym h => by rwa [(declareService_fields sym item).2]
  apply declareCollections_preserves (P := fun sym => sym.fns.map Prod.fst = fnNames program.items)
    fun _ _ h => h
  apply declarePass_preserves (P := fun sym => sym.fns.map Prod.fst = fnNames program.items)
    fun item _ sym h => by rwa [(declareConst_fields sym item).1]
  exact hfns

theorem checkItem_of_accepted (h : Accepted parts program) {item : Item}
    (hitem : item ∈ program.items) :
    checkItem (buildSymbols parts.validElement program).1 parts item = .ok () := by
  obtain ⟨hfront, -⟩ := List.append_eq_nil_iff.mp h
  obtain ⟨-, hitems⟩ := List.append_eq_nil_iff.mp hfront
  rw [List.filterMap_eq_nil_iff] at hitems
  have hnone := hitems item hitem
  split at hnone
  · assumption
  · exact nomatch hnone

theorem mapM_of_bindParams {sym : Symbols} {ps : List Param} {env env' : TyEnv}
    (h : bindParams sym ps env = .ok env') :
    ∃ tys, (ps.mapM fun p => sym.checker.resolveType p.ty) = .ok tys := by
  induction ps generalizing env with
  | nil => exact ⟨[], rfl⟩
  | cons p ps ih =>
      obtain ⟨ty, hty, hrest⟩ := except_bind_eq_ok h
      obtain ⟨tys, htys⟩ := ih hrest
      refine ⟨ty :: tys, ?_⟩
      rw [List.mapM_cons, hty, htys]
      rfl

theorem resolveSignature_of_checkRpc {sym : Symbols} {m : Member}
    (h : checkRpc sym parts m = .ok ()) :
    (sym.resolveSignature m.decl.params m.decl.returnType).isOk = true := by
  obtain ⟨ret, hret, hbody⟩ := except_bind_eq_ok h
  have hparams : ∃ tys, (m.decl.params.mapM fun p => sym.checker.resolveType p.ty) = .ok tys := by
    split at hbody
    · rw [checkLiveSubscribe] at hbody
      split at hbody
      · exact nomatch hbody
      case isFalse hempty =>
        rw [Bool.not_eq_true, Bool.not_eq_false', List.isEmpty_iff] at hempty
        exact ⟨[], by rw [hempty]; rfl⟩
    · obtain ⟨_, -, hbind⟩ := except_bind_eq_ok hbody
      obtain ⟨env, henv, -⟩ := except_bind_eq_ok hbind
      exact mapM_of_bindParams henv
  obtain ⟨tys, htys⟩ := hparams
  rw [Symbols.resolveSignature, htys]
  change (sym.checker.resolveType m.decl.returnType >>= fun r => .ok (tys, r)).isOk = true
  rw [hret]
  rfl

/-- What the two resolvers rely on. -/
structure Tables (sym : Symbols) (fns : List (String × FnDecl)) : Prop where
  fns_agree : ∀ name, (sym.fnSignature name).isSome = (fns.lookup name).isSome
  services_agree : ∀ name, (sym.serviceMethods name).isSome = (sym.serviceDecl name).isSome
  const_not_callable : ∀ name c, sym.constDecl name = some c →
    (sym.checker.resolveType c.ty).toOption.any isCallable = false
  rpc_signature : ∀ name s, sym.serviceDecl name = some s → ∀ m ∈ s.members,
    (sym.resolveSignature m.decl.params m.decl.returnType).isOk = true

theorem tables_of_accepted (h : Accepted parts program) :
    Tables (buildSymbols parts.validElement program).1 (fnTable program) where
  fns_agree name := by
    obtain ⟨hfront, -⟩ := List.append_eq_nil_iff.mp h
    obtain ⟨hsymbols, -⟩ := List.append_eq_nil_iff.mp hfront
    rw [Bool.eq_iff_iff, Symbols.fnSignature, lookup_isSome_iff, lookup_isSome_iff,
      fns_names hsymbols, fnTable_names, List.mem_reverse]
  services_agree name := by
    rw [Bool.eq_iff_iff, Symbols.serviceMethods, Symbols.serviceDecl, lookup_isSome_iff,
      find?_isSome_iff, services_names]
  const_not_callable name c hc := by
    have hitem := checkItem_of_accepted h (const_declared (List.mem_of_find?_eq_some hc))
    exact checkConst_not_callable _ hitem
  rpc_signature name s hs m hm := by
    have hitem := checkItem_of_accepted h (service_declared (List.mem_of_find?_eq_some hs))
    exact resolveSignature_of_checkRpc (ok_of_forM_eq_ok hitem hm)

end

end CScript.Names
