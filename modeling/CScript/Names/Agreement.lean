import CScript.Names.Tables

/-!
# When the two resolvers agree

The builtin functions and the services are tried before the constants and the functions of
the program in the checker, and after them in the interpreter; an enum of the same name and
an rpc declared twice are the other ways to part them.
-/

namespace CScript.Names

open Lib

section

variable (sym : Symbols) (fns : List (String × FnDecl))

/-- The name is declared as a constant or as a function. -/
def IsUserValue (name : String) : Prop :=
  (sym.constDecl name).isSome = true ∨ (fns.lookup name).isSome = true

/-- The first and the last rpc of a name in a service. -/
def rpcNamed (members : List Member) (method : String) : Option RpcDecl :=
  (members.find? fun m => m.decl.name == method).map Member.decl

/-- A service of the name, reached by no module and by no builtin function, has an rpc
`method`, and either the service gives way to a constant or a function or the rpc does to
an earlier one of its name, or the call never reaches it. -/
def RpcClash (name method : String) (intercepted : Bool) : Prop :=
  builtinFnSignature name = none ∧
    ∃ s r, sym.serviceDecl name = some s ∧ rpcNamed s.members.reverse method = some r ∧
      (IsUserValue sym fns name ∨ intercepted = true ∨ rpcNamed s.members method ≠ some r)

/-- A base of a field access or a receiver that the checker and the interpreter take for
different things. -/
def MemberClash (name field : String) (intercepted : Bool) : Prop :=
  sym.checker.enumDecl name = none ∧ BuiltinModule.named name = none ∧
    (((builtinFnSignature name).isSome = true ∧ IsUserValue sym fns name) ∨
      RpcClash sym fns name field intercepted)

/-- Some declaration, of the program or of the language, has the name. -/
def IsDeclared (name : String) : Prop :=
  (BuiltinModule.named name).isSome = true ∨ (builtinFnSignature name).isSome = true ∨
    (sym.serviceDecl name).isSome = true ∨ IsUserValue sym fns name

/-- The type of a receiver that is a module, or a constant that nothing hides. -/
def receiverTy (name : String) : Option Ty :=
  match BuiltinModule.named name with
  | some m => some (.module m)
  | none =>
      if (builtinFnSignature name).isSome || (sym.serviceDecl name).isSome then none
      else (sym.constDecl name).bind fun c => (sym.checker.resolveType c.ty).toOption

/-- A receiver that the interpreter reads before it looks for an enum of the name. -/
def readsReceiver (name method : String) : Bool :=
  optionalMethods.contains method ||
    (mapMethods.contains method && (BuiltinModule.named name).isNone &&
      (sym.constDecl name).any fun c => isStructConst (.const c)) ||
    (dbMethods.contains method && name = "db")

/-- Exactly where the two resolvers part. -/
def Clash (methods : MethodTable) (o : Occurrence) : Prop :=
  o.shadowed = false ∧
    match o.use with
    | .value =>
        BuiltinModule.named o.name = none ∧
          ((builtinFnSignature o.name).isSome = true ∨ (sym.serviceDecl o.name).isSome = true) ∧
          IsUserValue sym fns o.name
    | .callee => (builtinFnSignature o.name).isSome = true ∧ (fns.lookup o.name).isSome = true
    | .member field => MemberClash sym fns o.name field false
    | .method method =>
        if (receiverTy sym o.name).any (fun ty => methods ty method) then
          -- the enum of the name is tried before the receiver
          readsReceiver sym o.name method = false ∧
            (sym.checker.enumDecl o.name).any (fun decl => unitVariant decl method) = true
        else MemberClash sym fns o.name method (optionalMethods.contains method)
    | .assigned => False
    | .check => IsDeclared sym fns o.name

/-- Where the checker resolves the name, the interpreter evaluates the same declaration. -/
def Agree (methods : MethodTable) (o : Occurrence) : Prop :=
  ∀ t, checkerTarget sym methods o = some t → interpTarget sym fns o = some t

end

/-! ## One occurrence -/

theorem builtinFn_not_module {name : String} (h : (builtinFnSignature name).isSome = true) :
    BuiltinModule.named name = none := by
  unfold builtinFnSignature at h
  split at h
  all_goals first
    | rfl
    | exact nomatch h

section

variable {sym : Symbols} {fns : List (String × FnDecl)} {scope : List String} {name : String}

/-- Outside of a value clash the two chains end at the same target. -/
theorem ident_agree (tables : Tables sym fns)
    (h : scope.contains name = true ∨ BuiltinModule.named name ≠ none ∨
      ((builtinFnSignature name).isSome = false ∧ (sym.serviceDecl name).isSome = false) ∨
      ¬ IsUserValue sym fns name) :
    interpIdent sym fns scope name = checkerIdent sym scope name := by
  rw [interpIdent, checkerIdent]
  split
  · rfl
  case isFalse hscope =>
    cases hmodule : BuiltinModule.named name with
    | some m => rfl
    | none =>
        obtain hshadow | hmod | ⟨hbuiltin, hservice⟩ | huser := h
        · exact absurd hshadow hscope
        · exact absurd hmodule hmod
        · simp only [hbuiltin, hservice, tables.services_agree, tables.fns_agree]
          rfl
        · rw [IsUserValue, not_or, Bool.not_eq_true, Bool.not_eq_true, Option.isSome_eq_false_iff,
            Option.isNone_iff_eq_none] at huser
          simp [huser.1, huser.2, tables.services_agree, tables.fns_agree]

/-- A constant or a function wins in the interpreter. -/
theorem interpIdent_of_user (hscope : scope.contains name = false)
    (hmodule : BuiltinModule.named name = none) (h : IsUserValue sym fns name) :
    (∃ c, interpIdent sym fns scope name = some (.const c)) ∨
      interpIdent sym fns scope name = some (.fn name) := by
  simp only [interpIdent, hscope, hmodule, Bool.false_eq_true, if_false]
  cases hconst : sym.constDecl name with
  | some c => exact .inl ⟨c, rfl⟩
  | none =>
      obtain hc | hfn := h
      · rw [hconst] at hc
        exact nomatch hc
      · exact .inr (if_pos hfn)

theorem checkerIdent_of_builtin (hscope : scope.contains name = false)
    (hbuiltin : (builtinFnSignature name).isSome = true) :
    checkerIdent sym scope name = some (.builtinFn name) := by
  simp only [checkerIdent, hscope, builtinFn_not_module hbuiltin, hbuiltin, Bool.false_eq_true,
    if_false, if_true]

theorem checkerIdent_of_service (tables : Tables sym fns) (hscope : scope.contains name = false)
    (hmodule : BuiltinModule.named name = none) (hbuiltin : builtinFnSignature name = none)
    (hservice : (sym.serviceDecl name).isSome = true) :
    checkerIdent sym scope name = some (.service name) := by
  simp only [checkerIdent, hscope, hmodule, hbuiltin, tables.services_agree, hservice,
    Option.isSome_none, Bool.false_eq_true, if_false, if_true]

theorem interpIdent_of_service (hscope : scope.contains name = false)
    (hmodule : BuiltinModule.named name = none) (hbuiltin : builtinFnSignature name = none)
    (huser : ¬ IsUserValue sym fns name) (hservice : (sym.serviceDecl name).isSome = true) :
    interpIdent sym fns scope name = some (.service name) := by
  rw [IsUserValue, not_or, Bool.not_eq_true, Bool.not_eq_true, Option.isSome_eq_false_iff,
    Option.isNone_iff_eq_none] at huser
  simp only [interpIdent, hscope, hmodule, hbuiltin, huser.1, huser.2, hservice,
    Option.isSome_none, Bool.false_eq_true, if_false, if_true]

theorem value_agree_iff (tables : Tables sym fns) (hscope : scope.contains name = false) :
    (∀ t, checkerIdent sym scope name = some t → interpIdent sym fns scope name = some t) ↔
      ¬ (BuiltinModule.named name = none ∧
        ((builtinFnSignature name).isSome = true ∨ (sym.serviceDecl name).isSome = true) ∧
        IsUserValue sym fns name) := by
  constructor
  · rintro h ⟨hmodule, hbuiltin, huser⟩
    have hinterp := interpIdent_of_user hscope hmodule huser
    have hchecker : checkerIdent sym scope name = some (.builtinFn name) ∨
        checkerIdent sym scope name = some (.service name) := by
      cases hb : builtinFnSignature name with
      | some sig => exact .inl (checkerIdent_of_builtin hscope (by rw [hb]; rfl))
      | none =>
          rw [hb] at hbuiltin
          exact .inr (checkerIdent_of_service tables hscope hmodule hb
            (hbuiltin.resolve_left (fun h => nomatch h)))
    obtain hc | hc := hchecker <;> rw [h _ hc] at hinterp <;>
      obtain ⟨c, hcc⟩ | hfn := hinterp
    all_goals first
      | exact nomatch hcc
      | exact nomatch hfn
  · intro h t ht
    rw [ident_agree tables ?_, ht]
    by_cases hmodule : BuiltinModule.named name = none
    · by_cases huser : IsUserValue sym fns name
      · refine .inr (.inr (.inl ?_))
        by_contra hb
        rw [not_and_or, Bool.not_eq_false, Bool.not_eq_false] at hb
        exact h ⟨hmodule, hb, huser⟩
      · exact .inr (.inr (.inr huser))
    · exact .inr (.inl hmodule)

/-- What an unshadowed name stands for that is no builtin function: the first of the chain. -/
theorem checkerIdent_cases {t : Target} (hscope : scope.contains name = false)
    (hbuiltin : builtinFnSignature name = none) (h : checkerIdent sym scope name = some t) :
    (∃ m, t = .module m) ∨ t = .service name ∨
      (∃ c, sym.constDecl name = some c ∧ t = .const c) ∨
      (t = .fn name ∧ (sym.fnSignature name).isSome = true) := by
  simp only [checkerIdent, hscope, hbuiltin, Option.isSome_none, Bool.false_eq_true,
    if_false] at h
  split at h
  · exact .inl ⟨_, (Option.some.inj h).symm⟩
  · split at h
    · exact .inr (.inl (Option.some.inj h).symm)
    · split at h
      case h_1 c hconst => exact .inr (.inr (.inl ⟨c, hconst, (Option.some.inj h).symm⟩))
      · split at h
        case isTrue hfn => exact .inr (.inr (.inr ⟨(Option.some.inj h).symm, hfn⟩))
        · exact nomatch h

/-- A name that is called and is no builtin function is a function: modules, services and
constants are not callable. -/
theorem checkerCallee_fn {t : Target} (tables : Tables sym fns)
    (hscope : scope.contains name = false) (hbuiltin : builtinFnSignature name = none)
    (h : checkerCallee sym scope name = some t) :
    t = .fn name ∧ (fns.lookup name).isSome = true := by
  have hassert : name ≠ "assert" := by
    rintro rfl
    exact nomatch hbuiltin
  simp only [checkerCallee, hassert, decide_false, Bool.false_and, Bool.false_eq_true,
    if_false] at h
  cases hident : checkerIdent sym scope name with
  | none =>
      rw [hident] at h
      exact nomatch h
  | some u =>
      rw [hident] at h
      obtain ⟨m, rfl⟩ | rfl | ⟨c, hconst, rfl⟩ | ⟨rfl, hfn⟩ :=
        checkerIdent_cases hscope hbuiltin hident
      · exact nomatch h
      · exact nomatch h
      · dsimp only at h
        rw [tables.const_not_callable name c hconst] at h
        exact nomatch h
      · rw [tables.fns_agree] at hfn
        exact ⟨(Option.some.inj h).symm, hfn⟩

theorem interpCallee_of_fn (hscope : scope.contains name = false)
    (hfn : (fns.lookup name).isSome = true) : interpCallee sym fns scope name = some (.fn name) := by
  simp only [interpCallee, hscope, hfn, Bool.false_eq_true, if_false, if_true]

theorem checkerCallee_of_builtin (hscope : scope.contains name = false)
    (hbuiltin : (builtinFnSignature name).isSome = true) :
    checkerCallee sym scope name = some (.builtinFn name) := by
  rw [checkerCallee, checkerIdent_of_builtin hscope hbuiltin]
  split <;> rfl

/-- A call that the checker resolves differs only where a builtin function has the name of a
declared one: neither a constant nor a service can be called. -/
theorem callee_agree_iff (tables : Tables sym fns) (hscope : scope.contains name = false) :
    (∀ t, checkerCallee sym scope name = some t → interpCallee sym fns scope name = some t) ↔
      ¬ ((builtinFnSignature name).isSome = true ∧ (fns.lookup name).isSome = true) := by
  constructor
  · rintro h ⟨hbuiltin, hfn⟩
    have hsame := h _ (checkerCallee_of_builtin hscope hbuiltin)
    rw [interpCallee_of_fn hscope hfn] at hsame
    exact nomatch hsame
  · intro h t ht
    by_cases hbuiltin : (builtinFnSignature name).isSome = true
    · have hfn : ¬ (fns.lookup name).isSome = true := fun hfn => h ⟨hbuiltin, hfn⟩
      rw [checkerCallee_of_builtin hscope hbuiltin] at ht
      simp only [interpCallee, hscope, hfn, hbuiltin, Bool.false_eq_true, if_false, if_true, ht]
    · rw [Option.not_isSome_iff_eq_none] at hbuiltin
      obtain ⟨rfl, hfn⟩ := checkerCallee_fn tables hscope hbuiltin ht
      exact interpCallee_of_fn hscope hfn

/-! ### Bases of field accesses -/

theorem find?_congr_mem {α : Type} {p q : α → Bool} {xs : List α} (h : ∀ x ∈ xs, p x = q x) :
    xs.find? p = xs.find? q := by
  induction xs with
  | nil => rfl
  | cons x xs ih =>
      rw [List.find?_cons, List.find?_cons, h x List.mem_cons_self,
        ih fun y hy => h y (List.mem_cons_of_mem _ hy)]

theorem checkerRpc_eq (tables : Tables sym fns) {s : ServiceDecl} {method : String}
    (hs : sym.serviceDecl name = some s) :
    checkerRpc sym name method = rpcNamed s.members.reverse method := by
  have hfind : (s.members.reverse.find? fun m => m.decl.name == method &&
      (sym.resolveSignature m.decl.params m.decl.returnType).isOk) =
      s.members.reverse.find? fun m => m.decl.name == method := by
    refine find?_congr_mem fun m hm => ?_
    rw [tables.rpc_signature name s hs m (List.mem_reverse.mp hm), Bool.and_true]
  rw [checkerRpc, hs, rpcNamed, Option.map_eq_bind, ← hfind]
  rfl

theorem interpRpc_eq {s : ServiceDecl} {method : String} (hs : sym.serviceDecl name = some s) :
    interpRpc sym name method = rpcNamed s.members method := by
  rw [interpRpc, hs, rpcNamed, Option.map_eq_bind]
  rfl

/-- What the interpreter makes of the base: with an intercepted method it stops there. -/
def interpBase (intercepted : Bool) (t : Option Target) (field : String) : Option Target :=
  if intercepted then t else interpField sym t field

theorem checkerField_of_not_service {t : Target} {field : String} (h : ∀ s, t ≠ .service s) :
    checkerField sym (some t) field = some t := by
  cases t with
  | service s => exact absurd rfl (h s)
  | _ => rfl

theorem interpBase_of_not_service {t : Target} {field : String} {intercepted : Bool}
    (h : ∀ s, t ≠ .service s) :
    @interpBase sym intercepted (some t) field = some t := by
  cases t with
  | service s => exact absurd rfl (h s)
  | _ => cases intercepted <;> rfl

/-- A base that is the same and no service has the same field. -/
theorem base_agree {intercepted : Bool} {field : String}
    (hident : interpIdent sym fns scope name = checkerIdent sym scope name)
    (hservice : ∀ s, checkerIdent sym scope name ≠ some (.service s)) (t : Target)
    (ht : checkerField sym (checkerIdent sym scope name) field = some t) :
    @interpBase sym intercepted (interpIdent sym fns scope name) field = some t := by
  rw [hident]
  cases hc : checkerIdent sym scope name with
  | none =>
      rw [hc] at ht
      exact nomatch ht
  | some u =>
      have hu : ∀ s, u ≠ .service s := fun s hs => hservice s (by rw [hc, hs])
      rw [hc, checkerField_of_not_service hu] at ht
      rw [interpBase_of_not_service hu, ht]

theorem base_of_user {intercepted : Bool} {field : String} (hscope : scope.contains name = false)
    (hmodule : BuiltinModule.named name = none) (h : IsUserValue sym fns name) :
    (∃ c, @interpBase sym intercepted (interpIdent sym fns scope name) field = some (.const c)) ∨
      @interpBase sym intercepted (interpIdent sym fns scope name) field = some (.fn name) := by
  obtain ⟨c, hc⟩ | hfn := interpIdent_of_user hscope hmodule h
  · left
    refine ⟨c, ?_⟩
    rw [hc]
    exact interpBase_of_not_service fun _ h => nomatch h
  · right
    rw [hfn]
    exact interpBase_of_not_service fun _ h => nomatch h

theorem checkerIdent_ne_service (tables : Tables sym fns) (hscope : scope.contains name = false)
    (h : sym.serviceDecl name = none) (s : String) :
    checkerIdent sym scope name ≠ some (.service s) := by
  intro hs
  simp only [checkerIdent, hscope, tables.services_agree, h, Option.isSome_none,
    Bool.false_eq_true, if_false] at hs
  split at hs
  · exact nomatch hs
  · split at hs
    · exact nomatch hs
    · split at hs
      · exact nomatch hs
      · split at hs <;> exact nomatch hs

/-- The name of a service: only the rpc's of the field can agree. -/
theorem service_agree_iff (tables : Tables sym fns) (hscope : scope.contains name = false)
    (hmodule : BuiltinModule.named name = none) (hbuiltin : builtinFnSignature name = none)
    {s : ServiceDecl} (hs : sym.serviceDecl name = some s) (intercepted : Bool) (field : String) :
    (∀ t, checkerField sym (checkerIdent sym scope name) field = some t →
      @interpBase sym intercepted (interpIdent sym fns scope name) field = some t) ↔
      ¬ RpcClash sym fns name field intercepted := by
  have hsome : (sym.serviceDecl name).isSome = true := by rw [hs]; rfl
  rw [checkerIdent_of_service tables hscope hmodule hbuiltin hsome, checkerField,
    checkerRpc_eq tables hs]
  cases hr : rpcNamed s.members.reverse field with
  | none =>
      refine iff_of_true (fun t ht => nomatch ht) ?_
      rintro ⟨-, s', r, hs', hr', -⟩
      rw [hs] at hs'
      cases hs'
      rw [hr] at hr'
      exact nomatch hr'
  | some r =>
      have hclash : RpcClash sym fns name field intercepted ↔
          IsUserValue sym fns name ∨ intercepted = true ∨ rpcNamed s.members field ≠ some r := by
        constructor
        · rintro ⟨-, s', r', hs', hr', h⟩
          rw [hs] at hs'
          cases hs'
          rw [hr] at hr'
          cases hr'
          exact h
        · exact fun h => ⟨hbuiltin, s, r, hs, hr, h⟩
      have hforall : (∀ t, Option.map (Target.rpc name) (some r) = some t →
          @interpBase sym intercepted (interpIdent sym fns scope name) field = some t) ↔
          @interpBase sym intercepted (interpIdent sym fns scope name) field =
            some (.rpc name r) :=
        ⟨fun h => h _ rfl, fun h t ht => by rw [h]; exact ht⟩
      rw [hclash, hforall]
      by_cases huser : IsUserValue sym fns name
      · refine iff_of_false (fun h => ?_) fun h => h (.inl huser)
        obtain ⟨c, hc⟩ | hfn := @base_of_user _ _ _ _ intercepted field hscope hmodule huser
        · rw [h] at hc
          exact nomatch hc
        · rw [h] at hfn
          exact nomatch hfn
      · rw [interpIdent_of_service hscope hmodule hbuiltin huser hsome]
        cases intercepted with
        | true => exact iff_of_false (fun h => nomatch h) fun h => h (.inr (.inl rfl))
        | false =>
            have hbase : @interpBase sym false (some (.service name)) field =
                (rpcNamed s.members field).map (.rpc name) := by
              rw [← interpRpc_eq hs]
              rfl
            rw [hbase]
            cases rpcNamed s.members field with
            | none => simp [huser]
            | some r' => simp [huser]

theorem base_agree_iff (tables : Tables sym fns) (hscope : scope.contains name = false)
    (intercepted : Bool) (field : String) :
    (∀ t, checkerField sym (checkerIdent sym scope name) field = some t →
      @interpBase sym intercepted (interpIdent sym fns scope name) field = some t) ↔
      ¬ (BuiltinModule.named name = none ∧
        (((builtinFnSignature name).isSome = true ∧ IsUserValue sym fns name) ∨
          RpcClash sym fns name field intercepted)) := by
  cases hmodule : BuiltinModule.named name with
  | some m =>
      refine iff_of_true (base_agree (ident_agree tables (.inr (.inl ?_))) ?_) fun h => nomatch h.1
      · rw [hmodule]
        exact fun h => nomatch h
      · intro s hs
        simp only [checkerIdent, hscope, hmodule, Bool.false_eq_true, if_false] at hs
        exact nomatch hs
  | none =>
      cases hbuiltin : builtinFnSignature name with
      | some sig =>
          have hsome : (builtinFnSignature name).isSome = true := by rw [hbuiltin]; rfl
          have hchecker : checkerIdent sym scope name = some (.builtinFn name) :=
            checkerIdent_of_builtin hscope hsome
          have hclash : ¬ RpcClash sym fns name field intercepted := by
            rintro ⟨hnone, -⟩
            rw [hbuiltin] at hnone
            exact nomatch hnone
          by_cases huser : IsUserValue sym fns name
          · refine iff_of_false (fun h => ?_) fun h => h ⟨rfl, .inl ⟨rfl, huser⟩⟩
            have hsame := h (.builtinFn name) (by rw [hchecker]; rfl)
            obtain ⟨c, hc⟩ | hfn := @base_of_user _ _ _ _ intercepted field hscope hmodule huser
            · rw [hsame] at hc
              exact nomatch hc
            · rw [hsame] at hfn
              exact nomatch hfn
          · refine iff_of_true (base_agree (ident_agree tables (.inr (.inr (.inr huser)))) ?_) ?_
            · intro s hs
              rw [hchecker] at hs
              exact nomatch hs
            · rintro ⟨-, ⟨-, hu⟩ | hrpc⟩
              · exact huser hu
              · exact hclash hrpc
      | none =>
          cases hservice : sym.serviceDecl name with
          | none =>
              refine iff_of_true (base_agree (ident_agree tables (.inr (.inr (.inl ?_))))
                (checkerIdent_ne_service tables hscope hservice)) ?_
              · rw [hbuiltin, hservice]
                exact ⟨rfl, rfl⟩
              · rintro ⟨-, ⟨hb, -⟩ | ⟨-, s, r, hs, -⟩⟩
                · exact nomatch hb
                · rw [hservice] at hs
                  exact nomatch hs
          | some s =>
              rw [service_agree_iff tables hscope hmodule hbuiltin hservice]
              simp

theorem member_agree_iff (tables : Tables sym fns) (hscope : scope.contains name = false)
    (field : String) :
    (∀ t, checkerMember sym scope name field = some t →
      interpMember sym fns scope name field = some t) ↔ ¬ MemberClash sym fns name field false := by
  simp only [checkerMember, interpMember, MemberClash, hscope, Bool.false_eq_true, if_false]
  cases henum : sym.checker.enumDecl name with
  | some decl =>
      refine iff_of_true (fun t ht => ?_) fun h => Option.some_ne_none _ h.1
      dsimp only at ht ⊢
      split at ht
      case isTrue hunit => rw [if_pos hunit, ht]
      · cases ht
  | none =>
      dsimp only
      rw [eq_self, true_and]
      exact base_agree_iff tables hscope false field

theorem checkerIdent_ty (tables : Tables sym fns) (hscope : scope.contains name = false) :
    (checkerIdent sym scope name).bind (targetTy sym) = receiverTy sym name := by
  simp only [checkerIdent, receiverTy, hscope, tables.services_agree, Bool.false_eq_true, if_false]
  cases BuiltinModule.named name with
  | some m => rfl
  | none =>
      cases (builtinFnSignature name).isSome with
      | true => rfl
      | false =>
          cases (sym.serviceDecl name).isSome with
          | true => rfl
          | false =>
              cases sym.constDecl name with
              | some c => rfl
              | none => cases (sym.fnSignature name).isSome <;> rfl

theorem interpLooksAtReceiver_eq {method : String} (hscope : scope.contains name = false) :
    interpLooksAtReceiver sym fns scope name method = readsReceiver sym name method := by
  have hstruct : (interpIdent sym fns scope name).any isStructConst =
      ((BuiltinModule.named name).isNone &&
        (sym.constDecl name).any fun c => isStructConst (.const c)) := by
    simp only [interpIdent, hscope, Bool.false_eq_true, if_false]
    cases BuiltinModule.named name with
    | some m => rfl
    | none =>
        cases sym.constDecl name with
        | some c => rfl
        | none =>
            dsimp only
            repeat' split
            all_goals rfl
  rw [interpLooksAtReceiver, hstruct, readsReceiver, Bool.and_assoc]

theorem checkerIdent_isSome_iff (tables : Tables sym fns) (hscope : scope.contains name = false) :
    (checkerIdent sym scope name).isSome = true ↔ IsDeclared sym fns name := by
  simp only [checkerIdent, IsDeclared, IsUserValue, hscope, tables.services_agree,
    tables.fns_agree, Bool.false_eq_true, if_false]
  cases BuiltinModule.named name with
  | some m => simp
  | none =>
      cases (builtinFnSignature name).isSome with
      | true => simp
      | false =>
          cases (sym.serviceDecl name).isSome with
          | true => simp
          | false =>
              cases sym.constDecl name with
              | some c => simp
              | none => cases (fns.lookup name).isSome <;> simp

/-- A recognised receiver is a module or a constant, and then it is the same for both. -/
theorem recognised_target {methods : MethodTable} {method : String}
    (hscope : scope.contains name = false)
    (h : ((checkerIdent sym scope name).bind (targetTy sym)).any (fun ty => methods ty method) = true) :
    ∃ t, checkerIdent sym scope name = some t ∧ (∀ s, t ≠ .service s) ∧ (∀ e v, t ≠ .variant e v) ∧
      (BuiltinModule.named name ≠ none ∨
        ((builtinFnSignature name).isSome = false ∧ (sym.serviceMethods name).isSome = false)) := by
  cases hident : checkerIdent sym scope name with
  | none =>
      rw [hident] at h
      exact nomatch h
  | some t =>
      rw [hident] at h
      refine ⟨t, rfl, ?_, ?_, ?_⟩
      · rintro s rfl
        exact nomatch h
      · rintro e v rfl
        exact nomatch h
      · simp only [checkerIdent, hscope, Bool.false_eq_true, if_false] at hident
        split at hident
        case h_1 m hm =>
          left
          rw [hm]
          exact fun h => nomatch h
        · right
          split at hident
          · cases hident
            exact nomatch h
          case isFalse hbuiltin =>
            split at hident
            · cases hident
              exact nomatch h
            case isFalse hservice =>
              exact ⟨Bool.not_eq_true _ ▸ hbuiltin, Bool.not_eq_true _ ▸ hservice⟩

theorem checkerField_ne_variant {field : String} (e v : String) :
    checkerField sym (checkerIdent sym scope name) field ≠ some (.variant e v) := by
  intro h
  have hident : checkerIdent sym scope name ≠ some (.variant e v) := by
    simp only [checkerIdent]
    repeat' split
    all_goals exact fun h => nomatch h
  cases hc : checkerIdent sym scope name with
  | none =>
      rw [hc] at h
      exact nomatch h
  | some t =>
      rw [hc] at h hident
      cases t with
      | service s =>
          obtain ⟨r, -, hr⟩ := Option.map_eq_some_iff.mp h
          exact nomatch hr
      | variant => exact hident h
      | _ => exact nomatch h

/-- An unrecognised method on a name that is no enum's: only the two methods of optionals
keep the interpreter from reading the field of a service. -/
theorem interpMethod_eq_base {method : String} (hscope : scope.contains name = false)
    (henum : sym.checker.enumDecl name = none) :
    interpMethod sym fns scope name method =
      @interpBase sym (optionalMethods.contains method) (interpIdent sym fns scope name) method := by
  have hmember : interpMember sym fns scope name method =
      interpField sym (interpIdent sym fns scope name) method := by
    simp only [interpMember, hscope, henum, Bool.false_eq_true, if_false]
  rw [interpMethod, hmember]
  cases hopt : optionalMethods.contains method with
  | true => rw [interpLooksAtReceiver, hopt, Bool.true_or, Bool.true_or]; rfl
  | false =>
      split
      case isFalse => rfl
      case isTrue hlooks =>
        simp only [interpLooksAtReceiver, hopt, Bool.false_or, Bool.or_eq_true,
          Bool.and_eq_true, decide_eq_true_eq] at hlooks
        obtain ⟨-, hconst⟩ | ⟨-, rfl⟩ := hlooks
        · cases hident : interpIdent sym fns scope name with
          | none =>
              rw [hident] at hconst
              exact nomatch hconst
          | some t =>
              rw [hident] at hconst
              refine (interpBase_of_not_service ?_).symm
              rintro s rfl
              exact nomatch hconst
        · have hdb : interpIdent sym fns scope "db" = some (.module .db) := by
            simp only [interpIdent, hscope, Bool.false_eq_true, if_false]
            rfl
          rw [hdb]
          rfl

theorem method_agree_iff (tables : Tables sym fns) (hscope : scope.contains name = false)
    (methods : MethodTable) (method : String) :
    (∀ t, checkerMethod sym methods scope name method = some t →
      interpMethod sym fns scope name method = some t) ↔
      ¬ (if (receiverTy sym name).any (fun ty => methods ty method) then
          readsReceiver sym name method = false ∧
            (sym.checker.enumDecl name).any (fun decl => unitVariant decl method) = true
        else MemberClash sym fns name method (optionalMethods.contains method)) := by
  have hreads : interpLooksAtReceiver sym fns scope name method = readsReceiver sym name method :=
    interpLooksAtReceiver_eq hscope
  rw [← checkerIdent_ty tables hscope, ← hreads]
  split
  case isTrue hrec =>
    obtain ⟨t, hident, hservice, hvariant, hfirst⟩ := recognised_target hscope hrec
    have hsame : interpIdent sym fns scope name = some t := by
      rw [ident_agree tables, hident]
      rw [tables.services_agree] at hfirst
      exact .inr (hfirst.imp_right .inl)
    have hchecker : checkerMethod sym methods scope name method = some t := by
      rw [checkerMethod, if_pos hrec, hident]
    rw [hchecker]
    have hforall : (∀ u, some t = some u → interpMethod sym fns scope name method = some u) ↔
        interpMethod sym fns scope name method = some t :=
      ⟨fun h => h t rfl, fun h u hu => by rw [h, hu]⟩
    rw [hforall, interpMethod]
    cases hlooks : interpLooksAtReceiver sym fns scope name method with
    | true => simp [hsame]
    | false =>
        simp only [Bool.false_eq_true, if_false, true_and, interpMember, hscope, hsame]
        have hfield : interpField sym (some t) method = some t :=
          @interpBase_of_not_service sym t method false hservice
        cases sym.checker.enumDecl name with
        | none => simp [hfield]
        | some decl =>
            cases hunit : unitVariant decl method with
            | false => simp [hunit, hfield]
            | true =>
                simp only [hunit, if_true, Option.any_some, not_true_eq_false, iff_false]
                exact fun h => hvariant _ _ (Option.some.inj h).symm
  case isFalse hrec =>
    simp only [checkerMethod, hrec, if_false, Bool.false_eq_true]
    cases henum : sym.checker.enumDecl name with
    | some decl =>
        refine iff_of_true (fun t ht => ?_) fun h => Option.some_ne_none _ (henum.symm.trans h.1)
        simp only [checkerMember, hscope, henum, Bool.false_eq_true, if_false] at ht
        split at ht
        · cases ht
        case h_2 hnot =>
          split at ht
          case isTrue hunit => exact absurd (if_pos hunit) (hnot _ _)
          · cases ht
    | none =>
        rw [interpMethod_eq_base hscope henum, MemberClash, henum, eq_self, true_and,
          ← base_agree_iff tables hscope]
        have hmember : checkerMember sym scope name method =
            checkerField sym (checkerIdent sym scope name) method := by
          simp only [checkerMember, hscope, henum, Bool.false_eq_true, if_false]
        rw [hmember]
        split
        case h_1 e v hv => exact absurd hv (checkerField_ne_variant e v)
        · rfl

/-- One occurrence: the two resolvers part exactly at the clashes. -/
theorem agree_iff (tables : Tables sym fns) (methods : MethodTable) (o : Occurrence) :
    Agree sym fns methods o ↔ ¬ Clash sym fns methods o := by
  obtain ⟨scope, name, use⟩ := o
  cases hshadow : scope.contains name with
  | true =>
      refine iff_of_true ?_ fun h => Bool.false_ne_true (h.1.symm.trans hshadow)
      have hident : checkerIdent sym scope name = some (.local name) := if_pos hshadow
      have hchecker : checkerTarget sym methods ⟨scope, name, use⟩ = some (.local name) := by
        cases use <;>
          simp only [checkerTarget, checkerCallee, checkerMember, checkerMethod, checkerField,
            Occurrence.shadowed, hident, hshadow, targetTy, Option.bind_some, Option.any_none,
            Bool.not_true, Bool.and_false, Bool.false_and, Bool.false_eq_true, if_true, if_false]
      have hinterp : interpTarget sym fns ⟨scope, name, use⟩ = some (.local name) := by
        cases use <;>
          simp only [interpTarget, interpCallee, interpMember, interpMethod, interpField,
            interpIdent, Occurrence.shadowed, hshadow, if_true, ite_self]
      intro t ht
      rw [hinterp, ← hchecker, ht]
  | false =>
      have hclash : Clash sym fns methods ⟨scope, name, use⟩ ↔ _ :=
        and_iff_right (a := Occurrence.shadowed ⟨scope, name, use⟩ = false) hshadow
      rw [hclash]
      cases use with
      | value => exact value_agree_iff tables hshadow
      | callee => exact callee_agree_iff tables hshadow
      | member field => exact member_agree_iff tables hshadow field
      | method method => exact method_agree_iff tables hshadow methods method
      | assigned =>
          refine iff_of_true (fun t ht => ?_) fun h => h
          simp only [checkerTarget, Occurrence.shadowed, hshadow] at ht
          exact nomatch ht
      | check =>
          have hnone : interpTarget sym fns ⟨scope, name, .check⟩ = none := by
            simp only [interpTarget, Occurrence.shadowed, hshadow, Bool.false_eq_true, if_false]
          rw [← checkerIdent_isSome_iff tables hshadow]
          simp only [Agree, hnone, checkerTarget]
          cases checkerIdent sym scope name with
          | none => simp
          | some t => simp

end

/-! ## Programs -/

section

variable (parts : CheckerParts) (methods : MethodTable) (program : Program)

/-- The checker and the interpreter resolve every occurrence of a program alike. -/
def ResolvesAlike : Prop :=
  ∀ o ∈ occurrences program,
    Agree (buildSymbols parts.validElement program).1 (fnTable program) methods o

/-- No occurrence of the program is a clash. -/
def ClashFree : Prop :=
  ∀ o ∈ occurrences program,
    ¬ Clash (buildSymbols parts.validElement program).1 (fnTable program) methods o

end

/-- In an accepted program every identifier and every call by name is resolved to the same
declaration on both sides exactly if none of them is a clash. -/
theorem names_resolve_alike (parts : CheckerParts) (methods : MethodTable) (program : Program)
    (h : Accepted parts program) :
    ResolvesAlike parts methods program ↔ ClashFree parts methods program :=
  forall₂_congr fun o _ => agree_iff (tables_of_accepted h) methods o

/-! ## Two small programs -/

/-- No type has a method. -/
def noMethods : MethodTable := fun _ _ => false

/-- `fn now() -> Int { 5 }` and `fn ahora() -> Timestamp { now() }`: the checker takes the
call for one of the builtin `now`. -/
def nowProgram : Program where
  items := [
    .fn ⟨"now", [], .named "Int" [], .mk [] (some (.int ⟨5, inRange_five⟩))⟩,
    .fn ⟨"ahora", [], .named "Timestamp" [], .mk [] (some (.call (.ident "now") []))⟩]

/-- `fn cinco() -> Int { 5 }` and `fn otra() -> Int { cinco() }`. -/
def cincoProgram : Program where
  items := [
    .fn ⟨"cinco", [], .named "Int" [], .mk [] (some (.int ⟨5, inRange_five⟩))⟩,
    .fn ⟨"otra", [], .named "Int" [], .mk [] (some (.call (.ident "cinco") []))⟩]

theorem nowProgram_accepted : Accepted plainParts nowProgram := by
  simp [Accepted, checkProgram, nowProgram, buildSymbols, declarePass, Symbols.declareType,
    Symbols.declareFn, Symbols.declareConst, Symbols.declareCollections, Symbols.declareService,
    Item.collections, Symbols.fnSignature, Symbols.resolveSignature, resolveType_int,
    resolveType_timestamp, checkItem, checkFn, bindParams, typeBlock, typeStmts, typeExpr,
    Mode.conclude, typeBuiltinCall, synthIdent, TyEnv.get, BuiltinModule.named,
    builtinFnSignature, checkArgs, isSubtype_refl, plainParts, isAssert, Mode.isSynth, bind,
    Except.bind, pure, Except.pure, List.lookup_nil, List.lookup_cons]

theorem cincoProgram_accepted : Accepted plainParts cincoProgram := by
  simp [Accepted, checkProgram, cincoProgram, buildSymbols, declarePass, Symbols.declareType,
    Symbols.declareFn, Symbols.declareConst, Symbols.declareCollections, Symbols.declareService,
    Item.collections, Symbols.fnSignature, Symbols.resolveSignature, resolveType_int,
    Symbols.serviceMethods, Symbols.constDecl, checkItem, checkFn, bindParams, typeBlock, typeStmts, typeExpr,
    Mode.conclude, typeBuiltinCall, synthIdent, TyEnv.get, BuiltinModule.named,
    builtinFnSignature, checkArgs, isSubtype_refl, plainParts, isAssert, Mode.isSynth, bind,
    Except.bind, pure, Except.pure, List.lookup_nil, List.lookup_cons]

theorem nowProgram_resolved_apart :
    Accepted plainParts nowProgram ∧ ¬ ResolvesAlike plainParts noMethods nowProgram := by
  refine ⟨nowProgram_accepted, fun h => ?_⟩
  have hcall := h ⟨[], "now", .callee⟩ (by simp [occurrences, nowProgram, itemOccurrences,
    bodyOccurrences, blockOccurrences, exprOccurrences, stmtOccurrences, scopeAfter,
    listOccurrences, paramScope]) (.builtinFn "now") rfl
  cases hcall

theorem cincoProgram_resolved_alike :
    Accepted plainParts cincoProgram ∧ ResolvesAlike plainParts noMethods cincoProgram := by
  refine ⟨cincoProgram_accepted, (names_resolve_alike _ _ _ cincoProgram_accepted).mpr ?_⟩
  intro o ho
  have hcall : o = ⟨[], "cinco", .callee⟩ := by
    simpa [occurrences, cincoProgram, itemOccurrences, bodyOccurrences, blockOccurrences,
      exprOccurrences, stmtOccurrences, scopeAfter, listOccurrences, paramScope] using ho
  subst hcall
  rintro ⟨-, hbuiltin, -⟩
  cases hbuiltin

end CScript.Names
