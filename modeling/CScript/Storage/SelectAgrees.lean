import CScript.Storage.Select

/-!
# Pushed projections and called selectors

The columns read on their own give what the selector gives on every row exactly where the
literal of the selector does nothing but collect fields that are there.
-/

namespace CScript

open Lib

namespace Storage

/-! ## Agreement -/

section

variable {η : Type} (w : World η) (debugCell : Cell → String) (t : Table)

/-- `select` and the selector on each row of the collection give the same list, or both fail. -/
def AgreesWithMapping (order : List OrderKey) (f : Value) (s : State η) : Prop :=
  Comp.Agree (fun n => t.select w.regex w.sym.checker debugCell (evals w .block n) order f)
    (fun n => t.selectInterpreted w.regex w.sym.checker debugCell (evals w .block n) order f) s

/-- The row gives its projection also through the selector: no projected key is absent, and the
literal stands without a default and passes the validators and the check of its type. A field
read alone may be absent, unless a second column of its name is read in its place. -/
def RowAlike (plan : ProjectionPlan) (row : StoredRow) (entries : List (String × Value)) : Prop :=
  match plan with
  | .scalar source =>
      t.slot w.regex w.sym.checker debugCell row source = some none →
        (entryNamed entries source).getD .null = .null
  | .struct name fields =>
      (∀ f ∈ fields, t.slot w.regex w.sym.checker debugCell row f.source ≠ some none) ∧
      LiteralStands w (name.getD "")
        (fields.map fun f => (f.target, (entryNamed entries f.source).getD .null))

/-- Where every source is a column: a row that cannot be read has a projected column that cannot
be read, and if all rows are read each of them is projected alike. -/
structure ProjectsAlike (plan : ProjectionPlan) (rows : List StoredRow) : Prop where
  readable : (∀ row ∈ rows, (t.entries w.regex w.sym.checker debugCell row).isSome = true) ∨
    ∃ row ∈ rows, ∃ source ∈ plan.sources,
      t.slot w.regex w.sym.checker debugCell row source = none
  alike : (∀ row ∈ rows, (t.entries w.regex w.sym.checker debugCell row).isSome = true) →
    ∀ row ∈ rows, ∀ entries, t.entries w.regex w.sym.checker debugCell row = some entries →
      RowAlike w debugCell t plan row entries

end

section

variable {η : Type} {w : World η} {debugCell : Cell → String} {t : Table}

theorem presentEntries_iff {row : StoredRow} {entries : List (String × Value)}
    {fields : List ProjectionField} {slots : List (Option Value)}
    (h : List.Forall₂ (fun f slot =>
      t.slot w.regex w.sym.checker debugCell row f.source = some slot ∧
        ∀ v, slot = some v → entryNamed entries f.source = some v) fields slots) :
    (presentEntries fields slots).length ≤ fields.length ∧
    (presentEntries fields slots =
        fields.map (fun f => (f.target, (entryNamed entries f.source).getD .null)) ↔
      ∀ f ∈ fields, t.slot w.regex w.sym.checker debugCell row f.source ≠ some none) := by
  induction h with
  | nil => exact ⟨Nat.le_refl 0, by simp [presentEntries]⟩
  | @cons f slot fields slots head _ ih =>
      obtain ⟨hslot, hfound⟩ := head
      obtain ⟨hlength, hiff⟩ := ih
      cases slot with
      | none =>
          have skip : presentEntries (f :: fields) (none :: slots) = presentEntries fields slots :=
            rfl
          refine ⟨by rw [skip, List.length_cons]; omega, ?_⟩
          rw [skip]
          constructor
          · intro heq
            have := congrArg List.length heq
            rw [List.length_map, List.length_cons] at this
            omega
          · exact fun h => absurd hslot (h f List.mem_cons_self)
      | some v =>
          have take : presentEntries (f :: fields) (some v :: slots) =
              (f.target, v) :: presentEntries fields slots := rfl
          refine ⟨by rw [take, List.length_cons, List.length_cons]; omega, ?_⟩
          rw [take, List.map_cons, hfound v rfl, List.cons.injEq, hiff, List.forall_mem_cons, hslot]
          simp

theorem call_iff {params : List String} {body : Block} {captured : Env} {plan : ProjectionPlan}
    (h : recognizeProjectionSelector params body = some plan) (hpush : t.Pushes plan) :
    ∃ d, ∀ n, d ≤ n → ∀ (row : StoredRow) (entries : List (String × Value)),
      t.entries w.regex w.sym.checker debugCell row = some entries →
      ∃ v, t.projected w.regex w.sym.checker debugCell row plan = some v ∧ ∀ s : State η,
        ((evals w .block n).call (.closure params body captured) [.struct entries] s).1 = .value v ↔
          RowAlike w debugCell t plan row entries := by
  obtain ⟨d, hd⟩ := @call_selector _ w _ _ captured _ h
  refine ⟨d, fun n hn row entries hrow => ?_⟩
  cases plan with
  | scalar source =>
      obtain ⟨slot, hslot, hfound⟩ := slot_of_entries hrow (hpush source (List.mem_singleton_self _))
      refine ⟨slot.getD .null, by rw [Table.projected, hslot]; rfl, fun s => ?_⟩
      obtain ⟨ev, u, hcall⟩ := hd n hn entries s
      rw [hcall, RowAlike, hslot, Outcome.value.injEq]
      cases slot with
      | none => simp
      | some v => simp [hfound v rfl]
  | struct name fields =>
      have hslots : ∀ f ∈ fields, ∃ slot,
          t.slot w.regex w.sym.checker debugCell row f.source = some slot ∧
            ∀ v, slot = some v → entryNamed entries f.source = some v := fun f hf =>
        slot_of_entries hrow (hpush f.source (List.mem_map.mpr ⟨f, hf, rfl⟩))
      obtain ⟨slots, hall⟩ : ∃ slots, List.Forall₂ (fun f slot =>
          t.slot w.regex w.sym.checker debugCell row f.source = some slot ∧
            ∀ v, slot = some v → entryNamed entries f.source = some v) fields slots := by
        clear hd hpush h
        induction fields with
        | nil => exact ⟨[], .nil⟩
        | cons f fields ih =>
            obtain ⟨slot, hslot⟩ := hslots f List.mem_cons_self
            obtain ⟨slots, hall⟩ := ih fun g hg => hslots g (List.mem_cons_of_mem _ hg)
            exact ⟨slot :: slots, .cons hslot hall⟩
      have hmap : fields.mapM (fun f => t.slot w.regex w.sym.checker debugCell row f.source) =
          some slots := mapM_eq_some_iff.mpr (hall.imp fun _ _ h => h.1)
      obtain ⟨hlength, hpresent⟩ := presentEntries_iff hall
      refine ⟨.struct (presentEntries fields slots), by rw [Table.projected, hmap]; rfl, fun s => ?_⟩
      obtain ⟨ev, u, hcall⟩ := hd n hn entries s
      rw [hcall, RowAlike, finishLiteral_iff (by rw [List.length_map]; exact hlength), hpresent]

theorem callOnEach_iff {ev : Evals η} {f : Value} {plan : ProjectionPlan} {rows : List StoredRow}
    {items vs : List Value}
    (hitems : List.Forall₂ (fun row item => ∃ entries,
      t.entries w.regex w.sym.checker debugCell row = some entries ∧ item = .struct entries)
      rows items)
    (hvs : List.Forall₂ (fun row v =>
      t.projected w.regex w.sym.checker debugCell row plan = some v) rows vs)
    (each : ∀ row entries, t.entries w.regex w.sym.checker debugCell row = some entries →
      ∃ v, t.projected w.regex w.sym.checker debugCell row plan = some v ∧
        ∀ s, (ev.call f [.struct entries] s).1 = .value v ↔
          RowAlike w debugCell t plan row entries) (s : State η) :
    (callOnEach ev f items s).1 = .value vs ↔
      ∀ row ∈ rows, ∀ entries, t.entries w.regex w.sym.checker debugCell row = some entries →
        RowAlike w debugCell t plan row entries := by
  induction hitems generalizing vs s with
  | nil =>
      cases hvs
      exact iff_of_true rfl fun row hrow => absurd hrow List.not_mem_nil
  | @cons row item rows items hitem _ ih =>
      obtain ⟨entries, hentries, rfl⟩ := hitem
      cases hvs with
      | @cons _ v _ vs hv hvs =>
          obtain ⟨v', hv', hcall⟩ := each row entries hentries
          obtain rfl : v' = v := Option.some.inj (hv'.symm.trans hv)
          have head : (∀ es, t.entries w.regex w.sym.checker debugCell row = some es →
              RowAlike w debugCell t plan row es) ↔ RowAlike w debugCell t plan row entries :=
            ⟨fun h => h entries hentries, fun h es hes => by
              rwa [← Option.some.inj (hentries.symm.trans hes)]⟩
          rw [List.forall_mem_cons, head, callOnEach]
          constructor
          · intro h
            obtain ⟨u, s', hu, h⟩ := Comp.bind_eq_value h
            obtain ⟨us, s'', hus, h⟩ := Comp.bind_eq_value h
            cases h
            exact ⟨(hcall s).mp (congrArg Prod.fst hu), (ih hvs s').mp (congrArg Prod.fst hus)⟩
          · rintro ⟨halike, hrest⟩
            have hfirst := (hcall s).mpr halike
            have hpair : ev.call f [.struct entries] s =
                (.value v', (ev.call f [.struct entries] s).2) := Prod.ext hfirst rfl
            rw [Comp.bind_value hpair]
            have hsecond := (ih hvs (ev.call f [.struct entries] s).2).mpr hrest
            have hpair' : callOnEach ev f items (ev.call f [.struct entries] s).2 =
                (.value vs, (callOnEach ev f items (ev.call f [.struct entries] s).2).2) :=
              Prod.ext hsecond rfl
            rw [Comp.bind_value hpair']
            rfl

theorem projected_isSome_iff {row : StoredRow} {plan : ProjectionPlan} :
    (t.projected w.regex w.sym.checker debugCell row plan).isSome = true ↔
      ∀ source ∈ plan.sources,
        (t.slot w.regex w.sym.checker debugCell row source).isSome = true := by
  cases plan with
  | scalar source => simp [Table.projected, ProjectionPlan.sources]
  | struct name fields =>
      rw [Table.projected, Option.isSome_map, mapM_isSome_iff, ProjectionPlan.sources,
        List.forall_mem_map]

theorem sources_ne_nil {params : List String} {body : Block} {plan : ProjectionPlan}
    (h : recognizeProjectionSelector params body = some plan) : plan.sources ≠ [] := by
  unfold recognizeProjectionSelector at h
  split at h
  case h_2 => cases h
  split at h
  · cases h
  split at h
  · cases h
  split at h
  · obtain ⟨source, -, rfl⟩ := Option.map_eq_some_iff.mp h
    exact List.cons_ne_nil _ _
  · split at h
    · cases h
    · next hfields =>
        obtain ⟨fs, hfs, rfl⟩ := Option.map_eq_some_iff.mp h
        rename_i fields _
        cases fields with
        | nil => exact absurd rfl hfields
        | cons f fields =>
            rw [projectionFields] at hfs
            obtain ⟨source, -, hfs⟩ := Option.bind_eq_some_iff.mp hfs
            obtain ⟨rest, -, hfs⟩ := Option.bind_eq_some_iff.mp hfs
            cases hfs
            exact List.cons_ne_nil _ _
  · cases h

theorem selectProjected_of_not_pushes {plan : ProjectionPlan} {order : List OrderKey}
    {rows : List StoredRow} (hrows : t.rows order = .ok rows) (h : ¬ t.Pushes plan) :
    t.selectProjected w.regex w.sym.checker debugCell plan order = .ok none := by
  rw [Table.selectProjected, hrows]
  cases plan with
  | scalar source =>
      have none : t.sourceColumn source = none := by
        cases hcol : t.sourceColumn source with
        | none => rfl
        | some col =>
            refine absurd (fun s hs => ?_) h
            rw [List.mem_singleton.mp hs, hcol]
            rfl
      simp only [none]
      rfl
  | struct name fields =>
      have none : (fields.mapM fun f => t.sourceColumn f.source) = none := by
        cases hcols : fields.mapM fun f => t.sourceColumn f.source with
        | none => rfl
        | some cols =>
            refine absurd (fun s hs => ?_) h
            obtain ⟨f, hf, rfl⟩ := List.mem_map.mp hs
            exact mapM_isSome_iff.mp (by rw [hcols]; rfl) f hf
      simp only [none]
      change (if fields.isEmpty = true then pure Option.none else pure Option.none :
        Except RuntimeError (Option (List Value))) = _
      split <;> rfl

/-- What `select` does with a plan that is recognised. -/
def Table.selectPlan (w : World η) (debugCell : Cell → String) (t : Table) (plan : ProjectionPlan)
    (order : List OrderKey) (f : Value) (n : Nat) : EvalM η (List Value) := do
  match ← Comp.lift (t.selectProjected w.regex w.sym.checker debugCell plan order) with
  | some rows => return rows
  | none => t.selectInterpreted w.regex w.sym.checker debugCell (evals w .block n) order f

theorem agreesWithMapping_eq {order : List OrderKey} {params : List String} {body : Block}
    {captured : Env} {plan : ProjectionPlan} {s : State η}
    (h : recognizeProjectionSelector params body = some plan) :
    AgreesWithMapping w debugCell t order (.closure params body captured) s =
      Comp.Agree (fun n => t.selectPlan w debugCell plan order (.closure params body captured) n)
        (fun n => t.selectInterpreted w.regex w.sym.checker debugCell (evals w .block n) order
          (.closure params body captured)) s := by
  have hselect (n : Nat) : t.select w.regex w.sym.checker debugCell (evals w .block n) order
      (.closure params body captured) =
        t.selectPlan w debugCell plan order (.closure params body captured) n := by
    rw [Table.select, recognizePushableProjection, h]
    rfl
  simp only [AgreesWithMapping, hselect]

section

variable {plan : ProjectionPlan} {order : List OrderKey} {f : Value} {rows : List StoredRow}
  {s : State η}

/-- Where no row is left to read, or the query is refused, both fail alike. -/
theorem agree_of_refused {e : RuntimeError} (hrows : t.rows order = .error e) :
    Comp.Agree (fun n => t.selectPlan w debugCell plan order f n)
      (fun n => t.selectInterpreted w.regex w.sym.checker debugCell (evals w .block n) order f) s := by
  have hproj : t.selectProjected w.regex w.sym.checker debugCell plan order = .error e := by
    rw [Table.selectProjected, hrows]
    rfl
  have hall : t.selectAllOrdered w.regex w.sym.checker debugCell order = .error e := by
    rw [Table.selectAllOrdered, hrows]
    rfl
  simp only [Table.selectPlan, Table.selectInterpreted, hproj, hall]
  exact ⟨fun _ => Iff.rfl, Iff.rfl⟩

/-- Where a row cannot be read the selector is never called: the projection agrees if it fails too,
which takes a projected column that cannot be read. -/
theorem agree_iff_of_unread {e : RuntimeError}
    (hread : (t.selectProjected w.regex w.sym.checker debugCell plan order).toOption =
      (rows.mapM fun row => t.projected w.regex w.sym.checker debugCell row plan).map some)
    (hall : t.selectAllOrdered w.regex w.sym.checker debugCell order = .error e)
    (hunread : ¬ ∀ row ∈ rows, (t.entries w.regex w.sym.checker debugCell row).isSome = true) :
    Comp.Agree (fun n => t.selectPlan w debugCell plan order f n)
        (fun n => t.selectInterpreted w.regex w.sym.checker debugCell (evals w .block n) order f) s ↔
      ProjectsAlike w debugCell t plan rows := by
  cases hvs : rows.mapM fun row => t.projected w.regex w.sym.checker debugCell row plan with
  | none =>
      rw [hvs] at hread
      obtain ⟨e', he'⟩ := eq_error_of_toOption_eq_none hread
      simp only [Table.selectPlan, Table.selectInterpreted, hall, he']
      rw [@Comp.agree_iff_of_outcomes _ _ _ _ _ _ _ 0 (.failed e') (.failed e) (fun _ => rfl)
        fun _ _ => rfl]
      refine iff_of_true ⟨fun vs => ?_, Iff.rfl⟩ ⟨.inr ?_, fun h => absurd h hunread⟩
      · exact iff_of_false (fun h => nomatch h) fun h => nomatch h
      · by_contra none
        have hsome := mapM_isSome_iff.mpr fun row hrow =>
          projected_isSome_iff.mpr fun source hsource =>
            Option.isSome_iff_ne_none.mpr fun h => none ⟨row, hrow, source, hsource, h⟩
        rw [hvs] at hsome
        exact nomatch hsome
  | some vs =>
      rw [hvs] at hread
      simp only [Table.selectPlan, Table.selectInterpreted, hall, toOption_eq_some_iff.mp hread]
      rw [@Comp.agree_iff_of_outcomes _ _ _ _ _ _ _ 0 (.value vs) (.failed e) (fun _ => rfl)
        fun _ _ => rfl]
      refine iff_of_false (fun h => nomatch (h.1 vs).mp rfl) fun h => ?_
      rcases h.readable with all | ⟨row, hrow, source, hsource, none⟩
      · exact hunread all
      · have hslot := projected_isSome_iff.mp
          (mapM_isSome_iff.mp (by rw [hvs]; rfl) row hrow) source hsource
        rw [none] at hslot
        exact nomatch hslot

/-- Where every row is read so is its projection, and the selector is called on each. -/
theorem agree_iff_of_read {params : List String} {body : Block} {captured : Env} {items : List Value}
    (h : recognizeProjectionSelector params body = some plan) (hpush : t.Pushes plan)
    (hread : (t.selectProjected w.regex w.sym.checker debugCell plan order).toOption =
      (rows.mapM fun row => t.projected w.regex w.sym.checker debugCell row plan).map some)
    (hall : t.selectAllOrdered w.regex w.sym.checker debugCell order = .ok items)
    (hitems : (rows.mapM fun row =>
      (t.entries w.regex w.sym.checker debugCell row).map Value.struct) = some items) :
    Comp.Agree (fun n => t.selectPlan w debugCell plan order (.closure params body captured) n)
        (fun n => t.selectInterpreted w.regex w.sym.checker debugCell (evals w .block n) order
          (.closure params body captured)) s ↔
      ProjectsAlike w debugCell t plan rows := by
  have read : ∀ row ∈ rows,
      (t.entries w.regex w.sym.checker debugCell row).isSome = true := fun row hrow =>
    Option.isSome_map.symm.trans (mapM_isSome_iff.mp (by rw [hitems]; rfl) row hrow)
  obtain ⟨d, hd⟩ := @call_iff _ w debugCell t _ _ captured _ h hpush
  obtain ⟨vs, hvs⟩ : ∃ vs, (rows.mapM fun row =>
      t.projected w.regex w.sym.checker debugCell row plan) = some vs := by
    refine Option.isSome_iff_exists.mp (mapM_isSome_iff.mpr fun row hrow => ?_)
    obtain ⟨entries, hentries⟩ := Option.isSome_iff_exists.mp (read row hrow)
    obtain ⟨v, hv, -⟩ := hd d (Nat.le_refl d) row entries hentries
    rw [hv]
    rfl
  rw [hvs] at hread
  have alike : ProjectsAlike w debugCell t plan rows ↔ ∀ row ∈ rows, ∀ entries,
      t.entries w.regex w.sym.checker debugCell row = some entries →
        RowAlike w debugCell t plan row entries :=
    ⟨fun h => h.alike read, fun h => ⟨.inl read, fun _ => h⟩⟩
  simp only [Table.selectPlan, Table.selectInterpreted, hall, toOption_eq_some_iff.mp hread]
  rw [alike]
  refine Comp.agree_iff_of_value (d := d) (fun n => rfl) fun n hn => ?_
  refine callOnEach_iff ?_ (mapM_eq_some_iff.mp hvs) (hd n hn) s
  refine (mapM_eq_some_iff.mp hitems).imp fun row item hitem => ?_
  obtain ⟨entries, hentries, rfl⟩ := Option.map_eq_some_iff.mp hitem
  exact ⟨entries, hentries, rfl⟩

end

/-- Pushed down or called on every row, a projection gives the same list or fails alike exactly
where it is alike on the rows of the collection. -/
theorem projection_agrees_iff (w : World η) (debugCell : Cell → String) (t : Table)
    (order : List OrderKey) (params : List String) (body : Block) (captured : Env)
    (plan : ProjectionPlan) (h : recognizeProjectionSelector params body = some plan)
    (s : State η) :
    AgreesWithMapping w debugCell t order (.closure params body captured) s ↔
      ∀ rows, t.rows order = .ok rows → t.Pushes plan → ProjectsAlike w debugCell t plan rows := by
  rw [agreesWithMapping_eq h]
  cases hrows : t.rows order with
  | error e => exact iff_of_true (agree_of_refused hrows) fun rows hr => nomatch hr
  | ok rows =>
      by_cases hpush : t.Pushes plan
      · have only : (∀ rs, Except.ok (ε := RuntimeError) rows = .ok rs → t.Pushes plan →
            ProjectsAlike w debugCell t plan rs) ↔ ProjectsAlike w debugCell t plan rows :=
          ⟨fun h => h rows rfl hpush, fun h rs hrs _ => by cases hrs; exact h⟩
        rw [only]
        have hread := @toOption_selectProjected w.regex w.sym.checker debugCell t _ _ _ hrows hpush
          (sources_ne_nil h)
        have hall := @toOption_selectAllOrdered w.regex w.sym.checker debugCell t order
        rw [hrows, toOption_ok, Option.bind_some] at hall
        cases hitems : rows.mapM fun row =>
            (t.entries w.regex w.sym.checker debugCell row).map Value.struct with
        | some items =>
            rw [hitems] at hall
            exact agree_iff_of_read h hpush hread (toOption_eq_some_iff.mp hall) hitems
        | none =>
            rw [hitems] at hall
            obtain ⟨e, he⟩ := eq_error_of_toOption_eq_none hall
            refine agree_iff_of_unread hread he fun all => ?_
            have hsome := mapM_isSome_iff.mpr fun row hrow =>
              (Option.isSome_map (f := Value.struct)).trans (all row hrow)
            rw [hitems] at hsome
            exact nomatch hsome
      · have hplan : ∀ n, t.selectPlan w debugCell plan order (.closure params body captured) n =
            t.selectInterpreted w.regex w.sym.checker debugCell (evals w .block n) order
              (.closure params body captured) := fun n => by
          rw [Table.selectPlan, selectProjected_of_not_pushes hrows hpush]
          rfl
        simp only [hplan]
        exact iff_of_true ⟨fun _ => Iff.rfl, Iff.rfl⟩ fun _ _ hp => absurd hp hpush

end

/-! ## A key that may be absent -/

/-- `Nota { id: Int, texto?: String }` with one row, whose text is `NULL`. -/
private def notas : Table where
  collection := "notas"
  columns := [.forField ⟨"texto", true, .string⟩ [] false none]
  idCol := "id"
  idKind := .int
  cipher := none
  stored := [fun name _ => .ok (if name = "id" then .int (.ofInt 1 inRange_one) else .null)]
  baseWhere := .ok fun _ => true
  sort := fun _ rows => rows

private def notasWorld : World Unit := Program.world ⟨[]⟩ plainParts noRegex noHost

private def readTexto : Expr := .fieldAccess (.ident "n") "texto"

private theorem notas_pushes : notas.Pushes (.scalar "texto") := by
  intro source hsource
  rw [List.mem_singleton.mp hsource]
  rfl

/-- `|n| n.texto` gives `null` in both ways. -/
theorem absent_key_read_alone :
    AgreesWithMapping notasWorld (fun _ => "") notas [] (.closure ["n"] (.mk [] (some readTexto)) [])
      noRun := by
  refine (projection_agrees_iff notasWorld _ notas [] ["n"] _ [] (.scalar "texto") rfl noRun).mpr ?_
  intro rows hrows _
  have hrows : rows = notas.stored := Except.ok.inj hrows.symm
  subst hrows
  refine ⟨.inl fun row hrow => ?_, fun _ row hrow entries hentries _ => ?_⟩
  · rw [List.mem_singleton.mp hrow]
    rfl
  · rw [List.mem_singleton.mp hrow] at hentries
    rw [← Option.some.inj hentries]
    rfl

/-- `|n| { texto: n.texto }` leaves the key out where its call gives `null` for it. -/
theorem absent_key_left_out :
    ¬ AgreesWithMapping notasWorld (fun _ => "") notas []
      (.closure ["n"] (.mk [] (some (.structLit "" none [("texto", readTexto)]))) []) noRun := by
  rw [@agreesWithMapping_eq _ _ _ _ _ _ _ _ (.struct none [⟨"texto", "texto"⟩]) _ rfl]
  have hpush : notas.Pushes (.struct none [⟨"texto", "texto"⟩]) := notas_pushes
  have hread := @toOption_selectProjected notasWorld.regex notasWorld.sym.checker (fun _ => "") notas
    (.struct none [⟨"texto", "texto"⟩]) [] notas.stored rfl hpush (List.cons_ne_nil _ _)
  rw [agree_iff_of_read rfl hpush hread rfl rfl]
  intro halike
  have hread : ∀ row ∈ notas.stored,
      (notas.entries notasWorld.regex notasWorld.sym.checker (fun _ => "") row).isSome = true := by
    intro row hrow
    rw [List.mem_singleton.mp hrow]
    rfl
  exact (halike.alike hread _ List.mem_cons_self _ rfl).1 _ List.mem_cons_self rfl

end Storage

end CScript
