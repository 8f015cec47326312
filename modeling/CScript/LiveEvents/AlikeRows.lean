import CScript.LiveEvents.Delivery
import Mathlib.Data.List.Forall2

/-!
# Rows that differ in hidden values

Two rows that differ in hidden columns only are read, encoded and stripped alike, and a
statement that reads nothing hidden leaves alike tables of such rows.
-/

namespace CScript.LiveEvents

open Lib Storage
open RemoteEvents (maxNotifyPayloadBytes maxPendingNotifyRetries)

/-- Every entry inserted, one after another. -/
def insertAll (m entries : List (String × Json)) : List (String × Json) :=
  entries.foldl (fun m e => insertKey e.1 e.2 m) m

theorem entriesToJson_eq_insertAll (simpleEnums : List String) (m : List (String × Json))
    (entries : List (String × Value)) :
    entriesToJson simpleEnums m entries =
      insertAll m (entries.map fun e => (e.1, valueToJson simpleEnums e.2)) := by
  induction entries generalizing m with
  | nil => rw [entriesToJson]; rfl
  | cons e rest ih => rw [entriesToJson, ih]; rfl

/-- In a sorted object the kept keys stay where they are. -/
theorem filter_insertKey {key : String} {j : Json} {m : List (String × Json)} (p : String → Bool)
    (h : KeysSorted m) :
    (insertKey key j m).filter (fun e => p e.1) =
      if p key then insertKey key j (m.filter fun e => p e.1) else m.filter fun e => p e.1 := by
  induction m with
  | nil => by_cases hp : p key <;> simp [insertKey, hp]
  | cons e rest ih =>
      unfold KeysSorted at h ih
      rw [List.map_cons, List.pairwise_cons] at h
      have hfirst : ∀ x ∈ rest.filter (fun e => p e.1), e.1 < x.1 := fun x hx =>
        h.1 x.1 (List.mem_map_of_mem (List.mem_of_mem_filter hx))
      rw [insertKey]
      split
      · next hlt =>
        by_cases hp : p key
        · by_cases he : p e.1
          · simp [hp, he, insertKey, hlt]
          · rw [if_pos hp, List.filter_cons_of_pos (by simpa using hp),
              List.filter_cons_of_neg (by simpa using he)]
            cases hrest : rest.filter (fun e => p e.1) with
            | nil => rfl
            | cons x xs =>
                have hx : key < x.1 := hlt.trans (hfirst x (hrest ▸ List.mem_cons_self))
                rw [insertKey, if_pos hx]
        · rw [if_neg hp, List.filter_cons_of_neg (by simpa using hp)]
      · split
        · next hnlt heq =>
          by_cases hp : p key
          · simp [hp, ← heq, insertKey]
          · simp [hp, ← heq]
        · next hnlt hne =>
          by_cases he : p e.1
          · rw [List.filter_cons_of_pos (by simpa using he), ih h.2,
              List.filter_cons_of_pos (by simpa using he)]
            by_cases hp : p key
            · rw [if_pos hp, if_pos hp, insertKey, if_neg hnlt, if_neg hne]
            · rw [if_neg hp, if_neg hp]
          · rw [List.filter_cons_of_neg (by simpa using he), ih h.2,
              List.filter_cons_of_neg (by simpa using he)]

theorem filter_insertAll {m : List (String × Json)} (p : String → Bool) (h : KeysSorted m)
    (entries : List (String × Json)) :
    (insertAll m entries).filter (fun e => p e.1) =
      insertAll (m.filter fun e => p e.1) (entries.filter fun e => p e.1) := by
  induction entries generalizing m with
  | nil => rfl
  | cons e rest ih =>
      have hsorted : KeysSorted (insertKey e.1 e.2 m) := keysSorted_insertKey h
      have hstep := ih hsorted
      rw [filter_insertKey p h] at hstep
      by_cases he : p e.1
      · rw [if_pos he] at hstep
        rw [List.filter_cons_of_pos (by simpa using he)]
        exact hstep
      · rw [if_neg he] at hstep
        rw [List.filter_cons_of_neg (by simpa using he)]
        exact hstep

theorem mem_keys_insertAll {m entries : List (String × Json)} {k : String} :
    k ∈ (insertAll m entries).map Prod.fst ↔ k ∈ entries.map Prod.fst ∨ k ∈ m.map Prod.fst := by
  induction entries generalizing m with
  | nil => simp [insertAll]
  | cons e rest ih =>
      have hstep := ih (m := insertKey e.1 e.2 m)
      rw [mem_keys_insertKey] at hstep
      rw [List.map_cons, List.mem_cons]
      refine hstep.trans ?_
      tauto

theorem keysSorted_nil : KeysSorted ([] : List (String × Json)) := List.Pairwise.nil

/-! ## Rows that agree outside the hidden columns -/

section

variable {checker : Checker} (c : Collection checker)

/-- The same columns in the same order, with the same cells where nothing hidden is stored. -/
def AlikeRow : StoredRow → StoredRow → Prop :=
  List.Forall₂ fun e e' => e.1 = e'.1 ∧ (e.1 ∈ c.hiddenColumns ∨ e.2 = e'.2)

/-- The entries of a row that may leave the process. -/
def shown (row : List (String × Value)) : List (String × Value) :=
  row.filter fun e => !c.isHidden e.1

variable {c}

theorem isHidden_iff {field : String} : c.isHidden field = true ↔
    field ∈ hiddenFields checker c.typeName := by
  unfold Collection.isHidden fieldIsHidden
  exact List.contains_iff_mem

theorem hidden_declared {field : String} (h : field ∈ hiddenFields checker c.typeName) :
    field ∈ c.declared.map fun f => f.name := by
  unfold hiddenFields at h
  rw [c.isDeclared] at h
  obtain ⟨f, hf, rfl⟩ := List.mem_map.mp h
  exact List.mem_map_of_mem (List.mem_of_mem_filter hf)

/-- Different declared fields have different columns. -/
theorem columnOf_injective {n m : String} (hn : n ∈ c.declared.map fun f => f.name)
    (hm : m ∈ c.declared.map fun f => f.name) (h : c.columnOf n = c.columnOf m) : n = m := by
  have hfind : ∀ {k}, k ∈ c.declared.map (fun f => f.name) →
      ∃ f ∈ c.declared, f.name = k ∧ c.columnOf k = columnName f := by
    intro k hk
    obtain ⟨g, hg, rfl⟩ := List.mem_map.mp hk
    cases hfind : c.declaredField g.name with
    | none =>
        have := List.find?_eq_none.mp hfind g hg
        simp at this
    | some f =>
        refine ⟨f, List.mem_of_find?_eq_some hfind, by simpa using List.find?_some hfind, ?_⟩
        unfold Collection.columnOf
        rw [hfind]
        rfl
  obtain ⟨f, hf, rfl, hcf⟩ := hfind hn
  obtain ⟨g, hg, rfl, hcg⟩ := hfind hm
  have hsame : columnName f = columnName g := hcf ▸ hcg ▸ h
  rw [List.inj_on_of_nodup_map c.columnsOnce hf hg hsame]

theorem columnOf_not_hidden {field : String} (hf : field ∈ c.declared.map fun f => f.name)
    (h : field ∉ hiddenFields checker c.typeName) : c.columnOf field ∉ c.hiddenColumns := by
  intro hmem
  obtain ⟨hidden, hh, heq⟩ := List.mem_map.mp hmem
  exact h (columnOf_injective (hidden_declared hh) hf heq ▸ hh)

theorem cellAt_alike {row row' : StoredRow} (h : AlikeRow c row row') {column : String}
    (hc : column ∉ c.hiddenColumns) : cellAt row column = cellAt row' column := by
  unfold cellAt
  induction h with
  | nil => rfl
  | @cons e e' rest rest' he _ ih =>
      rw [List.find?_cons, List.find?_cons, ← he.1]
      cases hkey : e.1 == column with
      | true =>
          rcases he.2 with hh | hv
          · exact absurd (beq_iff_eq.mp hkey ▸ hh) hc
          · exact congrArg some hv
      | false => exact ih

end

namespace Deployment

variable {w : Deployment} {c : Collection w.checker}

/-- The id is read alike, and each column that is not hidden. -/
theorem column_shown {col : ColumnPlan} (h : col ∈ c.columns) :
    col.field.name ∈ c.declared.map (fun f => f.name) ∧ col.sqlName = c.columnOf col.field.name := by
  obtain ⟨f, hf, rfl⟩ := List.mem_map.mp h
  refine ⟨?_, rfl⟩
  rw [← c.isResolved]
  exact List.mem_map_of_mem (List.mem_of_mem_filter hf)

theorem decodeColumns_alike {id : String} {row row' : StoredRow} (hrow : AlikeRow c row row') :
    ∀ {columns : List ColumnPlan} {cells cells' : List Cell} {es es' : List (String × Value)},
      (∀ col ∈ columns, col ∈ c.columns) →
      columns.mapM (fun col => cellAt row col.sqlName) = some cells →
      columns.mapM (fun col => cellAt row' col.sqlName) = some cells' →
      decodeColumns w.regex w.checker w.debugCell w.cipher c.name id
        (columns.zip (fetchRow w.backend columns cells)) = .ok es →
      decodeColumns w.regex w.checker w.debugCell w.cipher c.name id
        (columns.zip (fetchRow w.backend columns cells')) = .ok es' →
      shown c es = shown c es' ∧ ∀ e ∈ es, e.1 ∈ c.declared.map fun f => f.name := by
  intro columns
  induction columns with
  | nil =>
      intro cells cells' es es' _ _ _ hes hes'
      cases hes
      cases hes'
      exact ⟨rfl, fun e he => nomatch he⟩
  | cons col rest ih =>
      intro cells cells' es es' hcols hcells hcells' hes hes'
      rw [List.mapM_cons] at hcells hcells'
      obtain ⟨cell, hcell, hcells⟩ := Option.bind_eq_some_iff.mp hcells
      obtain ⟨others, hothers, hcells⟩ := Option.bind_eq_some_iff.mp hcells
      obtain ⟨cell', hcell', hcells'⟩ := Option.bind_eq_some_iff.mp hcells'
      obtain ⟨others', hothers', hcells'⟩ := Option.bind_eq_some_iff.mp hcells'
      cases hcells
      cases hcells'
      obtain ⟨slot, hslot, hes⟩ := except_bind_eq_ok hes
      obtain ⟨tail, htail, hes⟩ := except_bind_eq_ok hes
      obtain ⟨slot', hslot', hes'⟩ := except_bind_eq_ok hes'
      obtain ⟨tail', htail', hes'⟩ := except_bind_eq_ok hes'
      cases hes
      cases hes'
      have hrest := ih (fun col hcol => hcols col (List.mem_cons_of_mem _ hcol)) hothers hothers'
        htail htail'
      obtain ⟨hname, hsql⟩ := column_shown (hcols col List.mem_cons_self)
      have hfirst : shown c (slot.map fun v => (col.field.name, v)).toList =
          shown c (slot'.map fun v => (col.field.name, v)).toList := by
        by_cases hh : col.field.name ∈ hiddenFields w.checker c.typeName
        · have hgone : ∀ o : Option Value,
              shown c (o.map fun v => (col.field.name, v)).toList = [] := by
            intro o
            cases o with
            | none => rfl
            | some v => simp [shown, isHidden_iff.mpr hh]
          rw [hgone, hgone]
        · have hcol := cellAt_alike hrow (hsql ▸ columnOf_not_hidden hname hh)
          rw [hcell, hcell'] at hcol
          cases hcol
          rw [hslot] at hslot'
          cases hslot'
          rfl
      refine ⟨?_, ?_⟩
      · unfold shown at hfirst hrest ⊢
        rw [List.filter_append, List.filter_append, hfirst, hrest.1]
      · intro e he
        rcases List.mem_append.mp he with he | he
        · rw [Option.mem_toList] at he
          obtain ⟨v, -, rfl⟩ := Option.map_eq_some_iff.mp he
          exact hname
        · exact hrest.2 e he

/-- Rows that differ in hidden columns are read as rows that differ in hidden fields. -/
theorem readRow_alike {row row' : StoredRow} {es es' : List (String × Value)}
    (hrow : AlikeRow c row row') (hes : w.readRow c row = .ok es) (hes' : w.readRow c row' = .ok es') :
    shown c es = shown c es' ∧ ∀ e ∈ es, e.1 ∈ c.declared.map fun f => f.name := by
  have hid := cellAt_alike hrow (columnOf_not_hidden c.idDeclared c.idVisible)
  unfold readRow at hes hes'
  split at hes
  case h_2 => cases hes
  case h_1 id cells hcell hcells =>
    split at hes'
    case h_2 => cases hes'
    case h_1 id' cells' hcell' hcells' =>
      unfold Collection.idColumn at hcell hcell'
      rw [hcell, hcell'] at hid
      cases hid
      rw [decodeRow] at hes hes'
      split at hes
      case h_2 => cases hes
      case h_1 idValue display hdecode =>
        rw [hdecode] at hes'
        obtain ⟨tail, htail, hes⟩ := except_bind_eq_ok hes
        obtain ⟨tail', htail', hes'⟩ := except_bind_eq_ok hes'
        cases hes
        cases hes'
        have htails := decodeColumns_alike hrow (fun _ h => h) hcells hcells' htail htail'
        refine ⟨?_, ?_⟩
        · unfold shown at htails ⊢
          rw [List.filter_cons, List.filter_cons, htails.1]
        · intro e he
          rcases List.mem_cons.mp he with rfl | he
          · exact c.idDeclared
          · exact htails.2 e he

end Deployment

/-! ## JSON that agrees outside the hidden fields -/

section

variable {checker : Checker} (c : Collection checker)

/-- Two rows as values are encoded: under the names of declared fields, and the same outside
the hidden ones. -/
def AlikeJson (j j' : Json) : Prop :=
  ∃ m m', j = .object m ∧ j' = .object m' ∧
    withoutHidden checker (some c.typeName) m = withoutHidden checker (some c.typeName) m' ∧
    ∀ k ∈ m.map Prod.fst, k ∈ c.declared.map fun f => f.name

/-- Two rows as PostgreSQL encodes them: the same outside the hidden columns. -/
def AlikeOld (j j' : Json) : Prop :=
  ∃ m m', j = .object m ∧ j' = .object m' ∧
    m.filter (fun e => !c.hiddenColumns.contains e.1) =
      m'.filter fun e => !c.hiddenColumns.contains e.1

def HasKey (j : Json) (key : String) : Prop := ∃ m, j = .object m ∧ key ∈ m.map Prod.fst

/-- No hidden field and no column of one is a key of the row. -/
def Clean (j : Json) : Prop :=
  ∀ field ∈ hiddenFields checker c.typeName, ¬ HasKey j field ∧ ¬ HasKey j (c.columnOf field)

/-- No visible field is called like the column of a hidden one. -/
def NamesApart : Prop :=
  ∀ field ∈ c.declared.map (fun f => f.name), field ∉ hiddenFields checker c.typeName →
    field ∉ c.hiddenColumns

/-- The stripping knows every hidden column by its name. -/
def ColumnsKnown : Prop := ∀ column ∈ c.hiddenColumns, column ∈ hiddenFields checker c.typeName

variable {c}

theorem withoutHidden_eq (m : List (String × Json)) :
    withoutHidden checker (some c.typeName) m = m.filter fun e => !c.isHidden e.1 := rfl

theorem nothing_hidden (h : nothingHidden checker = true) : hiddenFields checker c.typeName = [] := by
  have hdeclared := c.isDeclared
  unfold fieldAnnotationsFor at hdeclared
  obtain ⟨d, hd, -⟩ := Option.bind_eq_some_iff.mp hdeclared
  have hname : d.name = c.typeName := by simpa using List.find?_some hd
  have hall := List.all_eq_true.mp h d (List.mem_of_find?_eq_some hd)
  rw [hname] at hall
  exact List.isEmpty_iff.mp hall

theorem not_hidden_of_kept {m : List (String × Json)} {e : String × Json}
    (h : e ∈ withoutHidden checker (some c.typeName) m) :
    e.1 ∉ hiddenFields checker c.typeName := by
  intro hh
  rw [withoutHidden_eq, List.mem_filter, isHidden_iff.mpr hh] at h
  exact nomatch h.2

theorem withoutHidden_of_nothing (h : nothingHidden checker = true) (m : List (String × Json)) :
    withoutHidden checker (some c.typeName) m = m := by
  rw [withoutHidden_eq, List.filter_eq_self]
  intro e _
  rw [Bool.not_eq_true', Bool.eq_false_iff]
  intro hh
  rw [isHidden_iff, nothing_hidden h] at hh
  exact nomatch hh

/-- An object none of whose keys is hidden or a hidden column is clean. -/
theorem clean_object {m : List (String × Json)}
    (h : ∀ k ∈ m.map Prod.fst, k ∉ hiddenFields checker c.typeName ∧ k ∉ c.hiddenColumns) :
    Clean c (.object m) := by
  intro field hfield
  refine ⟨?_, ?_⟩
  · rintro ⟨m', heq, hmem⟩
    cases heq
    exact (h field hmem).1 hfield
  · rintro ⟨m', heq, hmem⟩
    cases heq
    exact (h _ hmem).2 (List.mem_map_of_mem hfield)

end

namespace Deployment

variable {w : Deployment} {c : Collection w.checker} {name : String}

theorem rowJson_alike {es es' : List (String × Value)} (h : shown c es = shown c es')
    (hkeys : ∀ e ∈ es, e.1 ∈ c.declared.map fun f => f.name) :
    AlikeJson c (w.rowJson es) (w.rowJson es') := by
  have hjson : ∀ es, w.rowJson es =
      .object (insertAll [] (es.map fun e => (e.1, valueToJson (simpleEnumNames w.checker) e.2))) := by
    intro es
    rw [rowJson, valueToJson, entriesToJson_eq_insertAll]
  have hfilter : ∀ es : List (String × Value),
      (es.map fun e => (e.1, valueToJson (simpleEnumNames w.checker) e.2)).filter
          (fun e => !c.isHidden e.1) =
        (shown c es).map fun e => (e.1, valueToJson (simpleEnumNames w.checker) e.2) := by
    intro es
    rw [List.filter_map]
    rfl
  refine ⟨_, _, hjson es, hjson es', ?_, ?_⟩
  · rw [withoutHidden_eq, withoutHidden_eq,
      filter_insertAll (fun k => !c.isHidden k) keysSorted_nil,
      filter_insertAll (fun k => !c.isHidden k) keysSorted_nil, hfilter, hfilter, h]
  · intro k hk
    rcases mem_keys_insertAll.mp hk with hk | hk
    · rw [List.map_map] at hk
      obtain ⟨e, he, rfl⟩ := List.mem_map.mp hk
      exact hkeys e he
    · exact nomatch hk

theorem oldRowJson_alike {row row' : StoredRow} (h : AlikeRow c row row') :
    AlikeOld c (w.oldRowJson row) (w.oldRowJson row') := by
  have hjson : ∀ row, w.oldRowJson row =
      .object (insertAll [] (row.map fun e => (e.1, w.cellJson e.2))) := by
    intro row
    rw [oldRowJson, insertAll, List.foldl_map]
  refine ⟨_, _, hjson row, hjson row', ?_⟩
  rw [filter_insertAll (fun k => !c.hiddenColumns.contains k) keysSorted_nil,
    filter_insertAll (fun k => !c.hiddenColumns.contains k) keysSorted_nil]
  apply congrArg (insertAll _)
  induction h with
  | nil => rfl
  | @cons e e' rest rest' he _ ih =>
      rw [List.map_cons, List.map_cons, List.filter_cons, List.filter_cons, ← he.1, ih]
      rcases he.2 with hh | hv
      · simp [hh]
      · rw [hv]

theorem stripHiddenRow_object (hc : w.collection name = some c) (m : List (String × Json)) :
    ∃ m', w.stripHiddenRow name (.object m) = .object m' ∧
      m'.map Prod.fst = (withoutHidden w.checker (some c.typeName) m).map Prod.fst := by
  unfold stripHiddenRow
  split
  · next hnone =>
    exact ⟨m, rfl, by rw [withoutHidden_of_nothing hnone]⟩
  · rw [hc]
    refine ⟨_, ?_, keys_stripHiddenStruct m (some c.typeName) c.fields⟩
    dsimp only
    rw [Collection.elemTy, stripHiddenJson]

/-- What a subscriber is given depends on nothing under a hidden key. -/
theorem stripHiddenRow_congr (hc : w.collection name = some c) {m m' : List (String × Json)}
    (h : withoutHidden w.checker (some c.typeName) m = withoutHidden w.checker (some c.typeName) m') :
    w.stripHiddenRow name (.object m) = w.stripHiddenRow name (.object m') := by
  unfold stripHiddenRow
  split
  · next hnone =>
    rw [withoutHidden_of_nothing hnone, withoutHidden_of_nothing hnone] at h
    rw [h]
  · rw [hc]
    dsimp only
    rw [Collection.elemTy, stripHiddenJson, stripHiddenJson, stripHiddenStruct_congr c.fields h]

theorem strip_alike (hc : w.collection name = some c) {j j' : Json} (h : AlikeJson c j j') :
    w.stripHiddenRow name j = w.stripHiddenRow name j' ∧
      (NamesApart c → Clean c (w.stripHiddenRow name j)) := by
  obtain ⟨m, m', rfl, rfl, hsame, hkeys⟩ := h
  refine ⟨stripHiddenRow_congr hc hsame, ?_⟩
  intro hapart
  obtain ⟨out, hout, hout_keys⟩ := stripHiddenRow_object hc m
  rw [hout]
  apply clean_object
  intro k hk
  rw [hout_keys] at hk
  obtain ⟨e, he, rfl⟩ := List.mem_map.mp hk
  have hvisible := not_hidden_of_kept he
  exact ⟨hvisible, hapart e.1 (hkeys e.1 (List.mem_map_of_mem (List.mem_of_mem_filter he))) hvisible⟩

theorem strip_old (hc : w.collection name = some c) (hknown : ColumnsKnown c) {j j' : Json}
    (h : AlikeOld c j j') :
    w.stripHiddenRow name j = w.stripHiddenRow name j' ∧ Clean c (w.stripHiddenRow name j) := by
  obtain ⟨m, m', rfl, rfl, hsame⟩ := h
  have hfine : ∀ m : List (String × Json), withoutHidden w.checker (some c.typeName) m =
      withoutHidden w.checker (some c.typeName)
        (m.filter fun e => !c.hiddenColumns.contains e.1) := by
    intro m
    rw [withoutHidden_eq, withoutHidden_eq, List.filter_filter]
    apply List.filter_congr
    intro e _
    by_cases hh : e.1 ∈ c.hiddenColumns
    · simp [isHidden_iff.mpr (hknown e.1 hh)]
    · simp [hh]
  refine ⟨stripHiddenRow_congr hc (by rw [hfine m, hfine m', hsame]), ?_⟩
  obtain ⟨out, hout, hkeys⟩ := stripHiddenRow_object hc m
  rw [hout]
  apply clean_object
  intro k hk
  rw [hkeys] at hk
  obtain ⟨e, he, rfl⟩ := List.mem_map.mp hk
  have hvisible := not_hidden_of_kept he
  exact ⟨hvisible, fun hh => hvisible (hknown e.1 hh)⟩

end Deployment

/-! ## Tables that agree outside the hidden columns -/

/-- Two answers that are errors both, or results that are related. -/
def AlikeResult {ε α : Type} (R : α → α → Prop) : Except ε α → Except ε α → Prop
  | .ok a, .ok b => R a b
  | .error _, .error _ => True
  | _, _ => False

namespace AlikeResult

variable {ε α β : Type} {R : α → α → Prop} {S : β → β → Prop}

theorem self (x : Except ε α) : AlikeResult (fun a b => a = b ∧ x = .ok a) x x := by
  cases x with
  | error e => trivial
  | ok a => exact ⟨rfl, rfl⟩

theorem bind {x y : Except ε α} {f g : α → Except ε β} (h : AlikeResult R x y)
    (hfg : ∀ a b, R a b → AlikeResult S (f a) (g b)) : AlikeResult S (x >>= f) (y >>= g) := by
  cases x with
  | error e =>
      cases y with
      | error e' => trivial
      | ok b => exact h.elim
  | ok a =>
      cases y with
      | error e' => exact h.elim
      | ok b => exact hfg a b h

/-- Results that are there together. -/
theorem of_isOk {x y : Except ε α} (hok : x.isOk = y.isOk)
    (h : ∀ a b, x = .ok a → y = .ok b → R a b) : AlikeResult R x y := by
  cases x with
  | error e =>
      cases y with
      | error e' => trivial
      | ok b => exact nomatch hok
  | ok a =>
      cases y with
      | error e' => exact nomatch hok
      | ok b => exact h a b rfl rfl

/-- What is there of two answers, an error counting as nothing. -/
theorem join {x y : Except ε (Option β)} (h : AlikeResult (Option.Rel S) x y) :
    Option.Rel S x.toOption.join y.toOption.join := by
  cases x with
  | error e =>
      cases y with
      | error e' => exact .none
      | ok b => exact h.elim
  | ok a =>
      cases y with
      | error e' => exact h.elim
      | ok b => exact h

end AlikeResult

namespace Deployment

variable (w : Deployment) (c : Collection w.checker)

/-- Two rows as they are read: they differ in hidden fields only. -/
def AlikeEntries (es es' : List (String × Value)) : Prop :=
  shown c es = shown c es' ∧ ∀ e ∈ es, e.1 ∈ c.declared.map fun f => f.name

/-- No hidden value decides whether the request sees the row or whether it can be read. -/
structure ReadAlike (claims : String → Except RuntimeError String) (row row' : StoredRow) : Prop where
  deleted : w.notDeleted c row = w.notDeleted c row'
  visible : ∀ visible, w.tenantCondition c claims = .ok visible → visible row = visible row'
  decodes : (w.readRow c row).isOk = (w.readRow c row').isOk

/-- So it is for the rows of an id. -/
def TouchedAlike (claims : String → Except RuntimeError String) (id : Cell) :
    List StoredRow → List StoredRow → Prop :=
  List.Forall₂ fun row row' => w.hasId c id row = true → w.ReadAlike c claims row row'

variable {w c} {claims : String → Except RuntimeError String} {row row' : StoredRow} {id : Cell}
  {table table' : List StoredRow}

theorem rowId_alike (h : AlikeRow c row row') : w.rowId c row = w.rowId c row' :=
  cellAt_alike h (columnOf_not_hidden c.idDeclared c.idVisible)

theorem hasId_alike (h : AlikeRow c row row') : w.hasId c id row = w.hasId c id row' := by
  have hid := rowId_alike h
  unfold rowId at hid
  unfold hasId
  rw [hid]

theorem readRows_alike {rows rows' : List StoredRow}
    (h : List.Forall₂ (fun row row' => AlikeRow c row row' ∧
      (w.readRow c row).isOk = (w.readRow c row').isOk) rows rows') :
    AlikeResult (List.Forall₂ (w.AlikeEntries c)) (rows.mapM (w.readRow c))
      (rows'.mapM (w.readRow c)) := by
  induction h with
  | nil => exact .nil
  | @cons row row' rest rest' hrow _ ih =>
      rw [List.mapM_cons, List.mapM_cons]
      apply AlikeResult.bind (.of_isOk hrow.2 fun _ _ => readRow_alike hrow.1)
      intro es es' hes
      apply ih.bind
      intro tail tail' htail
      exact List.Forall₂.cons hes htail

theorem selectById_alike (htable : List.Forall₂ (AlikeRow c) table table')
    (hread : w.TouchedAlike c claims id table table') :
    AlikeResult (Option.Rel (w.AlikeEntries c)) (w.selectById c claims table id)
      (w.selectById c claims table' id) := by
  unfold selectById
  apply (AlikeResult.self (w.tenantCondition c claims)).bind
  rintro visible _ ⟨rfl, hvisible⟩
  have hrows : List.Forall₂ (fun row row' => AlikeRow c row row' ∧
      (w.readRow c row).isOk = (w.readRow c row').isOk)
      (table.filter fun row => w.hasId c id row && visible row)
      (table'.filter fun row => w.hasId c id row && visible row) := by
    induction htable with
    | nil => exact .nil
    | @cons row row' rest rest' hrow _ ih =>
        rw [TouchedAlike, List.forall₂_cons] at hread
        rw [List.filter_cons, List.filter_cons, ← hasId_alike hrow]
        cases htouched : w.hasId c id row with
        | false => exact ih hread.2
        | true =>
            have hboth := hread.1 htouched
            rw [← hboth.visible visible hvisible]
            cases visible row with
            | false => exact ih hread.2
            | true => exact .cons ⟨hrow, hboth.decodes⟩ (ih hread.2)
  apply (readRows_alike hrows).bind
  intro es es' hes
  cases hes with
  | nil => exact Option.Rel.none
  | cons h _ => exact Option.Rel.some h

theorem filter_alike {p : StoredRow → Bool} {R : StoredRow → StoredRow → Prop}
    (h : List.Forall₂ R table table') (hp : ∀ row row', R row row' → p row = p row') :
    List.Forall₂ R (table.filter p) (table'.filter p) :=
  List.rel_filter (fun _ _ hrow => iff_of_eq (congrArg (· = true) (hp _ _ hrow))) h

theorem selectAll_alike (htable : List.Forall₂ (AlikeRow c) table table')
    (hread : List.Forall₂ (w.ReadAlike c claims) table table') :
    AlikeResult (List.Forall₂ (w.AlikeEntries c)) (w.selectAll c claims table)
      (w.selectAll c claims table') := by
  unfold selectAll
  apply (AlikeResult.self (w.tenantCondition c claims)).bind
  rintro visible _ ⟨rfl, hvisible⟩
  apply readRows_alike
  have hboth := htable.mp (fun _ _ => And.intro) hread
  refine (filter_alike hboth ?_).imp fun row row' h => ⟨h.1, h.2.decodes⟩
  intro row row' h
  rw [h.2.deleted, h.2.visible visible hvisible]

theorem sameId_alike {other other' : StoredRow} (h : AlikeRow c row row')
    (ho : AlikeRow c other other') : w.sameId c row other = w.sameId c row' other' := by
  unfold sameId
  rw [rowId_alike h]
  cases w.rowId c row' with
  | none => rfl
  | some id => exact hasId_alike ho

theorem forall_place {R : StoredRow → StoredRow → Prop} (h : AlikeRow c row row') (hR : R row row')
    (htable : List.Forall₂ (AlikeRow c) table table') (hall : List.Forall₂ R table table') :
    List.Forall₂ R (w.place c row table) (w.place c row' table') := by
  induction htable with
  | nil => exact .cons hR .nil
  | @cons other other' rest rest' ho hrest ih =>
      rw [List.forall₂_cons] at hall
      rw [place, place, sameId_alike h ho, rowId_alike h, rowId_alike ho]
      split
      · exact .cons hR hall.2
      · split
        · exact .cons hR (.cons hall.1 hall.2)
        · exact .cons hall.1 (ih hall.2)

theorem any_alike {p q : StoredRow → Bool} {R : StoredRow → StoredRow → Prop}
    (h : List.Forall₂ R table table') (hpq : ∀ row row', R row row' → p row = q row') :
    table.any p = table'.any q := by
  induction h with
  | nil => rfl
  | cons hrow _ ih => rw [List.any_cons, List.any_cons, hpq _ _ hrow, ih]

/-- The tables after a change, and what is published of it. -/
def AlikeOutcome (w : Deployment) (c : Collection w.checker)
    (out out' : List StoredRow × Option (List (String × Value))) : Prop :=
  List.Forall₂ (AlikeRow c) out.1 out'.1 ∧ Option.Rel (w.AlikeEntries c) out.2 out'.2

theorem setCell_alike (h : AlikeRow c row row') (column : String) (cell : Cell) :
    AlikeRow c (setCell row column cell) (setCell row' column cell) := by
  apply List.rel_map _ h
  intro e e' he
  dsimp only
  rw [← he.1]
  split
  · exact ⟨rfl, .inr rfl⟩
  · exact he

theorem erase_alike (now : I64) (htable : List.Forall₂ (AlikeRow c) table table')
    (hread : w.TouchedAlike c claims id table table') :
    AlikeOutcome w c (w.erase c claims id now table) (w.erase c claims id now table') := by
  have hselect := selectById_alike htable hread
  unfold erase
  cases hvisible : w.tenantCondition c claims with
  | error e => exact ⟨htable, .none⟩
  | ok visible =>
      cases hes : w.selectById c claims table id with
      | error e =>
          cases hes' : w.selectById c claims table' id with
          | error e' => exact ⟨htable, .none⟩
          | ok es' => rw [hes, hes'] at hselect; exact hselect.elim
      | ok es =>
          cases hes' : w.selectById c claims table' id with
          | error e' => rw [hes, hes'] at hselect; exact hselect.elim
          | ok es' =>
              rw [hes, hes'] at hselect
              have hall : List.Forall₂ (fun row row' => AlikeRow c row row' ∧
                  (w.hasId c id row && w.notDeleted c row && visible row) =
                    (w.hasId c id row' && w.notDeleted c row' && visible row')) table table' := by
                apply htable.mp _ hread
                intro row row' hrow htouched
                refine ⟨hrow, ?_⟩
                rw [← hasId_alike hrow]
                cases ht : w.hasId c id row with
                | false => rfl
                | true => rw [(htouched ht).deleted, (htouched ht).visible visible hvisible]
              dsimp only
              rw [← any_alike hall fun _ _ h => h.2]
              split
              · split
                · refine ⟨?_, hselect⟩
                  apply List.rel_map _ hall
                  intro row row' hrow
                  simp only [← hrow.2]
                  split
                  · exact setCell_alike hrow.1 _ _
                  · exact hrow.1
                · refine ⟨?_, hselect⟩
                  refine (filter_alike hall ?_).imp fun row row' h => h.1
                  intro row row' hrow
                  rw [← hrow.2]
              · exact ⟨htable, .none⟩

theorem write_alike (h : AlikeRow c row row') (hnew : w.ReadAlike c claims row row')
    (htable : List.Forall₂ (AlikeRow c) table table')
    (hread : ∀ id, w.rowId c row = some id → w.TouchedAlike c claims id table table') :
    AlikeOutcome w c (w.write c claims row table) (w.write c claims row' table') := by
  unfold write
  rw [← rowId_alike h]
  split
  case h_2 => exact ⟨htable, .none⟩
  case h_1 visible id hvisible hid =>
    have htouched := hread id hid
    have hblocked : (table.any fun other => w.hasId c id other && !visible other) =
        table'.any fun other => w.hasId c id other && !visible other := by
      apply any_alike (htable.mp (fun _ _ => And.intro) htouched)
      intro other other' ho
      rw [← hasId_alike ho.1]
      cases ht : w.hasId c id other with
      | false => rfl
      | true => rw [(ho.2 ht).visible visible hvisible]
    rw [← hblocked]
    dsimp only
    split
    · exact ⟨htable, (selectById_alike htable htouched).join⟩
    · have hplaced := forall_place (w := w) h h htable htable
      refine ⟨hplaced, (selectById_alike hplaced ?_).join⟩
      exact forall_place h (fun _ => hnew) htable htouched

end Deployment

end CScript.LiveEvents
