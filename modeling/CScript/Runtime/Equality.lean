import CScript.Runtime.Return

/-!
# Equality

`==` compares the entries of structs, variants and maps in the order in which they stand.
This agrees with comparing what a type declares exactly where two values that are the same
at the type also list their keys alike.
-/

namespace CScript

open Lib

/-! ## What `==` computes -/

namespace Value

mutual

/-- The value with the sign of every zero dropped. -/
def plain : Value → Value
  | .float x => .float x.plain
  | .vector xs => .vector (xs.map Binary.plain)
  | .struct fs => .struct (plainEntries fs)
  | .variant e v fs => .variant e v (plainEntries fs)
  | .list xs => .list (plainList xs)
  | .tuple xs => .tuple (plainList xs)
  | .boundMethod receiver method => .boundMethod (plain receiver) method
  | v => v

def plainList : List Value → List Value
  | [] => []
  | x :: xs => plain x :: plainList xs

def plainEntries : List (String × Value) → List (String × Value)
  | [] => []
  | (k, x) :: es => (k, plain x) :: plainEntries es

end

mutual

/-- No NaN and no closure inside. -/
def comparable : Value → Bool
  | .float x => x != .nan
  | .vector xs => xs.all (· != .nan)
  | .struct fs => comparableEntries fs
  | .variant _ _ fs => comparableEntries fs
  | .list xs => comparableList xs
  | .tuple xs => comparableList xs
  | .boundMethod receiver _ => comparable receiver
  | .closure _ _ _ => false
  | _ => true

def comparableList : List Value → Bool
  | [] => true
  | x :: xs => comparable x && comparableList xs

def comparableEntries : List (String × Value) → Bool
  | [] => true
  | (_, x) :: es => comparable x && comparableEntries es

end

theorem plainList_eq_map (xs : List Value) : plainList xs = xs.map plain := by
  induction xs with
  | nil => rfl
  | cons x xs ih => rw [plainList, ih, List.map_cons]

theorem plainEntries_eq_map (es : List (String × Value)) :
    plainEntries es = es.map (Prod.map id plain) := by
  induction es with
  | nil => rfl
  | cons e es ih => rw [plainEntries, ih, List.map_cons]; rfl

theorem feq_vector_iff {xs ys : List F32} :
    (xs.length == ys.length && (xs.zip ys).all fun p => p.1.feq p.2) = true ↔
      xs.all (· != .nan) = true ∧ xs.map Binary.plain = ys.map Binary.plain := by
  induction xs generalizing ys with
  | nil => cases ys <;> simp
  | cons x xs ih =>
      cases ys with
      | nil => simp
      | cons y ys =>
          have := @ih ys
          simp only [List.length_cons, List.zip_cons_cons, List.all_cons, List.map_cons,
            Bool.and_eq_true, beq_iff_eq, Nat.add_right_cancel_iff, List.cons.injEq,
            Binary.feq_iff, bne_iff_ne] at this ⊢
          tauto

mutual

/-- `==` finds two values equal when they are written alike and hold no NaN and no closure. -/
theorem veq_iff : ∀ v w : Value,
    veq v w = true ↔ v.comparable = true ∧ v.plain = w.plain := by
  intro v w
  cases v
  case struct es => cases w <;> simp [veq, comparable, plain, veqEntries_iff]
  case variant e n es =>
      cases w <;> simp [veq, comparable, plain, veqEntries_iff, and_assoc, and_left_comm]
  case list xs => cases w <;> simp [veq, comparable, plain, veqList_iff]
  case tuple xs => cases w <;> simp [veq, comparable, plain, veqList_iff]
  case vector xs =>
      cases w <;> simp only [veq, comparable, plain, feq_vector_iff, vector.injEq, reduceCtorEq,
        Bool.false_eq_true, and_false]
  case float x => cases w <;> simp [veq, comparable, plain, Binary.feq_iff]
  case boundMethod r m => cases w <;> simp [veq, comparable, plain, veq_iff r, and_assoc]
  all_goals cases w <;> simp [veq, comparable, plain]

theorem veqList_iff : ∀ xs ys : List Value,
    veqList xs ys = true ↔ comparableList xs = true ∧ plainList xs = plainList ys
  | [], [] | [], _ :: _ | _ :: _, [] => by simp [veqList, comparableList, plainList]
  | x :: xs, y :: ys => by
      simp only [veqList, comparableList, plainList, Bool.and_eq_true, List.cons.injEq,
        veq_iff x y, veqList_iff xs ys]
      tauto

theorem veqEntries_iff : ∀ es fs : List (String × Value),
    veqEntries es fs = true ↔ comparableEntries es = true ∧ plainEntries es = plainEntries fs
  | [], [] | [], _ :: _ | _ :: _, [] => by simp [veqEntries, comparableEntries, plainEntries]
  | (k, x) :: es, (l, y) :: fs => by
      simp only [veqEntries, comparableEntries, plainEntries, Bool.and_eq_true, List.cons.injEq,
        Prod.mk.injEq, beq_iff_eq, veq_iff x y, veqEntries_iff es fs]
      tauto

end

mutual

theorem comparable_plain : ∀ v : Value, v.plain.comparable = v.comparable := by
  intro v
  cases v
  case struct es => rw [plain, comparable, comparable, comparableEntries_plain]
  case variant e n es => rw [plain, comparable, comparable, comparableEntries_plain]
  case list xs => rw [plain, comparable, comparable, comparableList_plain]
  case tuple xs => rw [plain, comparable, comparable, comparableList_plain]
  case boundMethod r m => rw [plain, comparable, comparable, comparable_plain r]
  case float x => cases x <;> rfl
  case vector xs =>
      rw [plain, comparable, comparable, List.all_map]
      exact congrArg xs.all (funext fun x => by cases x <;> rfl)
  all_goals rfl

theorem comparableList_plain : ∀ xs : List Value,
    comparableList (plainList xs) = comparableList xs
  | [] => rfl
  | x :: xs => by
      rw [plainList, comparableList, comparableList, comparable_plain x, comparableList_plain xs]

theorem comparableEntries_plain : ∀ es : List (String × Value),
    comparableEntries (plainEntries es) = comparableEntries es
  | [] => rfl
  | (k, x) :: es => by
      rw [plainEntries, comparableEntries, comparableEntries, comparable_plain x,
        comparableEntries_plain es]

end

end Value

/-! ## What a type declares -/

/-- The type of the item at an index of a list or a tuple. -/
def Ty.itemTy : Ty → Nat → Ty
  | .list inner, _ => inner
  | .tuple tys, i => tys.getD i .dynamic
  | _, _ => .dynamic

section

variable (checker : Checker)

/-- The type that a struct or map type declares for a key, if it declares it. -/
def Checker.entryTy : Ty → String → Option Ty
  | .mapOf _ valTy, _ => some valTy
  | .struct _ fields, name => (fieldNamed fields name).map fun f => f.ty
  | .patchOf (.struct _ fields), name => (fieldNamed fields name).map fun f => f.ty
  | .generic base args, name =>
      match checker.expandGenericStruct base args with
      | .ok fields => (fieldNamed fields name).map fun f => f.ty
      | .error _ => some .dynamic
  | _, _ => some .dynamic

/-- The type that an enum type declares for a key of a variant. -/
def Checker.variantEntryTy (ty : Ty) (enumName variant name : String) : Option Ty :=
  match checker.variantFieldTypes ty enumName variant with
  | .ok fields => fields.lookup name
  | .error _ => some .dynamic

/-- The entries that no reading of a declared key finds: undeclared ones, and those behind
another entry of their key. -/
def unread (declared : String → Bool) : List (String × Value) → List (String × Value)
  | [] => []
  | (k, v) :: es =>
      if declared k then unread (fun n => n != k && declared n) es
      else (k, v) :: unread declared es

/-- `v` and `w` have the same value of every field, item and map key that the type declares.
A value of a union is compared at each member that it has the shape of. -/
def Same (ty : Ty) (v w : Value) : Prop :=
  match ty with
  | .optional inner => Same inner v w
  | .union members =>
      (∀ m ∈ members, valueMatchesType checker v m = valueMatchesType checker w m) ∧
      (∀ m, m ∈ members → valueMatchesType checker v m = true → Same m v w) ∧
      ((∀ m ∈ members, valueMatchesType checker v m = false) → v.plain = w.plain)
  | ty =>
      match v, w with
      | .list xs, .list ys =>
          xs.length = ys.length ∧
            ∀ i, (hx : i < xs.length) → (hy : i < ys.length) → Same (ty.itemTy i) xs[i] ys[i]
      | .tuple xs, .tuple ys =>
          xs.length = ys.length ∧
            ∀ i, (hx : i < xs.length) → (hy : i < ys.length) → Same (ty.itemTy i) xs[i] ys[i]
      | .struct es, .struct fs =>
          ∀ name t, checker.entryTy ty name = some t →
            (entryNamed es name).isSome = (entryNamed fs name).isSome ∧
            ∀ a b, entryNamed es name = some a → entryNamed fs name = some b → Same t a b
      | .variant e n es, .variant e' n' fs =>
          e = e' ∧ n = n' ∧
            ∀ name t, checker.variantEntryTy ty e n name = some t →
              (entryNamed es name).isSome = (entryNamed fs name).isSome ∧
              ∀ a b, entryNamed es name = some a → entryNamed fs name = some b → Same t a b
      | v, w => v.plain = w.plain
termination_by (sizeOf v, sizeOf ty)
decreasing_by
  all_goals simp_wf
  all_goals first
    | omega
    | (have hlt := List.sizeOf_lt_of_mem ‹_ ∈ _›; omega)
    | (have hlt := List.sizeOf_get xs ⟨i, hx⟩; simp only [List.get_eq_getElem] at hlt; omega)
    | (have hlt := sizeOf_entry_lt (mem_of_entryNamed ‹entryNamed es name = some a›); omega)

/-- The structs, variants and maps that the type reaches list their keys alike, and what no
reading finds there is written alike. -/
def LaidOut (ty : Ty) (v w : Value) : Prop :=
  match ty with
  | .optional inner => LaidOut inner v w
  | .union members =>
      ∀ m, m ∈ members → valueMatchesType checker v m = true → LaidOut m v w
  | ty =>
      match v, w with
      | .list xs, .list ys =>
          ∀ i, (hx : i < xs.length) → (hy : i < ys.length) → LaidOut (ty.itemTy i) xs[i] ys[i]
      | .tuple xs, .tuple ys =>
          ∀ i, (hx : i < xs.length) → (hy : i < ys.length) → LaidOut (ty.itemTy i) xs[i] ys[i]
      | .struct es, .struct fs =>
          es.map Prod.fst = fs.map Prod.fst ∧
          Value.plainEntries (unread (fun n => (checker.entryTy ty n).isSome) es) =
            Value.plainEntries (unread (fun n => (checker.entryTy ty n).isSome) fs) ∧
          ∀ name t, checker.entryTy ty name = some t →
            ∀ a b, entryNamed es name = some a → entryNamed fs name = some b → LaidOut t a b
      | .variant e n es, .variant _ _ fs =>
          es.map Prod.fst = fs.map Prod.fst ∧
          Value.plainEntries (unread (fun k => (checker.variantEntryTy ty e n k).isSome) es) =
            Value.plainEntries (unread (fun k => (checker.variantEntryTy ty e n k).isSome) fs) ∧
          ∀ name t, checker.variantEntryTy ty e n name = some t →
            ∀ a b, entryNamed es name = some a → entryNamed fs name = some b → LaidOut t a b
      | _, _ => True
termination_by (sizeOf v, sizeOf ty)
decreasing_by
  all_goals simp_wf
  all_goals first
    | omega
    | (have hlt := List.sizeOf_lt_of_mem ‹_ ∈ _›; omega)
    | (have hlt := List.sizeOf_get xs ⟨i, hx⟩; simp only [List.get_eq_getElem] at hlt; omega)
    | (have hlt := sizeOf_entry_lt (mem_of_entryNamed ‹entryNamed es name = some a›); omega)

end

section

variable {checker : Checker}

theorem keys_plain (es : List (String × Value)) :
    (Value.plainEntries es).map Prod.fst = es.map Prod.fst := by
  rw [Value.plainEntries_eq_map, List.map_map]
  rfl

theorem entryNamed_plain (es : List (String × Value)) (name : String) :
    entryNamed (Value.plainEntries es) name = (entryNamed es name).map Value.plain := by
  induction es with
  | nil => rfl
  | cons e es ih =>
      obtain ⟨k, v⟩ := e
      rw [Value.plainEntries, entryNamed_cons, entryNamed_cons, ih]
      split <;> rfl

theorem unread_plain (declared : String → Bool) (es : List (String × Value)) :
    Value.plainEntries (unread declared es) = unread declared (Value.plainEntries es) := by
  induction es generalizing declared with
  | nil => rfl
  | cons e es ih =>
      obtain ⟨k, v⟩ := e
      rw [Value.plainEntries, unread, unread]
      split
      · exact ih _
      · rw [Value.plainEntries, ih]

/-- Entries are written alike when their keys stand in the same order, each declared key is
read alike, and the unread entries are written alike. -/
theorem plainEntries_iff (declared : String → Bool) (es fs : List (String × Value)) :
    Value.plainEntries es = Value.plainEntries fs ↔
      es.map Prod.fst = fs.map Prod.fst ∧
      Value.plainEntries (unread declared es) = Value.plainEntries (unread declared fs) ∧
      ∀ name, declared name = true →
        (entryNamed es name).map Value.plain = (entryNamed fs name).map Value.plain := by
  constructor
  · intro h
    refine ⟨?_, by rw [unread_plain, unread_plain, h], fun name _ => ?_⟩
    · rw [← keys_plain es, h, keys_plain]
    · rw [← entryNamed_plain, ← entryNamed_plain, h]
  · induction es generalizing declared fs with
    | nil =>
        rintro ⟨keys, -, -⟩
        cases fs with
        | nil => rfl
        | cons f fs => cases keys
    | cons e es ih =>
        rintro ⟨keys, rest, reads⟩
        cases fs with
        | nil => cases keys
        | cons f fs =>
            obtain ⟨k, v⟩ := e
            obtain ⟨l, w⟩ := f
            simp only [List.map_cons, List.cons.injEq] at keys
            obtain ⟨rfl, keys⟩ := keys
            have tail {n : String} (hne : k ≠ n) (hn : declared n = true) :
                (entryNamed es n).map Value.plain = (entryNamed fs n).map Value.plain := by
              have := reads n hn
              rwa [entryNamed_cons, entryNamed_cons, if_neg hne, if_neg hne] at this
            rw [unread, unread] at rest
            rw [Value.plainEntries, Value.plainEntries]
            by_cases hk : declared k = true
            · rw [if_pos hk, if_pos hk] at rest
              have head := reads k hk
              rw [entryNamed_cons, entryNamed_cons, if_pos rfl, if_pos rfl] at head
              rw [Option.some.inj head, ih _ fs ⟨keys, rest, fun n hn => ?_⟩]
              simp only [Bool.and_eq_true, bne_iff_ne] at hn
              exact tail (Ne.symm hn.1) hn.2
            · rw [if_neg hk, if_neg hk, Value.plainEntries, Value.plainEntries,
                List.cons.injEq, Prod.mk.injEq] at rest
              rw [rest.1.2, ih _ fs ⟨keys, rest.2, fun n hn => ?_⟩]
              exact tail (fun heq => hk (heq ▸ hn)) hn

theorem structMatchesFields_plain {es : List (String × Value)} {fields : List FieldType}
    (ih : ∀ v ty, (∃ name, (name, v) ∈ es) →
      valueMatchesType checker v.plain ty = valueMatchesType checker v ty) :
    structMatchesFields checker (Value.plainEntries es) fields =
      structMatchesFields checker es fields := by
  rw [Bool.eq_iff_iff, structMatchesFields_iff, structMatchesFields_iff]
  refine forall₂_congr fun f _ => ?_
  rw [entryNamed_plain]
  cases h : entryNamed es f.name with
  | none => simp
  | some v => simp [ih v f.ty ⟨f.name, mem_of_entryNamed h⟩]

/-- Values that are written alike have the same shapes. -/
theorem valueMatchesType_plain (v : Value) (ty : Ty) :
    valueMatchesType checker v.plain ty = valueMatchesType checker v ty := by
  have entries {es : List (String × Value)} (hes : sizeOf es < sizeOf v) (u : Value) (t : Ty)
      (hu : ∃ name, (name, u) ∈ es) :
      valueMatchesType checker u.plain t = valueMatchesType checker u t := by
    obtain ⟨name, hu⟩ := hu
    have := sizeOf_entry_lt hu
    exact valueMatchesType_plain u t
  have items {xs : List Value} (hxs : sizeOf xs < sizeOf v) (u : Value) (t : Ty) (hu : u ∈ xs) :
      valueMatchesType checker u.plain t = valueMatchesType checker u t := by
    have := List.sizeOf_lt_of_mem hu
    exact valueMatchesType_plain u t
  cases ty with
  | optional inner =>
      rw [Bool.eq_iff_iff, matches_optional, matches_optional, valueMatchesType_plain v inner]
      cases v <;> simp [Value.plain]
  | union members =>
      rw [Bool.eq_iff_iff, matches_union, matches_union]
      refine exists_congr fun m => and_congr_right fun hm => ?_
      have := List.sizeOf_lt_of_mem hm
      rw [valueMatchesType_plain v m]
  | list inner =>
      cases v with
      | list xs =>
          rw [Value.plain, Bool.eq_iff_iff, matches_list, matches_list, Value.plainList_eq_map]
          simp only [Value.list.injEq, exists_eq_left', List.forall_mem_map]
          exact forall₂_congr fun x hx => by rw [items (by simp) x inner hx]
      | _ => simp [Value.plain, valueMatchesType]
  | tuple tys =>
      cases v with
      | tuple xs =>
          rw [Value.plain, Bool.eq_iff_iff, matches_tuple, matches_tuple, Value.plainList_eq_map]
          simp only [Value.tuple.injEq, exists_eq_left', List.length_map, List.zip_map_left,
            List.forall_mem_map, Prod.map_fst, Prod.map_snd, id_eq]
          exact and_congr_right fun _ => forall₂_congr fun p hp => by
            rw [items (by simp) p.1 p.2 (List.of_mem_zip hp).1]
      | _ => simp [Value.plain, valueMatchesType]
  | mapOf k t =>
      cases v with
      | struct es =>
          rw [Value.plain, Bool.eq_iff_iff, matches_mapOf, matches_mapOf,
            Value.plainEntries_eq_map]
          simp only [Value.struct.injEq, exists_eq_left', List.forall_mem_map, Prod.map_snd]
          exact forall₂_congr fun e he => by rw [entries (by simp) e.2 t ⟨e.1, he⟩]
      | _ => simp [Value.plain, valueMatchesType]
  | struct n fields =>
      cases v with
      | struct es =>
          rw [Value.plain, Bool.eq_iff_iff, matches_struct, matches_struct]
          simp only [Value.struct.injEq, exists_eq_left']
          rw [structMatchesFields_plain (entries (by simp))]
      | _ => simp [Value.plain, valueMatchesType]
  | generic name args =>
      cases hexp : checker.expandGenericStruct name args with
      | error e =>
          rw [Bool.eq_iff_iff, matches_generic_enum hexp, matches_generic_enum hexp]
          cases v <;> simp [Value.plain]
      | ok fields =>
          rw [Bool.eq_iff_iff, matches_generic_struct hexp, matches_generic_struct hexp]
          cases v with
          | struct es =>
              simp only [Value.plain, Value.struct.injEq, exists_eq_left']
              rw [structMatchesFields_plain (entries (by simp))]
          | _ => simp [Value.plain]
  | patchOf inner =>
      cases v with
      | struct es =>
          rw [Value.plain, Bool.eq_iff_iff, matches_patchOf, matches_patchOf,
            Value.plainEntries_eq_map]
          have each {fields : List FieldType} :
              (∀ e ∈ es.map (Prod.map id Value.plain), ∃ f, fieldNamed fields e.1 = some f ∧
                valueMatchesType checker e.2 f.ty = true) ↔
              ∀ e ∈ es, ∃ f, fieldNamed fields e.1 = some f ∧
                valueMatchesType checker e.2 f.ty = true := by
            simp only [List.forall_mem_map, Prod.map_fst, Prod.map_snd, id_eq]
            exact forall₂_congr fun e he => exists_congr fun f => and_congr_right fun _ => by
              rw [entries (by simp) e.2 f.ty ⟨e.1, he⟩]
          constructor
          · rintro ⟨_, n, fields, heq, rfl, h⟩
            cases heq
            exact ⟨es, n, fields, rfl, rfl, each.mp h⟩
          · rintro ⟨_, n, fields, heq, rfl, h⟩
            cases heq
            exact ⟨_, n, fields, rfl, rfl, each.mpr h⟩
      | _ => cases inner <;> simp [Value.plain, valueMatchesType]
  | _ => cases v <;> simp [Value.plain, valueMatchesType]
termination_by (sizeOf v, sizeOf ty)

theorem plainList_iff {xs ys : List Value} {P Q : Nat → Value → Value → Prop}
    (ih : ∀ i, (hx : i < xs.length) → (hy : i < ys.length) →
      (xs[i].plain = ys[i].plain ↔ P i xs[i] ys[i] ∧ Q i xs[i] ys[i])) :
    Value.plainList xs = Value.plainList ys ↔
      (xs.length = ys.length ∧
        ∀ i, (hx : i < xs.length) → (hy : i < ys.length) → P i xs[i] ys[i]) ∧
      ∀ i, (hx : i < xs.length) → (hy : i < ys.length) → Q i xs[i] ys[i] := by
  rw [Value.plainList_eq_map, Value.plainList_eq_map, List.ext_getElem_iff, and_assoc]
  simp only [List.length_map, List.getElem_map]
  refine and_congr_right fun _ => ?_
  constructor
  · intro h
    exact ⟨fun i hx hy => ((ih i hx hy).mp (h i hx hy)).1,
      fun i hx hy => ((ih i hx hy).mp (h i hx hy)).2⟩
  · rintro ⟨p, q⟩ i hx hy
    exact (ih i hx hy).mpr ⟨p i hx hy, q i hx hy⟩

theorem plainEntries_read_iff {es fs : List (String × Value)} (read : String → Option Ty)
    {P Q : Ty → Value → Value → Prop}
    (ih : ∀ name t a b, entryNamed es name = some a → (a.plain = b.plain ↔ P t a b ∧ Q t a b)) :
    Value.plainEntries es = Value.plainEntries fs ↔
      (∀ name t, read name = some t →
        (entryNamed es name).isSome = (entryNamed fs name).isSome ∧
        ∀ a b, entryNamed es name = some a → entryNamed fs name = some b → P t a b) ∧
      es.map Prod.fst = fs.map Prod.fst ∧
      Value.plainEntries (unread (fun n => (read n).isSome) es) =
        Value.plainEntries (unread (fun n => (read n).isSome) fs) ∧
      ∀ name t, read name = some t →
        ∀ a b, entryNamed es name = some a → entryNamed fs name = some b → Q t a b := by
  rw [plainEntries_iff fun n => (read n).isSome]
  constructor
  · rintro ⟨keys, rest, reads⟩
    have at' {name : String} {t : Ty} (ht : read name = some t) :
        (entryNamed es name).map Value.plain = (entryNamed fs name).map Value.plain :=
      reads name (by rw [ht]; rfl)
    have both {name : String} {t : Ty} (ht : read name = some t) {a b : Value}
        (ha : entryNamed es name = some a) (hb : entryNamed fs name = some b) :
        P t a b ∧ Q t a b := by
      have := at' ht
      rw [ha, hb] at this
      exact (ih name t a b ha).mp (Option.some.inj this)
    refine ⟨fun name t ht => ⟨?_, fun a b ha hb => (both ht ha hb).1⟩, keys, rest,
      fun name t ht a b ha hb => (both ht ha hb).2⟩
    simpa using congrArg Option.isSome (at' ht)
  · rintro ⟨same, keys, rest, laid⟩
    refine ⟨keys, rest, fun name hname => ?_⟩
    obtain ⟨t, ht⟩ := Option.isSome_iff_exists.mp hname
    obtain ⟨present, equal⟩ := same name t ht
    cases ha : entryNamed es name with
    | none =>
        rw [ha, Option.isSome_none, eq_comm, Option.isSome_eq_false_iff,
          Option.isNone_iff_eq_none] at present
        rw [present]
    | some a =>
        rw [ha, Option.isSome_some, eq_comm, Option.isSome_iff_exists] at present
        obtain ⟨b, hb⟩ := present
        rw [hb, Option.map_some, Option.map_some,
          (ih name t a b ha).mpr ⟨equal a b ha hb, laid name t ht a b ha hb⟩]

/-- Two values are written alike when they are the same at a type and laid out alike there. -/
theorem plain_eq_iff (ty : Ty) (v w : Value) :
    v.plain = w.plain ↔ Same checker ty v w ∧ LaidOut checker ty v w := by
  fun_induction Same checker ty v w with
  | case1 v w inner ih => rw [LaidOut]; exact ih
  | case2 v w members ih =>
      rw [LaidOut]
      constructor
      · intro h
        refine ⟨⟨fun m _ => ?_, fun m hm _ => ((ih m hm).mp h).1, fun _ => h⟩,
          fun m hm _ => ((ih m hm).mp h).2⟩
        rw [← valueMatchesType_plain v m, h, valueMatchesType_plain]
      · rintro ⟨⟨-, same, none⟩, laid⟩
        by_cases some : ∃ m ∈ members, valueMatchesType checker v m = true
        · obtain ⟨m, hm, hv⟩ := some
          exact (ih m hm).mpr ⟨same m hm hv, laid m hm hv⟩
        · exact none fun m hm => Bool.eq_false_iff.mpr fun hv => some ⟨m, hm, hv⟩
  | case3 ty hopt hunion xs ys ih =>
      rw [LaidOut.eq_3 _ _ _ _ hopt hunion, Value.plain, Value.plain, Value.list.injEq]
      exact plainList_iff ih
  | case4 ty hopt hunion xs ys ih =>
      rw [LaidOut, Value.plain, Value.plain, Value.tuple.injEq]
      · exact plainList_iff ih
      all_goals assumption
  | case5 ty hopt hunion es fs ih =>
      rw [LaidOut, Value.plain, Value.plain, Value.struct.injEq]
      · exact plainEntries_read_iff _ ih
      all_goals assumption
  | case6 ty hopt hunion e n es e' n' fs ih =>
      rw [LaidOut, Value.plain, Value.plain, Value.variant.injEq,
        plainEntries_read_iff (checker.variantEntryTy ty e n) ih]
      · tauto
      all_goals assumption
  | case7 ty hopt hunion v w =>
      rw [LaidOut]
      · simp
      all_goals assumption

/-- What a `==` and a `!=` of two values are said to do at a type. -/
def Extensional (checker : Checker) (ty : Ty) (v w : Value) : Prop :=
  applyBinary .eq v w = .ok (.bool true) ↔ Same checker ty v w

/-- `==` compares what a type declares exactly where two values that are the same at the type
hold no NaN and no closure and are laid out alike. `!=` is its negation; it is symmetric and
transitive, and reflexive on the values without NaN and closure. -/
theorem equality_extensional_iff (checker : Checker) (ty : Ty) (v w : Value) :
    (Extensional checker ty v w ↔
      (Same checker ty v w → v.comparable = true ∧ LaidOut checker ty v w)) ∧
    (∃ b, applyBinary .eq v w = .ok (.bool b) ∧ applyBinary .notEq v w = .ok (.bool !b)) ∧
    (applyBinary .eq v v = .ok (.bool true) ↔ v.comparable = true) ∧
    (applyBinary .eq v w = .ok (.bool true) → applyBinary .eq w v = .ok (.bool true)) ∧
    ∀ u, applyBinary .eq v w = .ok (.bool true) → applyBinary .eq w u = .ok (.bool true) →
      applyBinary .eq v u = .ok (.bool true) := by
  have verdict (a b : Value) : applyBinary .eq a b = .ok (.bool true) ↔
      a.comparable = true ∧ a.plain = b.plain := by
    rw [← Value.veq_iff]
    simp [applyBinary]
  refine ⟨?_, ⟨v.veq w, rfl, rfl⟩, ?_, ?_, fun u => ?_⟩
  · rw [Extensional, verdict, @plain_eq_iff checker ty]
    tauto
  · rw [verdict]
    exact and_iff_left rfl
  · rw [verdict, verdict]
    rintro ⟨hv, h⟩
    exact ⟨by rwa [← Value.comparable_plain, ← h, Value.comparable_plain], h.symm⟩
  · simp only [verdict]
    rintro ⟨hv, h⟩ ⟨-, h'⟩
    exact ⟨hv, h.trans h'⟩

end

/-! ## Two orders of the same fields -/

/-- `type P = { a: Int, b: Int }`. -/
def pairDecl : TypeDecl where
  name := "P"
  typeParams := []
  ty := .struct [⟨"a", false, .named "Int" [], []⟩, ⟨"b", false, .named "Int" [], []⟩]
  annotations := []

def pairTy : Ty := .struct (some "P") [⟨"a", false, .int⟩, ⟨"b", false, .int⟩]

/-- `fn f() -> Bool { P { a: 1, b: 2 } == P { b: 2, a: 1 } }`. -/
def twoOrders : FnDecl where
  name := "f"
  params := []
  returnType := .named "Bool" []
  body := .mk [] (some (.binary .eq
    (.structLit "P" none [("a", .int ⟨1, inRange_one⟩), ("b", .int ⟨2, inRange_two⟩)])
    (.structLit "P" none [("b", .int ⟨2, inRange_two⟩), ("a", .int ⟨1, inRange_one⟩)])))

/-- The fields of the first literal. -/
def inOrder : List (String × Value) :=
  [("a", .int ⟨1, inRange_one⟩), ("b", .int ⟨2, inRange_two⟩)]

def pairProgram : Program := ⟨[.type pairDecl [], .fn twoOrders]⟩

def pairChecker : Checker := Checker.prelude.addType pairDecl

def pairSymbols : Symbols :=
  ⟨pairChecker, [], [("f", [], .bool)], [], [], [], []⟩

theorem resolveType_pair : pairChecker.resolveType (.named "P" []) = .ok pairTy := by
  have decl : pairChecker.typeDecl "P" = some pairDecl := rfl
  have length : pairChecker.types.length = 4 := rfl
  simp [Checker.resolveType, Checker.resolveTypeSubst, Checker.resolveNamedTypeSubst, decl, length,
    pairDecl, pairTy, bind, Except.bind, pure, Except.pure]

theorem pair_symbols : buildSymbols plainParts.validElement pairProgram = (pairSymbols, []) := by
  have types : declarePass Symbols.declareType pairProgram.items
      ⟨.prelude, [], [], [], [], [], []⟩ = (⟨pairChecker, [], [], [], [], [], []⟩, []) := rfl
  rw [buildSymbols, types]
  simp [pairProgram, declarePass, pairSymbols, Symbols.declareFn, Symbols.declareConst,
    Symbols.declareCollections, Symbols.declareService, Item.collections, twoOrders,
    Symbols.fnSignature, Symbols.resolveSignature, resolveType_bool, bind, Except.bind, pure,
    Except.pure]

theorem literal_pair (given : List String) :
    structLitPlan pairSymbols .synth "P" none given =
      .ok (.declared [⟨"a", false, .int⟩, ⟨"b", false, .int⟩] pairTy) := by
  have decl : pairSymbols.checker.typeDecl "P" = some pairDecl := rfl
  have resolved : pairSymbols.checker.resolveType (.named "P" []) = .ok pairTy := resolveType_pair
  have generic : isUserGeneric pairSymbols "P" = false := rfl
  have required (name : String) : pairSymbols.fieldDefault "P" none name = none := rfl
  simp [structLitPlan, structLitDecl, literalFields, decl, resolved, generic, required, pairDecl,
    resolveType_int, bind, Except.bind, pure, Except.pure]

theorem pairProgram_accepted : Accepted plainParts pairProgram := by
  have plain : typeContainsFunction pairTy = false := rfl
  rw [Accepted, checkProgram, pair_symbols]
  simp [pairProgram, checkItem, checkFn, bindParams, pairDecl, checkFieldDefaults, twoOrders,
    typeBlock, typeStmts, typeExpr, Mode.conclude, Mode.isSynth, literal_pair, checkFields,
    checkComplete, binaryTy, plain, resolveType_bool, isSubtype_refl, plainParts, bind, Except.bind,
    pure, Except.pure]

/-- `P { a: 1, b: 2 }` and `P { b: 2, a: 1 }` are the same at `P`, and `==` tells them apart. -/
theorem field_order_matters :
    Accepted plainParts pairProgram ∧
      (runBody (pairProgram.world plainParts noRegex noHost) .block 4 ([], twoOrders.body) []
        noRun).1 = .value (.bool false) ∧
      ¬ Extensional pairChecker pairTy (.struct inOrder) (.struct inOrder.reverse) := by
  refine ⟨pairProgram_accepted, ?_, fun h => ?_⟩
  · rw [Program.world, pair_symbols]
    rfl
  · have same : Same pairChecker pairTy (.struct inOrder) (.struct inOrder.reverse) := by
      rw [pairTy, Same]
      · intro name t ht
        have key : name = "a" ∨ name = "b" := by
          rw [Checker.entryTy, Option.map_eq_some_iff] at ht
          obtain ⟨f, hf, -⟩ := ht
          have mem := mem_of_fieldNamed hf
          rw [← name_of_fieldNamed hf]
          simp only [List.mem_cons, List.not_mem_nil, or_false] at mem
          rcases mem with rfl | rfl <;> simp
        rcases key with rfl | rfl
        all_goals
          refine ⟨rfl, fun a b ha hb => ?_⟩
          cases ha
          cases hb
          exact ((plain_eq_iff t _ _).mp rfl).1
      all_goals simp
    have verdict : (Value.struct inOrder).veq (.struct inOrder.reverse) = true := by
      simpa [applyBinary] using h.mpr same
    exact absurd verdict (by decide)

end CScript
