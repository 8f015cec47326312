import CScript.Lib.FloatText
import CScript.Lib.Sequence
import CScript.Runtime.Timestamp
import CScript.Runtime.Value
import CScript.Runtime.Formats
import Mathlib.Data.String.Basic

/-!
# JSON and the encoding of values

`serde_json::Value`: numbers are unsigned, negative or floating, and an object is an ordered
map by key. The encoder is untyped; only the names of the enums without fields direct it.
-/

namespace CScript

open Lib

inductive JsonNumber where
  | posInt (n : Nat) (h : n < 2 ^ 64)
  | negInt (n : I64) (h : n.toInt < 0)
  | float (x : F64) (h : x.isFinite = true)
deriving DecidableEq

namespace JsonNumber

/-- The number of an `i64`. -/
def ofI64 (n : I64) : JsonNumber :=
  if h : n.toInt < 0 then .negInt n h
  else .posInt n.toInt.toNat (by
    have := n.inRange
    unfold InRange at this
    omega)

def asI64 : JsonNumber → Option I64
  | .posInt n _ => SInt.ofInt? 64 n
  | .negInt n _ => some n
  | .float _ _ => none

def asF64 : JsonNumber → F64
  | .posInt n _ => Binary.ofInt binary64 n
  | .negInt n _ => Binary.ofInt binary64 n.toInt
  | .float x _ => x

theorem asI64_ofI64 (n : I64) : (ofI64 n).asI64 = some n := by
  unfold ofI64
  split
  · rfl
  · next h =>
    have hback : (n.toInt.toNat : Int) = n.toInt := by omega
    rw [asI64, hback]
    exact SInt.ofInt?_toInt n

end JsonNumber

/-- The entries of an object are in key order, each key once: `insertKey` keeps them so. -/
inductive Json where
  | null
  | bool (b : Bool)
  | number (n : JsonNumber)
  | string (s : String)
  | array (items : List Json)
  | object (entries : List (String × Json))

namespace Json

def asI64 : Json → Option I64
  | .number n => n.asI64
  | _ => none

def asF64 : Json → Option F64
  | .number n => some n.asF64
  | _ => none

def asStr : Json → Option String
  | .string s => some s
  | _ => none

def asBool : Json → Option Bool
  | .bool b => some b
  | _ => none

def asArray : Json → Option (List Json)
  | .array items => some items
  | _ => none

def asObject : Json → Option (List (String × Json))
  | .object entries => some entries
  | _ => none

def isNull : Json → Bool
  | .null => true
  | _ => false

/-- A float; what is not finite has no number and becomes null. -/
def ofF64 (x : F64) : Json :=
  if h : x.isFinite = true then .number (.float x h) else .null

end Json

/-- `Map::get`. -/
def jsonGet (entries : List (String × Json)) (key : String) : Option Json :=
  (entries.find? fun e => e.1 == key).map Prod.snd

/-- `Map::insert`: the key keeps its place in the order, with the new value. -/
def insertKey (key : String) (j : Json) : List (String × Json) → List (String × Json)
  | [] => [(key, j)]
  | e :: rest =>
      if key < e.1 then (key, j) :: e :: rest
      else if key = e.1 then (key, j) :: rest
      else e :: insertKey key j rest

theorem jsonGet_insertKey (key other : String) (j : Json) (entries : List (String × Json)) :
    jsonGet (insertKey key j entries) other =
      if key = other then some j else jsonGet entries other := by
  induction entries with
  | nil => by_cases h : key = other <;> simp [insertKey, jsonGet, h]
  | cons e rest ih =>
      unfold jsonGet at ih ⊢
      unfold insertKey
      split
      · by_cases h : key = other <;> simp [h]
      · split
        · next hkey =>
          subst hkey
          by_cases h : e.1 = other <;> simp [h]
        · next hne =>
          by_cases h : e.1 = other
          · have hkey : ¬ key = other := fun heq => hne (heq.trans h.symm)
            simp [h, hkey]
          · have hbeq : (e.1 == other) = false := beq_eq_false_iff_ne.2 h
            rw [List.find?_cons, hbeq, ih, List.find?_cons, hbeq]

theorem sizeOf_jsonGet_lt {entries : List (String × Json)} {key : String} {j : Json}
    (h : jsonGet entries key = some j) : sizeOf j < sizeOf entries := by
  unfold jsonGet at h
  obtain ⟨e, hfind, rfl⟩ := Option.map_eq_some_iff.1 h
  have hlt := List.sizeOf_lt_of_mem (List.mem_of_find?_eq_some hfind)
  cases e
  simp only [Prod.mk.sizeOf_spec] at hlt ⊢
  omega

/-- Are all the variants of this declared enum without fields? -/
def allUnit (checker : Checker) (enumName : String) : Bool :=
  match checker.enumDecl enumName with
  | some e => e.variants.all fun v => v.fields.isNone
  | none => false

/-- `simple_enum_names`: the enums none of whose variants has fields. -/
def simpleEnumNames (checker : Checker) : List String :=
  (checker.enums.filter fun e => e.variants.all fun v => v.fields.isNone).map fun e => e.name

/-- The encoder and the decoder agree on which enums have no fields. -/
theorem contains_simpleEnumNames (checker : Checker) (enumName : String) :
    (simpleEnumNames checker).contains enumName = allUnit checker enumName := by
  rw [Bool.eq_iff_iff, List.contains_iff_mem]
  unfold simpleEnumNames allUnit Checker.enumDecl
  rw [List.mem_map]
  constructor
  · rintro ⟨e, he, rfl⟩
    obtain ⟨hmem, hunit⟩ := List.mem_filter.1 he
    rw [find?_of_nodup checker.enums_nodup hmem]
    exact hunit
  · intro hunit
    cases hfind : checker.enums.find? fun d => d.name == enumName with
    | none =>
        rw [hfind] at hunit
        cases hunit
    | some e =>
        rw [hfind] at hunit
        have hname : e.name = enumName := by simpa using List.find?_some hfind
        exact ⟨e, List.mem_filter.2 ⟨List.mem_of_find?_eq_some hfind, hunit⟩, hname⟩

mutual

/-- `value_to_json`. The internal markers of the interpreter have no form of their own. -/
def valueToJson (simpleEnums : List String) : Value → Json
  | .int n => .number (.ofI64 n)
  | .int64 n => .string (displayInt n.toInt)
  | .decimal raw => .string (String.ofList (formatDecimal raw))
  | .timestamp ms => .string (String.ofList (formatIso8601Millis ms))
  | .float x => .ofF64 x
  | .str s => .string s
  | .uuid s => .string s
  | .html s => .string s
  | .vector xs => .array (xs.map fun x => .ofF64 (x.convert binary64))
  | .bool b => .bool b
  | .null => .null
  | .struct fields => .object (entriesToJson simpleEnums [] fields)
  | .variant enumName variant fields =>
      if simpleEnums.contains enumName then .string variant
      else .object (entriesToJson simpleEnums [("type", .string variant)] fields)
  | .list items => .array (valuesToJson simpleEnums items)
  | .tuple items => .array (valuesToJson simpleEnums items)
  | _ => .null

def valuesToJson (simpleEnums : List String) : List Value → List Json
  | [] => []
  | v :: vs => valueToJson simpleEnums v :: valuesToJson simpleEnums vs

/-- The entries are inserted one after another. -/
def entriesToJson (simpleEnums : List String) (m : List (String × Json)) :
    List (String × Value) → List (String × Json)
  | [] => m
  | (k, v) :: rest => entriesToJson simpleEnums (insertKey k (valueToJson simpleEnums v) m) rest

end

section

attribute [local simp] valueToJson valuesToJson

/-- A list is encoded element by element. -/
theorem valuesToJson_eq_map (simpleEnums : List String) (vs : List Value) :
    valuesToJson simpleEnums vs = vs.map (valueToJson simpleEnums) := by
  induction vs with
  | nil => simp
  | cons v vs ih => simp [ih]

theorem valueToJson_list (simpleEnums : List String) (items : List Value) :
    valueToJson simpleEnums (.list items) = .array (items.map (valueToJson simpleEnums)) := by
  simp [valuesToJson_eq_map]

theorem valueToJson_tuple (simpleEnums : List String) (items : List Value) :
    valueToJson simpleEnums (.tuple items) = .array (items.map (valueToJson simpleEnums)) := by
  simp [valuesToJson_eq_map]

end

/-- The keys are in order, each once. -/
def KeysSorted {α : Type} (entries : List (String × α)) : Prop :=
  (entries.map Prod.fst).Pairwise (· < ·)

theorem KeysSorted.nodup {α : Type} {entries : List (String × α)} (h : KeysSorted entries) :
    (entries.map Prod.fst).Nodup :=
  List.Pairwise.imp (fun hlt => ne_of_lt hlt) h

theorem mem_keys_insertKey {key other : String} {j : Json} {entries : List (String × Json)} :
    other ∈ (insertKey key j entries).map Prod.fst ↔
      other = key ∨ other ∈ entries.map Prod.fst := by
  induction entries with
  | nil => simp [insertKey]
  | cons e rest ih =>
      unfold insertKey
      split
      · simp
      · split
        · next hkey => simp [hkey]
        · rw [List.map_cons, List.mem_cons, ih, List.map_cons, List.mem_cons]
          tauto

/-- Insertion keeps the order, as a sorted map does. -/
theorem keysSorted_insertKey {key : String} {j : Json} {entries : List (String × Json)}
    (h : KeysSorted entries) : KeysSorted (insertKey key j entries) := by
  induction entries with
  | nil => simp [KeysSorted, insertKey]
  | cons e rest ih =>
      unfold KeysSorted at h ih ⊢
      rw [List.map_cons, List.pairwise_cons] at h
      unfold insertKey
      split
      · next hlt =>
        rw [List.map_cons, List.pairwise_cons, List.map_cons, List.pairwise_cons]
        refine ⟨fun k hk => ?_, h⟩
        rcases List.mem_cons.1 hk with rfl | hmem
        · exact hlt
        · exact lt_trans hlt (h.1 k hmem)
      · next hnlt =>
        split
        · next hkey =>
          rw [List.map_cons, List.pairwise_cons]
          exact ⟨fun k hk => hkey ▸ h.1 k hk, h.2⟩
        · next hne =>
          rw [List.map_cons, List.pairwise_cons]
          refine ⟨fun k hk => ?_, ih h.2⟩
          rcases mem_keys_insertKey.1 hk with rfl | hmem
          · exact lt_of_le_of_ne (not_lt.1 hnlt) (Ne.symm hne)
          · exact h.1 k hmem

theorem keysSorted_entriesToJson (simpleEnums : List String) {m : List (String × Json)}
    (h : KeysSorted m) (entries : List (String × Value)) :
    KeysSorted (entriesToJson simpleEnums m entries) := by
  induction entries generalizing m with
  | nil => rwa [entriesToJson]
  | cons e rest ih =>
      rw [entriesToJson]
      exact ih (keysSorted_insertKey h)

theorem insertKey_last {key : String} {j : Json} {entries : List (String × Json)}
    (h : ∀ k ∈ entries.map Prod.fst, k < key) : insertKey key j entries = entries ++ [(key, j)] := by
  induction entries with
  | nil => rfl
  | cons e rest ih =>
      have he : e.1 < key := h e.1 List.mem_cons_self
      rw [insertKey, if_neg (not_lt.2 (le_of_lt he)), if_neg (ne_of_gt he),
        ih fun k hk => h k (List.mem_cons_of_mem _ hk), List.cons_append]

/-- Entries that are in order are encoded one by one. -/
theorem entriesToJson_of_sorted (simpleEnums : List String) {entries : List (String × Value)}
    (h : KeysSorted entries) :
    entriesToJson simpleEnums [] entries =
      entries.map fun e => (e.1, valueToJson simpleEnums e.2) := by
  suffices ∀ m : List (String × Json), (∀ k ∈ m.map Prod.fst, ∀ k' ∈ entries.map Prod.fst, k < k') →
      entriesToJson simpleEnums m entries =
        m ++ entries.map fun e => (e.1, valueToJson simpleEnums e.2) from
    this [] fun _ hk => nomatch hk
  induction entries with
  | nil =>
      intro m _
      rw [entriesToJson, List.map_nil, List.append_nil]
  | cons e rest ih =>
      intro m hm
      unfold KeysSorted at h ih
      rw [List.map_cons, List.pairwise_cons] at h
      have hfirst : ∀ k ∈ m.map Prod.fst, k < e.1 := fun k hk => hm k hk e.1 List.mem_cons_self
      rw [entriesToJson, insertKey_last hfirst, ih h.2, List.append_assoc, List.map_cons,
        List.singleton_append]
      intro k hk k' hk'
      rw [List.map_append, List.mem_append] at hk
      rcases hk with hk | hk
      · exact hm k hk k' (List.mem_cons_of_mem _ hk')
      · rw [List.map_cons, List.map_nil, List.mem_singleton] at hk
        exact hk ▸ h.1 k' hk'

/-- Under each key of a struct that has every key once stands the encoding of its entry. -/
theorem jsonGet_entriesToJson (simpleEnums : List String) {entries : List (String × Value)}
    (h : (entries.map Prod.fst).Nodup) (m : List (String × Json)) (key : String) :
    jsonGet (entriesToJson simpleEnums m entries) key =
      ((entryNamed entries key).map (valueToJson simpleEnums)).or (jsonGet m key) := by
  induction entries generalizing m with
  | nil => simp [entriesToJson, entryNamed]
  | cons e rest ih =>
      rw [List.map_cons, List.nodup_cons] at h
      rw [entriesToJson, ih h.2, jsonGet_insertKey]
      unfold entryNamed
      by_cases hkey : e.1 = key
      · have hrest : rest.find? (fun e => e.1 == key) = none :=
          List.find?_eq_none.2 fun e' he' heq =>
            h.1 (List.mem_map.2 ⟨e', he', (beq_iff_eq.1 heq).trans hkey.symm⟩)
        rw [if_pos hkey, List.find?_cons_of_pos (by simpa using hkey), hrest]
        rfl
      · rw [if_neg hkey, List.find?_cons_of_neg (by simpa using hkey)]

/-- `json_to_value`. -/
def jsonToValue : Json → Value
  | .null => .null
  | .bool b => .bool b
  | .number n =>
      match n.asI64 with
      | some i => .int i
      | none => .float n.asF64
  | .string s => .str s
  | .array items => .list (items.map jsonToValue)
  | .object entries => .struct (entries.map fun e => (e.1, jsonToValue e.2))
termination_by j => sizeOf j
decreasing_by
  all_goals simp_wf
  · have := List.sizeOf_lt_of_mem ‹_ ∈ items›
    omega
  · have hlt := List.sizeOf_lt_of_mem ‹_ ∈ entries›
    cases e
    simp only [Prod.mk.sizeOf_spec] at hlt ⊢
    omega

end CScript
