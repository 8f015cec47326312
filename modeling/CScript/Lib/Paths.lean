import CScript.Lib.Utf8Chunks

/-!
# Paths

A path by its components, as paths are compared, and the bytes that it is written as.
-/
namespace CScript.Lib

inductive PathPart where
  | rootDir
  | curDir
  | parentDir
  | normal (name : List UInt8)
  deriving DecidableEq

abbrev Pathname := List PathPart

def PathPart.bytes : PathPart → List UInt8
  | .rootDir => []
  | .curDir => [0x2E]
  | .parentDir => [0x2E, 0x2E]
  | .normal name => name

/-- The bytes of a path, with a slash between its components. -/
def pathBytes : Pathname → List UInt8
  | .rootDir :: parts => 0x2F :: [0x2F].intercalate (parts.map PathPart.bytes)
  | parts => [0x2F].intercalate (parts.map PathPart.bytes)

/-- What stands between two slashes; a dot says nothing there. -/
def partOf (name : List UInt8) : Option PathPart :=
  if name = [] ∨ name = [0x2E] then none
  else if name = [0x2E, 0x2E] then some .parentDir
  else some (.normal name)

/-- `Path::components` -/
def pathComponents (bytes : List UInt8) : Pathname :=
  let names := bytes.splitOn 0x2F
  let first := if bytes.head? = some 0x2F then [PathPart.rootDir]
    else if names.head? = some [0x2E] then [PathPart.curDir] else []
  first ++ names.filterMap partOf

/-- `Path::join`, where an absolute path takes the place of the other. -/
def joinPath (base : Pathname) (bytes : List UInt8) : Pathname :=
  let start := pathBytes base
  if bytes.head? = some 0x2F then pathComponents bytes
  else if start = [] ∨ start.getLast? = some 0x2F then pathComponents (start ++ bytes)
  else pathComponents (start ++ 0x2F :: bytes)

/-- `Path::strip_prefix` -/
def stripPath (base path : Pathname) : Option Pathname := base.isPrefixOf? path

/-- `Path::file_name` -/
def fileName (path : Pathname) : Option Pathname :=
  match path.getLast? with
  | some (.normal name) => some [.normal name]
  | _ => none

theorem stripPath_append (base rest : Pathname) : stripPath base (base ++ rest) = some rest := by
  induction base with
  | nil => rfl
  | cons part base ih =>
      have step : stripPath (part :: base) (part :: (base ++ rest)) =
          if part == part then stripPath base (base ++ rest) else none := rfl
      rw [List.cons_append, step, if_pos (beq_self_eq_true part), ih]

/-! ## Names -/

/-- A component as a directory holds it. -/
def IsName (name : List UInt8) : Prop :=
  name ≠ [] ∧ name ≠ [0x2E] ∧ name ≠ [0x2E, 0x2E] ∧ 0x2F ∉ name

theorem partOf_of_isName {name : List UInt8} (h : IsName name) :
    partOf name = some (.normal name) := by
  obtain ⟨some, dot, dots, -⟩ := h
  unfold partOf
  rw [if_neg (not_or.mpr ⟨some, dot⟩), if_neg dots]

theorem filterMap_partOf {names : List (List UInt8)} (h : ∀ n ∈ names, IsName n) :
    names.filterMap partOf = names.map .normal := by
  induction names with
  | nil => rfl
  | cons n names ih =>
      obtain ⟨mine, others⟩ := List.forall_mem_cons.mp h
      rw [List.filterMap_cons, partOf_of_isName mine, List.map_cons, ih others]

/-- A path of names is read as it was written. -/
theorem filterMap_splitOn {names : List (List UInt8)} (h : ∀ n ∈ names, IsName n) :
    (([0x2F].intercalate names).splitOn 0x2F).filterMap partOf = names.map .normal := by
  cases names with
  | nil => rfl
  | cons n names =>
      rw [List.splitOn_intercalate 0x2F (fun n mem => (h n mem).2.2.2) (List.cons_ne_nil _ _),
        filterMap_partOf h]

/-- No slash stands at an end. -/
theorem nil_mem_of_slash {names : List (List UInt8)} (h : ∀ n ∈ names, IsName n)
    {xs ys : List UInt8} (eq : [0x2F].intercalate names = xs ++ 0x2F :: ys) :
    xs ≠ [] ∧ ys ≠ [] := by
  have ne : names ≠ [] := by
    rintro rfl
    cases xs <;> cases eq
  have parts : xs.splitOn 0x2F ++ ys.splitOn 0x2F = names := by
    rw [← List.splitOn_append_cons_self, ← eq,
      List.splitOn_intercalate 0x2F (fun n mem => (h n mem).2.2.2) ne]
  have none : [] ∉ xs.splitOn 0x2F ++ ys.splitOn 0x2F := by
    rw [parts]
    exact fun mem => (h [] mem).1 rfl
  constructor <;> rintro rfl
  · exact none (List.mem_append_left _ List.mem_cons_self)
  · exact none (List.mem_append_right _ List.mem_cons_self)

theorem bytes_normal (names : List (List UInt8)) :
    (names.map PathPart.normal).map PathPart.bytes = names := by
  rw [List.map_map]
  exact List.map_id _

theorem pathBytes_normal (names : List (List UInt8)) :
    pathBytes (names.map .normal) = [0x2F].intercalate names := by
  have own : [0x2F].intercalate ((names.map PathPart.normal).map PathPart.bytes) =
      [0x2F].intercalate names := by rw [bytes_normal]
  cases names with
  | nil => rfl
  | cons n names => exact own

theorem pathBytes_absolute (names : List (List UInt8)) :
    pathBytes (.rootDir :: names.map .normal) = 0x2F :: [0x2F].intercalate names := by
  rw [pathBytes, bytes_normal]

theorem pathComponents_absolute (bytes : List UInt8) : pathComponents (0x2F :: bytes) =
    .rootDir :: (bytes.splitOn 0x2F).filterMap partOf := by
  have parts : (0x2F :: bytes).splitOn 0x2F = [] :: bytes.splitOn 0x2F :=
    List.splitOn_append_cons_self [] bytes
  unfold pathComponents
  dsimp only
  rw [parts, List.head?_cons, if_pos rfl]
  rfl

/-- Names are taken from an absolute path on. -/
theorem joinPath_names {base names : List (List UInt8)} (hb : ∀ n ∈ base, IsName n)
    (hn : ∀ n ∈ names, IsName n) :
    joinPath (.rootDir :: base.map .normal) (pathBytes (names.map .normal)) =
      .rootDir :: (base.map .normal ++ names.map .normal) := by
  have relative : ([0x2F].intercalate names).head? ≠ some 0x2F := by
    intro slash
    obtain ⟨rest, eq⟩ := List.head?_eq_some_iff.mp slash
    exact (@nil_mem_of_slash names hn [] rest eq).1 rfl
  unfold joinPath
  dsimp only
  rw [pathBytes_normal, pathBytes_absolute, if_neg relative]
  cases base with
  | nil =>
      rw [if_pos (.inr rfl)]
      change pathComponents (0x2F :: [0x2F].intercalate names) = _
      rw [pathComponents_absolute, filterMap_splitOn hn]
      rfl
  | cons b base =>
      have open_ : ¬ (0x2F :: [0x2F].intercalate (b :: base) = [] ∨
          (0x2F :: [0x2F].intercalate (b :: base)).getLast? = some 0x2F) := by
        rintro (none | slash)
        · cases none
        · obtain ⟨front, eq⟩ := List.getLast?_eq_some_iff.mp slash
          cases front with
          | nil =>
              have parts := List.splitOn_intercalate 0x2F (fun n mem => (hb n mem).2.2.2)
                (List.cons_ne_nil b base)
              rw [(List.cons.inj eq).2, List.splitOn_nil] at parts
              exact (hb b List.mem_cons_self).1 (List.cons.inj parts).1.symm
          | cons c front =>
              exact (@nil_mem_of_slash (b :: base) hb front [] (List.cons.inj eq).2).2 rfl
      rw [if_neg open_, List.cons_append, pathComponents_absolute, List.splitOn_append_cons_self,
        List.filterMap_append, filterMap_splitOn hb, filterMap_splitOn hn]

end CScript.Lib
