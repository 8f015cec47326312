import CScript.Lib.Paths
import CScript.Lockfile.HashSource
import Mathlib.Data.List.Sort

/-!
# The lockfile

A file is recorded under its path from the root, or under its name where it is outside of the root,
and looked up under what was recorded.
-/
namespace CScript.Lockfile

open Lib

structure LockEntry where
  path : String
  hash : String
  deriving DecidableEq

/-- The entries by their keys. -/
abbrev Entries := List (String × LockEntry)

/-- `BTreeMap::insert` -/
def insertEntry (key : String) (entry : LockEntry) (entries : Entries) : Entries :=
  List.orderedInsert (fun x y => x.1 ≤ y.1) (key, entry) (entries.filter (·.1 ≠ key))

/-- Where the paths of a system lead, whatever the files say. -/
structure FileSystem (File : Type) where
  locate : Pathname → File
  canonicalize : Pathname → Option Pathname

/-- What the files say, where they can be read as text. -/
abbrev Contents (File : Type) := File → Option String

variable {File : Type} (fs : FileSystem File)

def canonRoot (projectRoot : Pathname) : Pathname :=
  (fs.canonicalize projectRoot).getD projectRoot

def relPath (projectRoot path : Pathname) : Pathname :=
  ((stripPath (canonRoot fs projectRoot) path).or (stripPath projectRoot path)).getD
    ((fileName path).getD path)

def relStr (projectRoot path : Pathname) : String :=
  String.ofList ((fromUtf8Lossy (pathBytes (relPath fs projectRoot path))).map fun c =>
    if c = '\\' then '/' else c)

variable (hash : String → String)

/-- The loop body of `generate_lockfile`. -/
def recordFile (contents : Contents File) (projectRoot : Pathname) (entries : Entries)
    (path : Pathname) : Entries :=
  match contents (fs.locate path) with
  | some source =>
      let rel := relStr fs projectRoot path
      insertEntry rel ⟨rel, hash source⟩ entries
  | none => entries

def generateLockfile (contents : Contents File) (touchedFiles : List Pathname)
    (projectRoot : Pathname) : Entries :=
  touchedFiles.foldl (recordFile fs hash contents projectRoot) []

/-- The file that an entry is about. -/
def entryFile (projectRoot : Pathname) (rel : String) : File :=
  fs.locate (joinPath (canonRoot fs projectRoot) (asBytes rel.toList))

def mismatch (contents : Contents File) (projectRoot : Pathname) (entry : String × LockEntry) :
    Option String :=
  match contents (entryFile fs projectRoot entry.1) with
  | some source =>
      if hash source ≠ entry.2.hash then
        some ("El archivo '" ++ entry.1 ++ "' ha cambiado desde la última generación del " ++
          "lockfile (esperado: " ++ entry.2.hash ++ ", encontrado: " ++ hash source ++ ")")
      else none
  | none => some ("No se pudo leer el archivo '" ++ entry.1 ++ "' declarado en link.lock")

def verifyLockfile (contents : Contents File) (lockfile : Entries) (projectRoot : Pathname) :
    Except (List String) Unit :=
  let mismatches := lockfile.filterMap (mismatch fs hash contents projectRoot)
  if mismatches = [] then .ok () else .error mismatches

/-! ## Entries -/

theorem mem_insertEntry {key : String} {entry : LockEntry} {entries : Entries}
    {e : String × LockEntry} :
    e ∈ insertEntry key entry entries ↔ e = (key, entry) ∨ e ∈ entries ∧ e.1 ≠ key := by
  unfold insertEntry
  rw [List.mem_orderedInsert, List.mem_filter, decide_eq_true_eq]

theorem nodup_insertEntry (key : String) (entry : LockEntry) {entries : Entries}
    (nodup : (entries.map Prod.fst).Nodup) :
    ((insertEntry key entry entries).map Prod.fst).Nodup := by
  have perm := ((List.perm_orderedInsert (fun x y : String × LockEntry => x.1 ≤ y.1) (key, entry)
    (entries.filter (·.1 ≠ key))).map Prod.fst).nodup_iff
  refine perm.mpr (List.nodup_cons.mpr ⟨?_, ?_⟩)
  · intro mem
    obtain ⟨e, found, same⟩ := List.mem_map.mp mem
    exact of_decide_eq_true (List.mem_filter.mp found).2 same
  · exact nodup.sublist (List.filter_sublist.map _)

end CScript.Lockfile
