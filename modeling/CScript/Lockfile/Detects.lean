import CScript.Lockfile.Lock

/-!
# What the lockfile detects

Every later change of the files is found, and nothing else, exactly when the recorded names are
different and lead from the root to the files again.
-/
namespace CScript.Lockfile

open Lib

variable {File : Type} (fs : FileSystem File) (hash : String → String)

/-! ## Generating -/

/-- What is recorded of a file. -/
def Records (contents : Contents File) (projectRoot path : Pathname) (e : String × LockEntry) :
    Prop :=
  ∃ source, contents (fs.locate path) = some source ∧
    e = (relStr fs projectRoot path, ⟨relStr fs projectRoot path, hash source⟩)

variable {fs hash} {contents : Contents File} {projectRoot : Pathname}

theorem recordFile_of_reads {path : Pathname} {source : String}
    (reads : contents (fs.locate path) = some source) (entries : Entries) :
    recordFile fs hash contents projectRoot entries path =
      insertEntry (relStr fs projectRoot path)
        ⟨relStr fs projectRoot path, hash source⟩ entries := by
  unfold recordFile
  rw [reads]

/-- One more file. -/
theorem mem_recordFile {path : Pathname} (reads : (contents (fs.locate path)).isSome)
    {entries : Entries} (fresh : relStr fs projectRoot path ∉ entries.map Prod.fst)
    {e : String × LockEntry} :
    e ∈ recordFile fs hash contents projectRoot entries path ↔
      Records fs hash contents projectRoot path e ∨ e ∈ entries := by
  obtain ⟨source, reads⟩ := Option.isSome_iff_exists.mp reads
  rw [recordFile_of_reads reads, mem_insertEntry]
  constructor
  · rintro (rfl | ⟨mem, -⟩)
    · exact .inl ⟨source, reads, rfl⟩
    · exact .inr mem
  · rintro (⟨source', reads', rfl⟩ | mem)
    · cases reads.symm.trans reads'
      exact .inl rfl
    · refine .inr ⟨mem, ?_⟩
      rintro same
      exact fresh (same ▸ List.mem_map_of_mem mem)

theorem key_mem_recordFile {path : Pathname} (reads : (contents (fs.locate path)).isSome)
    {entries : Entries} {key : String} :
    key ∈ (recordFile fs hash contents projectRoot entries path).map Prod.fst ↔
      key = relStr fs projectRoot path ∨ key ∈ entries.map Prod.fst := by
  obtain ⟨source, reads⟩ := Option.isSome_iff_exists.mp reads
  rw [recordFile_of_reads reads]
  constructor
  · intro mem
    obtain ⟨e, found, rfl⟩ := List.mem_map.mp mem
    rcases mem_insertEntry.mp found with rfl | ⟨old, -⟩
    · exact .inl rfl
    · exact .inr (List.mem_map_of_mem old)
  · intro known
    by_cases same : key = relStr fs projectRoot path
    · exact List.mem_map.mpr ⟨_, mem_insertEntry.mpr (.inl rfl), same.symm⟩
    · obtain ⟨e, old, rfl⟩ := List.mem_map.mp (known.resolve_left same)
      exact List.mem_map_of_mem (mem_insertEntry.mpr (.inr ⟨old, same⟩))

/-- Files of different names are all recorded. -/
theorem mem_generateLockfile {paths : List Pathname}
    (readable : ∀ p ∈ paths, (contents (fs.locate p)).isSome)
    (distinct : (paths.map (relStr fs projectRoot)).Nodup) {e : String × LockEntry} :
    e ∈ generateLockfile fs hash contents paths projectRoot ↔
      ∃ p ∈ paths, Records fs hash contents projectRoot p e := by
  have run (entries : Entries)
      (fresh : ∀ p ∈ paths, relStr fs projectRoot p ∉ entries.map Prod.fst) :
      e ∈ paths.foldl (recordFile fs hash contents projectRoot) entries ↔
        (∃ p ∈ paths, Records fs hash contents projectRoot p e) ∨ e ∈ entries := by
    induction paths generalizing entries with
    | nil => exact ⟨.inr, fun h => h.resolve_left fun ⟨_, mem, _⟩ => nomatch mem⟩
    | cons p paths ih =>
        obtain ⟨reads, others⟩ := List.forall_mem_cons.mp readable
        obtain ⟨new, distinct⟩ := List.nodup_cons.mp distinct
        obtain ⟨mine, fresh⟩ := List.forall_mem_cons.mp fresh
        rw [List.foldl_cons, ih others distinct, mem_recordFile reads mine,
          List.exists_mem_cons_iff, or_assoc, or_left_comm]
        intro q mem known
        rcases (key_mem_recordFile reads).mp known with same | old
        · exact new (List.mem_map.mpr ⟨q, mem, same⟩)
        · exact fresh q mem old
  have all := run [] fun _ _ => List.not_mem_nil
  rw [or_iff_left List.not_mem_nil] at all
  exact all

/-- There is an entry for each name. -/
theorem length_generateLockfile {paths : List Pathname}
    (readable : ∀ p ∈ paths, (contents (fs.locate p)).isSome) :
    (generateLockfile fs hash contents paths projectRoot).length = paths.length ↔
      (paths.map (relStr fs projectRoot)).Nodup := by
  have run (entries : Entries) (nodup : (entries.map Prod.fst).Nodup) :
      ((paths.foldl (recordFile fs hash contents projectRoot) entries).map Prod.fst).Nodup ∧
        ∀ key, key ∈ (paths.foldl (recordFile fs hash contents projectRoot) entries).map Prod.fst ↔
          key ∈ paths.map (relStr fs projectRoot) ∨ key ∈ entries.map Prod.fst := by
    induction paths generalizing entries with
    | nil => exact ⟨nodup, fun _ => ⟨.inr, fun h => h.resolve_left fun mem => nomatch mem⟩⟩
    | cons p paths ih =>
        obtain ⟨reads, others⟩ := List.forall_mem_cons.mp readable
        obtain ⟨source, text⟩ := Option.isSome_iff_exists.mp reads
        have next := nodup_insertEntry (relStr fs projectRoot p)
          ⟨relStr fs projectRoot p, hash source⟩ nodup
        rw [← recordFile_of_reads text] at next
        obtain ⟨nodup', keys⟩ := ih others _ next
        refine ⟨nodup', fun key => ?_⟩
        rw [List.foldl_cons, keys, key_mem_recordFile reads, List.map_cons, List.mem_cons,
          or_left_comm, or_assoc]
  obtain ⟨nodup, keys⟩ := run [] List.nodup_nil
  have perm : List.Perm ((generateLockfile fs hash contents paths projectRoot).map Prod.fst)
      (paths.map (relStr fs projectRoot)).dedup := by
    apply (List.perm_ext_iff_of_nodup nodup (List.nodup_dedup _)).mpr
    intro key
    rw [List.mem_dedup]
    exact (keys key).trans (or_iff_left List.not_mem_nil)
  rw [← @List.length_map _ _ _ Prod.fst, perm.length_eq, ← List.dedup_eq_self]
  constructor
  · intro same
    apply (List.dedup_sublist _).eq_of_length
    rw [same, List.length_map]
  · intro same
    rw [same, List.length_map]

/-! ## Verifying -/

theorem verifyLockfile_ok {later : Contents File} {lockfile : Entries} :
    verifyLockfile fs hash later lockfile projectRoot = .ok () ↔
      ∀ e ∈ lockfile, ∃ source, later (entryFile fs projectRoot e.1) = some source ∧
        hash source = e.2.hash := by
  unfold verifyLockfile
  dsimp only
  constructor
  · intro ok e mem
    split at ok
    · rename_i none
      have quiet := List.filterMap_eq_nil_iff.mp none e mem
      unfold mismatch at quiet
      split at quiet
      · rename_i source reads
        split at quiet
        · cases quiet
        · rename_i same
          exact ⟨source, reads, not_not.mp same⟩
      · cases quiet
    · cases ok
  · intro h
    rw [if_pos]
    apply List.filterMap_eq_nil_iff.mpr
    intro e mem
    obtain ⟨source, reads, same⟩ := h e mem
    unfold mismatch
    rw [reads]
    exact if_neg (not_not.mpr same)

/-- What the lockfile of the files asks of the files that the entries are about. -/
theorem verify_generated (injective : Function.Injective hash) {paths : List Pathname}
    (readable : ∀ p ∈ paths, (contents (fs.locate p)).isSome)
    (distinct : (paths.map (relStr fs projectRoot)).Nodup) {later : Contents File} :
    verifyLockfile fs hash later (generateLockfile fs hash contents paths projectRoot)
        projectRoot = .ok () ↔
      ∀ p ∈ paths, later (entryFile fs projectRoot (relStr fs projectRoot p)) =
        contents (fs.locate p) := by
  rw [verifyLockfile_ok]
  constructor
  · intro h p mem
    obtain ⟨source, reads⟩ := Option.isSome_iff_exists.mp (readable p mem)
    obtain ⟨source', reads', same⟩ := h _ ((mem_generateLockfile readable distinct).mpr
      ⟨p, mem, source, reads, rfl⟩)
    rw [reads', reads, injective same]
  · intro h e mem
    obtain ⟨p, own, source, reads, rfl⟩ := (mem_generateLockfile readable distinct).mp mem
    exact ⟨source, (h p own).trans reads, rfl⟩

/-! ## Changes -/

/-- A set of files that can be read. -/
structure Sources (fs : FileSystem File) (contents : Contents File) where
  paths : List Pathname
  nodup : paths.Nodup
  readable : ∀ p ∈ paths, (contents (fs.locate p)).isSome

/-- Every file is recorded, the lockfile is right as long as no file changes, and wrong as soon as
one says something else or is gone. -/
structure Detects (hash : String → String) (sources : Sources fs contents)
    (projectRoot : Pathname) : Prop where
  recorded : (generateLockfile fs hash contents sources.paths projectRoot).length =
    sources.paths.length
  unchanged (later : Contents File) :
    (∀ p ∈ sources.paths, later (fs.locate p) = contents (fs.locate p)) →
      verifyLockfile fs hash later (generateLockfile fs hash contents sources.paths projectRoot)
        projectRoot = .ok ()
  changed (later : Contents File) (p : Pathname) : p ∈ sources.paths →
    later (fs.locate p) ≠ contents (fs.locate p) →
      verifyLockfile fs hash later (generateLockfile fs hash contents sources.paths projectRoot)
        projectRoot ≠ .ok ()

/-- The recorded names are different, each leads from the root to one of the files that says the
same as the file recorded, and every file is reached so. -/
structure Sources.Located (sources : Sources fs contents) (projectRoot : Pathname) : Prop where
  distinct : (sources.paths.map (relStr fs projectRoot)).Nodup
  found : ∀ p ∈ sources.paths, ∃ q ∈ sources.paths,
    entryFile fs projectRoot (relStr fs projectRoot p) = fs.locate q ∧
      contents (fs.locate q) = contents (fs.locate p)
  reached : ∀ q ∈ sources.paths, ∃ p ∈ sources.paths,
    entryFile fs projectRoot (relStr fs projectRoot p) = fs.locate q

namespace Sources

variable (sources : Sources fs contents)

theorem detects_of_located (injective : Function.Injective hash)
    (located : sources.Located projectRoot) : Detects hash sources projectRoot := by
  refine ⟨(length_generateLockfile sources.readable).mpr located.distinct, ?_, ?_⟩
  · intro later kept
    apply (verify_generated injective sources.readable located.distinct).mpr
    intro p mem
    obtain ⟨q, own, there, same⟩ := located.found p mem
    rw [there, kept q own, same]
  · intro later q mem differs ok
    have all := (verify_generated injective sources.readable located.distinct).mp ok
    obtain ⟨p, own, there⟩ := located.reached q mem
    obtain ⟨q', -, there', same⟩ := located.found p own
    apply differs
    rw [← there, all p own, ← same, ← there']

open Classical in
theorem located_of_detects (injective : Function.Injective hash)
    (detects : Detects hash sources projectRoot) : sources.Located projectRoot := by
  have distinct := (length_generateLockfile sources.readable).mp detects.recorded
  have verify (later : Contents File) :=
    @verify_generated _ fs hash contents projectRoot injective _ sources.readable distinct later
  have found : ∀ p ∈ sources.paths, ∃ q ∈ sources.paths,
      entryFile fs projectRoot (relStr fs projectRoot p) = fs.locate q ∧
        contents (fs.locate q) = contents (fs.locate p) := by
    -- all that is left later is the files themselves
    intro p mem
    let later : Contents File := fun f =>
      if ∃ q ∈ sources.paths, fs.locate q = f then contents f else none
    have kept : ∀ q ∈ sources.paths, later (fs.locate q) = contents (fs.locate q) :=
      fun q own => if_pos ⟨q, own, rfl⟩
    have same := (verify later).mp (detects.unchanged later kept) p mem
    by_cases known : ∃ q ∈ sources.paths,
        fs.locate q = entryFile fs projectRoot (relStr fs projectRoot p)
    · obtain ⟨q, own, there⟩ := known
      refine ⟨q, own, there.symm, ?_⟩
      rw [← same, ← there, kept q own]
    · have gone : later (entryFile fs projectRoot (relStr fs projectRoot p)) = none := if_neg known
      have reads := sources.readable p mem
      rw [← same, gone] at reads
      cases reads
  refine ⟨distinct, found, ?_⟩
  -- a file that no entry is about is deleted
  intro q mem
  by_contra never
  have later : verifyLockfile fs hash (Function.update contents (fs.locate q) none)
      (generateLockfile fs hash contents sources.paths projectRoot) projectRoot ≠ .ok () := by
    apply detects.changed _ q mem
    rw [Function.update_self]
    intro gone
    have reads := sources.readable q mem
    rw [← gone] at reads
    cases reads
  apply later
  apply (verify _).mpr
  intro p own
  obtain ⟨q', -, there, same⟩ := found p own
  have other : entryFile fs projectRoot (relStr fs projectRoot p) ≠ fs.locate q :=
    fun same => never ⟨p, own, same⟩
  rw [Function.update_of_ne other, there, same]

end Sources

theorem detects_iff (injective : Function.Injective hash) (sources : Sources fs contents)
    (projectRoot : Pathname) : Detects hash sources projectRoot ↔ sources.Located projectRoot :=
  ⟨sources.located_of_detects injective, sources.detects_of_located injective⟩

/-! ## Two files outside of the root -/

/-- A system without links. -/
def plain : FileSystem Pathname := ⟨id, some⟩

def nameOf (s : String) : PathPart := .normal (asBytes s.toList)

def app : Pathname := [.rootDir, nameOf "app"]

def typesLink (dir : String) : Pathname := [.rootDir, nameOf dir, nameOf "types.link"]

def typesContents : Contents Pathname := fun p =>
  if p = typesLink "auth" then some "type Role = String"
  else if p = typesLink "shop" then some "type Price = Int"
  else none

/-- Both are recorded as `types.link`. -/
def twins : Sources plain typesContents where
  paths := [typesLink "auth", typesLink "shop"]
  nodup := by decide
  readable := by decide

theorem detects_iff_twins : Detects id twins app ↔ twins.Located app :=
  detects_iff (fun _ _ same => same) twins app

theorem twins_not_detected : ¬ Detects id twins app ∧ ¬ Detects hashSource twins app := by
  have same : relPath plain app (typesLink "auth") = relPath plain app (typesLink "shop") := by
    decide
  have twice : ¬ (twins.paths.map (relStr plain app)).Nodup := by
    intro distinct
    apply (List.nodup_cons.mp distinct).1
    apply List.mem_singleton.mpr
    unfold relStr
    rw [same]
  constructor <;> exact fun detects =>
    twice ((length_generateLockfile twins.readable).mp detects.recorded)

/-! ## Files under the root -/

/-- A file in a directory below the root, with a path that is text without a backslash. -/
def Inside (root : List (List UInt8)) (path : Pathname) : Prop :=
  ∃ names : List (List UInt8), (∀ n ∈ names, IsName n) ∧
    path = .rootDir :: (root.map .normal ++ names.map .normal) ∧
    ∃ cs, asBytes cs = pathBytes (names.map .normal) ∧ '\\' ∉ cs

theorem join_of_inside {root : List (List UInt8)} (names : ∀ n ∈ root, IsName n)
    (canonical : canonRoot fs projectRoot = .rootDir :: root.map .normal) {path : Pathname}
    (inside : Inside root path) : joinPath (canonRoot fs projectRoot)
      (asBytes (relStr fs projectRoot path).toList) = path := by
  obtain ⟨names', own, rfl, cs, text, plain⟩ := inside
  have rel : relPath fs projectRoot (.rootDir :: (root.map .normal ++ names'.map .normal)) =
      names'.map .normal := by
    unfold relPath
    have strip : stripPath (canonRoot fs projectRoot)
        (.rootDir :: (root.map .normal ++ names'.map .normal)) = some (names'.map .normal) := by
      rw [canonical, ← List.cons_append]
      exact stripPath_append _ _
    rw [strip]
    rfl
  have same : (cs.map fun c => if c = '\\' then '/' else c) = cs := by
    conv_rhs => rw [← List.map_id cs]
    apply List.map_congr_left
    intro c mem
    exact if_neg (ne_of_mem_of_not_mem mem plain)
  unfold relStr
  rw [rel, ← text, fromUtf8Lossy_asBytes, same, String.toList_ofList, text, canonical,
    joinPath_names names own]

/-- All changes of files under the root are found. -/
theorem located_of_inside {root : List (List UInt8)} (names : ∀ n ∈ root, IsName n)
    (canonical : canonRoot fs projectRoot = .rootDir :: root.map .normal)
    (sources : Sources fs contents) (inside : ∀ p ∈ sources.paths, Inside root p) :
    sources.Located projectRoot := by
  have join : ∀ p ∈ sources.paths, joinPath (canonRoot fs projectRoot)
      (asBytes (relStr fs projectRoot p).toList) = p :=
    fun p mem => join_of_inside names canonical (inside p mem)
  have there : ∀ p ∈ sources.paths,
      entryFile fs projectRoot (relStr fs projectRoot p) = fs.locate p :=
    fun p mem => congrArg fs.locate (join p mem)
  refine ⟨sources.nodup.map_on ?_, fun p mem => ⟨p, mem, there p mem, rfl⟩,
    fun q mem => ⟨q, mem, there q mem⟩⟩
  intro p mem q mem' same
  rw [← join p mem, same, join q mem']

end CScript.Lockfile
