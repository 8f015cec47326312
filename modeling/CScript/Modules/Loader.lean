import CScript.Lib.PostOrder
import CScript.Lang.Program
import CScript.Runtime.Json

/-!
# The loading of a program

`load_program_full` over files that stay as they are while the program is loaded. The lexer
with the parser, `serde_json` and the runs of `git` are parameters; so are the links of the
file system, by way of `canonicalize`.
-/

namespace CScript.Modules

open Lib Lib.Comp

abbrev Path := String

/-- `Path::join` on Unix. -/
def join (base path : Path) : Path :=
  if path.startsWith "/" then path
  else if base.isEmpty || base.endsWith "/" then base ++ path
  else base ++ "/" ++ path

/-- `parent().unwrap_or(".")` of a canonical path. -/
def parentDir (path : Path) : Path :=
  match path.toList.reverse.dropWhile (fun c => c != '/') with
  | [] => ""
  | [_] => if path == "/" then "." else "/"
  | _ :: dir => String.ofList dir.reverse

structure ImportDecl where
  names : List String
  source : String

/-- `ai { … }`: an alias and the model it stands for. -/
structure AiDecl where
  models : List (String × String)

/-- An item that survives the merge. -/
inductive Declaration where
  | item (item : Item)
  | ai (decl : AiDecl)

inductive SourceItem where
  | imports (decl : ImportDecl)
  | declares (decl : Declaration)

def SourceItem.importDecl? : SourceItem → Option ImportDecl
  | .imports decl => some decl
  | .declares _ => none

def SourceItem.declaration? : SourceItem → Option Declaration
  | .imports _ => none
  | .declares decl => some decl

structure SyntaxError where
  line : Nat
  column : Nat
  message : String
  code : Option String

inductive LoadError where
  | other (message : String)
  | syntaxErrors (path : Path) (errors : List SyntaxError)

def err (message : String) : LoadError := .other message

structure GitLockEntry where
  url : String
  rev : String
  resolved : String

/-- A file system with finitely many files that can be read. -/
structure Disk where
  readToString : Path → Except String String
  present : Path → Bool
  canonical : Path → Except String Path
  files : List Path
  finite : ∀ path text, readToString path = .ok text → path ∈ files

/-- What the loader calls: `tokenize` with `parse`, `serde_json::from_str`, the
`git_dependencies` of `read_lockfile`, and the two functions of `gitdep` that run `git`. -/
structure Tools where
  parse : String → Except (List SyntaxError) (List SourceItem)
  parseJson : String → Except String Json
  readLockfile : Path → Except String (List (String × GitLockEntry))
  gitResolve : String → Path → Except String (Path × GitLockEntry)
  gitResolvePinned : String → String → Path → Except String Path

structure System where
  disk : Disk
  tools : Tools
  overlay : List (Path × String)
  updateDeps : Bool

def System.canonicalize (sys : System) (path : Path) : Except LoadError Path :=
  match sys.disk.canonical path with
  | .ok canon => .ok canon
  | .error e => .error (err s!"no se pudo resolver '{path}': {e}")

/-- The fields of `Loader` that do not change, with the system that it runs on. -/
structure Project extends System where
  projectRoot : Path

/-- The fields of `Loader` that change, with the four collections that `visit` is handed. -/
structure Loading where
  nativeItems : List (Path × List SourceItem)
  touched : List Path
  manifest : Option (List (String × String))
  gitDependencies : List (String × GitLockEntry)
  existingLock : Option (List (String × GitLockEntry))
  onStack : List Path
  done : List Path
  merged : List Declaration
  mergedFiles : List Path

def Loading.start : Loading := ⟨[], [], none, [], none, [], [], [], []⟩

/-- No part of the loader exits other than by a return or an error. -/
abbrev LoadM := Comp Loading LoadError Empty

/-- `HashMap::insert`. -/
def insertEntry {β : Type} (key : String) (value : β) (entries : List (String × β)) :
    List (String × β) :=
  (key, value) :: entries.filter fun entry => entry.1 != key

def dependencyEntries (path : Path) :
    List (String × Json) → List (String × String) → Except LoadError (List (String × String))
  | [], entries => .ok entries
  | (key, value) :: rest, entries =>
      match value.asStr with
      | some text => dependencyEntries path rest (insertEntry key text entries)
      | none => .error (err s!"dependencies.{key} en '{path}' debe ser un string (ruta)")

/-- Whether one of the items declares the name in one of the namespaces of types, enums,
functions and constants; a service cannot be imported by its name. -/
def nameExistsInNamespaces (items : List SourceItem) (name : String) : Bool :=
  items.any fun
    | .declares (.item (.type decl _)) => decl.name == name
    | .declares (.item (.enum decl _)) => decl.name == name
    | .declares (.item (.fn decl)) => decl.name == name
    | .declares (.item (.const decl)) => decl.name == name
    | _ => false

def checkNames (target canon : Path) (items : List SourceItem) :
    List String → Except LoadError Unit
  | [] => .ok ()
  | name :: names =>
      if nameExistsInNamespaces items name then checkNames target canon items names
      else .error (err s!"'{name}' no existe en '{target}' (import desde '{canon}')")

/-- `gitdep::parse_spec`: `git+<url>#<rev>`, cut at the last `#`. -/
def parseSpec (spec : String) : Option (String × String) :=
  if spec.startsWith "git+" then
    let rest := (spec.toList.drop 4).reverse
    let rev := (rest.takeWhile fun c => c != '#').reverse
    match rest.dropWhile fun c => c != '#' with
    | [] => none
    | _ :: url =>
        if url.isEmpty || rev.isEmpty then none
        else some (String.ofList url.reverse, String.ofList rev)
  else none

namespace Project

variable (p : Project)

def readManifest (path : Path) : Except LoadError (List (String × String)) :=
  match p.disk.readToString path with
  | .error e => .error (err s!"no se pudo leer '{path}': {e}")
  | .ok content =>
      match p.tools.parseJson content with
      | .error e => .error (err s!"'{path}' no es JSON válido: {e}")
      | .ok json =>
          match json.asObject.bind (fun entries => jsonGet entries "dependencies") with
          | some (.object deps) => dependencyEntries path deps []
          | _ => .ok []

/-- The dependencies of `link.json`; a project without that file has none. -/
def dependencies : Except LoadError (List (String × String)) :=
  if p.disk.present (join p.projectRoot "link.json") then
    p.readManifest (join p.projectRoot "link.json")
  else .ok []

/-- A lock that cannot be read counts as empty. -/
def lockEntries : List (String × GitLockEntry) :=
  match p.tools.readLockfile (join p.projectRoot "link.lock") with
  | .ok entries => entries
  | .error _ => []

/-- The pin of the lock, if it is for this url and rev and no update was asked for. -/
def pinned (spec : String) (entry : Option GitLockEntry) : Option GitLockEntry :=
  entry.filter fun entry => !p.updateDeps && parseSpec spec == some (entry.url, entry.rev)

/-- The part of `load_native` after a miss in its cache. -/
def parseFile (canon : Path) : Except LoadError (List SourceItem) :=
  let source : Except String String := match p.overlay.lookup canon with
    | some text => .ok text
    | none => p.disk.readToString canon
  match source with
  | .error e => .error (err s!"no se pudo leer '{canon}': {e}")
  | .ok text =>
      match p.tools.parse text with
      | .error errors => .error (.syntaxErrors canon errors)
      | .ok items => .ok items

def loadNative (canon : Path) : LoadM (List SourceItem) := fun s =>
  match s.nativeItems.lookup canon with
  | some items => (.value items, s)
  | none =>
      match p.parseFile canon with
      | .error e => (.failed e, s)
      | .ok items =>
          (.value items, { s with
            touched := s.touched ++ [canon]
            nativeItems := (canon, items) :: s.nativeItems })

def existingLockEntry (name : String) : LoadM (Option GitLockEntry) := fun s =>
  let lock := s.existingLock.getD p.lockEntries
  (.value (lock.lookup name), { s with existingLock := some lock })

def loadManifest : LoadM (List (String × String)) := fun s =>
  match s.manifest with
  | some deps => (.value deps, s)
  | none =>
      match p.dependencies with
      | .error e => (.failed e, s)
      | .ok deps => (.value deps, { s with manifest := some deps })

def recordGit (name : String) (entry : GitLockEntry) : LoadM Unit := fun s =>
  (.value (), { s with gitDependencies := insertEntry name entry s.gitDependencies })

def resolveGit (name spec : String) (entry : Option GitLockEntry) :
    Except LoadError (Path × GitLockEntry) :=
  match p.pinned spec entry with
  | some entry =>
      match p.tools.gitResolvePinned entry.url entry.resolved p.projectRoot with
      | .ok dir => .ok (dir, entry)
      | .error e => .error (err s!"'{name}': {e}")
  | none =>
      match p.tools.gitResolve spec p.projectRoot with
      | .ok checkout => .ok checkout
      | .error e => .error (err s!"'{name}': {e}")

def isRelative (source : String) : Bool := source.startsWith "./" || source.startsWith "../"

def unknownDependency (source : String) : LoadError :=
  err s!"'{source}' no es una ruta relativa ('./' o '../') ni una dependencia en link.json"

def resolveImportTarget (source : String) (baseDir : Path) : LoadM Path :=
  if isRelative source then lift (p.canonicalize (join baseDir source))
  else do
    let deps ← p.loadManifest
    match deps.lookup source with
    | none => fail (unknownDependency source)
    | some spec =>
        if spec.startsWith "git+" then do
          let entry ← p.existingLockEntry source
          let checkout ← lift (p.resolveGit source spec entry)
          recordGit source checkout.2
          lift (p.canonicalize (join checkout.1 "main.link"))
        else lift (p.canonicalize (join p.projectRoot spec))

def isDone (canon : Path) : LoadM Bool := fun s => (.value (decide (canon ∈ s.done)), s)

/-- `on_stack.insert`: whether the file was not there yet. -/
def enter (canon : Path) : LoadM Bool := fun s =>
  if canon ∈ s.onStack then (.value false, s)
  else (.value true, { s with onStack := canon :: s.onStack })

/-- One push for each item that is no import, to both lists. -/
def mergeItems (canon : Path) : List SourceItem → Loading → Loading
  | [], s => s
  | .imports _ :: items, s => mergeItems canon items s
  | .declares decl :: items, s => mergeItems canon items { s with
      merged := s.merged ++ [decl]
      mergedFiles := s.mergedFiles ++ [canon] }

def finish (canon : Path) (items : List SourceItem) : LoadM Unit := fun s =>
  let s := mergeItems canon items s
  (.value (), { s with onStack := s.onStack.erase canon, done := canon :: s.done })

def visitImports (visit : Path → LoadM Unit) (canon : Path) : List SourceItem → LoadM Unit
  | [] => pure ()
  | .declares _ :: items => visitImports visit canon items
  | .imports decl :: items => do
      let target ← p.resolveImportTarget decl.source (parentDir canon)
      let targetNative ← p.loadNative target
      lift (checkNames target canon targetNative decl.names)
      visit target
      visitImports visit canon items

def importCycle (canon : Path) : LoadError := err s!"ciclo de imports detectado en '{canon}'"

/-- `visit`, by fuel for the nesting of its calls. -/
def visit : Nat → Path → LoadM Unit
  | 0, _ => exhausted
  | fuel + 1, canon => do
      let seen ← isDone canon
      if seen then pure ()
      else
        let fresh ← enter canon
        if fresh then
          let items ← p.loadNative canon
          p.visitImports (visit fuel) canon items
          finish canon items
        else fail (importCycle canon)

end Project

/-- The four parts of what `load_program_full` returns. -/
structure FullyLoadedProgram where
  items : List Declaration
  touched : List Path
  itemFiles : List Path
  gitDependencies : List (String × GitLockEntry)

def Loading.result : Outcome LoadError Empty Unit × Loading → Option (Except LoadError FullyLoadedProgram)
  | (.value _, s) => some (.ok ⟨s.merged, s.touched, s.mergedFiles, s.gitDependencies⟩)
  | (.failed e, _) => some (.error e)
  | (.outOfFuel, _) => none

def System.project (sys : System) (canonEntry : Path) : Project :=
  { sys with projectRoot := parentDir canonEntry }

/-- `load_program_full`; without a result only where `visit` runs out of fuel. -/
def System.loadProgramFull (sys : System) (fuel : Nat) (entry : Path) :
    Option (Except LoadError FullyLoadedProgram) :=
  match sys.canonicalize entry with
  | .error e => some (.error e)
  | .ok canonEntry =>
      Loading.result ((sys.project canonEntry).visit fuel canonEntry Loading.start)

end CScript.Modules
