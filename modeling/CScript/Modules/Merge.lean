import CScript.Modules.Loader

/-!
# What a loaded program is

The import graph as the files give it, without the caches of the loader; the loader searches
this graph in post-order and merges what it finishes.
-/

namespace CScript.Modules

open Lib Lib.Comp Lib.PostOrder Relation

namespace Project

variable (p : Project)

/-- `resolve_import_target` read off the files. -/
def importTarget (source : String) (baseDir : Path) : Except LoadError Path :=
  if isRelative source then p.canonicalize (join baseDir source)
  else do
    let deps ← p.dependencies
    match deps.lookup source with
    | none => .error (unknownDependency source)
    | some spec =>
        if spec.startsWith "git+" then do
          let checkout ← p.resolveGit source spec (p.lockEntries.lookup source)
          p.canonicalize (join checkout.1 "main.link")
        else p.canonicalize (join p.projectRoot spec)

/-- One import followed: its target, which parses and declares the imported names. -/
def importEdge (canon : Path) (decl : ImportDecl) : Except LoadError Path := do
  let target ← p.importTarget decl.source (parentDir canon)
  let targetNative ← p.parseFile target
  checkNames target canon targetNative decl.names
  return target

def importEdges (canon : Path) (items : List SourceItem) : List (Except LoadError Path) :=
  (items.filterMap SourceItem.importDecl?).map (p.importEdge canon)

def importGraph : EdgeMap Path LoadError where
  edges canon := (p.parseFile canon).map (p.importEdges canon)
  cycle := importCycle

/-- The items of a file that are no imports, in their order. -/
def declarations (canon : Path) : List Declaration :=
  match p.parseFile canon with
  | .ok items => items.filterMap SourceItem.declaration?
  | .error _ => []

/-- `f` has an import whose target is `g`. -/
def Imports (f g : Path) : Prop :=
  ∃ items decl, p.parseFile f = .ok items ∧ .imports decl ∈ items ∧
    p.importTarget decl.source (parentDir f) = .ok g

abbrev Reaches : Path → Path → Prop := ReflTransGen p.Imports

/-- The files that can be merged from `root`. -/
structure Mergeable (root : Path) : Prop where
  parses : ∀ f, p.Reaches root f → ∃ items, p.parseFile f = .ok items
  resolves : ∀ f items decl, p.Reaches root f → p.parseFile f = .ok items →
    .imports decl ∈ items → ∃ g targetNative,
      p.importTarget decl.source (parentDir f) = .ok g ∧ p.parseFile g = .ok targetNative ∧
        ∀ name ∈ decl.names, nameExistsInNamespaces targetNative name = true
  acyclic : ∀ f, p.Reaches root f → ¬ TransGen p.Imports f f

/-- The merge of the files reachable from `root`, each listed once in `order`: their items
one file after the other, beside each its file, and none before an item of a file that its
own file imports. -/
structure Merged (root : Path) (order : List Path) (program : FullyLoadedProgram) : Prop where
  nodup : order.Nodup
  reached : ∀ f, f ∈ order ↔ p.Reaches root f
  items : program.items = order.flatMap p.declarations
  itemFiles : program.itemFiles = order.flatMap fun f => (p.declarations f).map fun _ => f
  importsFirst : program.itemFiles.Pairwise fun f g => ¬ p.Imports f g

/-! ## The caches -/

/-- The state of the loader against the search of the graph: what is cached is what the
files say, and what is merged are the items of the finished files. -/
structure Agrees (s : Loading) (t : Search Path) : Prop where
  native : ∀ f items, s.nativeItems.lookup f = some items → p.parseFile f = .ok items
  manifest : ∀ deps, s.manifest = some deps → p.dependencies = .ok deps
  lock : ∀ lock, s.existingLock = some lock → lock = p.lockEntries
  onStack : s.onStack = t.onStack
  done : s.done = t.finished
  merged : s.merged = t.finished.reverse.flatMap p.declarations
  mergedFiles : s.mergedFiles =
    t.finished.reverse.flatMap fun f => (p.declarations f).map fun _ => f

variable {p}

theorem agrees_start : p.Agrees Loading.start ⟨[], []⟩ :=
  ⟨(fun _ _ h => nomatch h), (fun _ h => nomatch h), (fun _ h => nomatch h), rfl, rfl, rfl, rfl⟩

theorem loadNative_tracks (canon : Path) :
    Tracks p.Agrees (p.loadNative canon) (lift (p.parseFile canon)) := by
  intro s t h
  unfold loadNative
  cases hcache : s.nativeItems.lookup canon with
  | some items =>
      rw [h.native canon items hcache]
      exact ⟨rfl, fun _ _ => h⟩
  | none =>
      cases hparse : p.parseFile canon with
      | error e => exact ⟨rfl, fun _ h => nomatch h⟩
      | ok items =>
          refine ⟨rfl, fun _ _ => ⟨fun f items' hf => ?_, h.manifest, h.lock, h.onStack, h.done,
            h.merged, h.mergedFiles⟩⟩
          by_cases hfc : f = canon
          · subst hfc
            rw [List.lookup_cons_self] at hf
            cases hf
            exact hparse
          · have hne : (f == canon) = false := beq_eq_false_iff_ne.mpr hfc
            rw [List.lookup_cons, hne] at hf
            exact h.native f items' hf

theorem loadManifest_tracks : Tracks p.Agrees p.loadManifest (lift p.dependencies) := by
  intro s t h
  unfold loadManifest
  cases hcache : s.manifest with
  | some deps =>
      rw [h.manifest deps hcache]
      exact ⟨rfl, fun _ _ => h⟩
  | none =>
      cases hdeps : p.dependencies with
      | error e => exact ⟨rfl, fun _ h => nomatch h⟩
      | ok deps =>
          refine ⟨rfl, fun _ _ => ⟨h.native, fun deps' hd => ?_, h.lock, h.onStack, h.done,
            h.merged, h.mergedFiles⟩⟩
          cases hd
          exact hdeps

theorem existingLockEntry_keeps (name : String) (s : Loading) (t : Search Path)
    (h : p.Agrees s t) :
    (p.existingLockEntry name s).1 = .value (p.lockEntries.lookup name) ∧
      p.Agrees (p.existingLockEntry name s).2 t := by
  have hlock : s.existingLock.getD p.lockEntries = p.lockEntries := by
    cases hs : s.existingLock with
    | none => rfl
    | some lock => exact h.lock lock hs
  unfold existingLockEntry
  rw [hlock]
  exact ⟨rfl, h.native, h.manifest, fun lock hl => (Option.some.inj hl).symm, h.onStack, h.done,
    h.merged, h.mergedFiles⟩

theorem recordGit_keeps (name : String) (entry : GitLockEntry) (s : Loading) (t : Search Path)
    (h : p.Agrees s t) :
    (recordGit name entry s).1 = .value () ∧ p.Agrees (recordGit name entry s).2 t :=
  ⟨rfl, h.native, h.manifest, h.lock, h.onStack, h.done, h.merged, h.mergedFiles⟩

theorem resolveImportTarget_tracks (source : String) (baseDir : Path) :
    Tracks p.Agrees (p.resolveImportTarget source baseDir)
      (lift (p.importTarget source baseDir)) := by
  unfold resolveImportTarget importTarget
  by_cases hrel : isRelative source
  · rw [if_pos hrel, if_pos hrel]
    exact Tracks.lift _
  rw [if_neg hrel, if_neg hrel, lift_bind]
  refine loadManifest_tracks.bind fun deps => ?_
  cases deps.lookup source with
  | none => exact Tracks.fail _
  | some spec =>
      by_cases hgit : spec.startsWith "git+"
      · simp only [hgit, if_true]
        refine Tracks.bind_left_value _ (existingLockEntry_keeps source) ?_
        rw [lift_bind]
        refine (Tracks.lift _).bind fun checkout => ?_
        exact Tracks.bind_left_value _ (recordGit_keeps source checkout.2) (Tracks.lift _)
      · simp only [hgit]
        exact Tracks.lift _

theorem visitImports_tracks {visit : Path → LoadM Unit} {search : Path → Comp (Search Path) LoadError Empty Unit}
    (hvisit : ∀ f, Tracks p.Agrees (visit f) (search f)) (canon : Path) (items : List SourceItem) :
    Tracks p.Agrees (p.visitImports visit canon items) (follow search (p.importEdges canon items)) := by
  induction items with
  | nil => exact Tracks.pure ()
  | cons item items ih =>
      cases item with
      | declares decl => exact ih
      | imports decl =>
          change Tracks p.Agrees (p.visitImports visit canon (.imports decl :: items))
            (lift (p.importEdge canon decl) >>= fun y => search y >>= fun _ =>
              follow search (p.importEdges canon items))
          rw [visitImports, importEdge, lift_bind, bind_assoc]
          refine (resolveImportTarget_tracks decl.source (parentDir canon)).bind fun target => ?_
          rw [lift_bind, bind_assoc]
          refine (loadNative_tracks target).bind fun targetNative => ?_
          rw [lift_bind, bind_assoc]
          refine (Tracks.lift _).bind fun _ => ?_
          exact (hvisit target).bind fun _ => ih

theorem mergeItems_eq (canon : Path) (items : List SourceItem) (s : Loading) :
    mergeItems canon items s = { s with
      merged := s.merged ++ items.filterMap SourceItem.declaration?
      mergedFiles := s.mergedFiles ++ (items.filterMap SourceItem.declaration?).map fun _ => canon } := by
  induction items generalizing s with
  | nil => simp [mergeItems]
  | cons item items ih =>
      cases item with
      | imports decl => rw [mergeItems, ih]; rfl
      | declares decl =>
          rw [mergeItems, ih]
          simp [SourceItem.declaration?]

theorem finish_tracks {canon : Path} {items : List SourceItem} (h : p.parseFile canon = .ok items) :
    Tracks p.Agrees (finish canon items) (Search.finish canon) := by
  intro s t hst
  have hdecl : p.declarations canon = items.filterMap SourceItem.declaration? := by
    rw [declarations, h]
  refine ⟨rfl, fun _ _ => ?_⟩
  unfold finish
  rw [mergeItems_eq, ← hdecl]
  refine ⟨hst.native, hst.manifest, hst.lock, ?_, ?_, ?_, ?_⟩
  · exact congrArg (fun stack => stack.erase canon) hst.onStack
  · exact congrArg (fun done => canon :: done) hst.done
  · simp [Search.finish, hst.merged]
  · simp [Search.finish, hst.mergedFiles]

theorem enter_tracks (canon : Path) :
    Tracks p.Agrees (enter canon) (Search.enter canon) := by
  intro s t h
  unfold enter Search.enter
  rw [h.onStack]
  by_cases hmem : canon ∈ t.onStack
  · rw [if_pos hmem, if_pos hmem]
    exact ⟨rfl, fun _ _ => h⟩
  · rw [if_neg hmem, if_neg hmem]
    exact ⟨rfl, fun _ _ => ⟨h.native, h.manifest, h.lock, rfl, h.done, h.merged, h.mergedFiles⟩⟩

theorem isDone_tracks (canon : Path) :
    Tracks p.Agrees (isDone canon) (Search.isFinished canon) := by
  intro s t h
  unfold isDone Search.isFinished
  rw [h.done]
  exact ⟨rfl, fun _ _ => h⟩

/-- The loader searches the import graph. -/
theorem visit_tracks (fuel : Nat) (canon : Path) :
    Tracks p.Agrees (p.visit fuel canon) (p.importGraph.visit fuel canon) := by
  induction fuel generalizing canon with
  | zero => exact Tracks.exhausted
  | succ fuel ih =>
      rw [visit, EdgeMap.visit]
      refine (isDone_tracks canon).bind fun seen => ?_
      cases seen with
      | true => exact Tracks.pure ()
      | false =>
          refine (enter_tracks canon).bind fun fresh => ?_
          cases fresh with
          | false => exact Tracks.fail _
          | true =>
              have hedges : p.importGraph.edges canon =
                  p.parseFile canon >>= fun items => .ok (p.importEdges canon items) := by
                change (p.parseFile canon).map (p.importEdges canon) = _
                cases p.parseFile canon <;> rfl
              simp only [if_true]
              rw [hedges, lift_bind, bind_assoc]
              refine (loadNative_tracks canon).bind_lift fun items hitems => ?_
              exact (visitImports_tracks ih canon items).bind fun _ => finish_tracks hitems

theorem visitImports_extends {visit visit' : Path → LoadM Unit}
    (h : ∀ f, Extends (visit f) (visit' f)) (canon : Path) (items : List SourceItem) :
    Extends (p.visitImports visit canon items) (p.visitImports visit' canon items) := by
  induction items with
  | nil => exact Extends.refl _
  | cons item items ih =>
      cases item with
      | declares decl => exact ih
      | imports decl =>
          refine (Extends.refl _).bind fun target => ?_
          refine (Extends.refl _).bind fun targetNative => ?_
          exact (Extends.refl _).bind fun _ => (h target).bind fun _ => ih

theorem visit_extends (fuel extra : Nat) (canon : Path) :
    Extends (p.visit fuel canon) (p.visit (fuel + extra) canon) := by
  induction fuel generalizing canon with
  | zero => exact Extends.exhausted _
  | succ fuel ih =>
      rw [Nat.succ_add_eq_add_succ, Nat.add_succ]
      refine (Extends.refl _).bind fun seen => ?_
      cases seen with
      | true => exact Extends.refl _
      | false =>
          refine (Extends.refl _).bind fun fresh => ?_
          cases fresh with
          | false => exact Extends.refl _
          | true =>
              refine (Extends.refl _).bind fun items => ?_
              exact (visitImports_extends ih canon items).bind fun _ => Extends.refl _

/-! ## The graph against the imports -/

theorem checkNames_ok {target canon : Path} {items : List SourceItem} {names : List String} :
    checkNames target canon items names = .ok () ↔
      ∀ name ∈ names, nameExistsInNamespaces items name = true := by
  induction names with
  | nil => simp [checkNames]
  | cons name names ih =>
      rw [checkNames, List.forall_mem_cons]
      by_cases h : nameExistsInNamespaces items name
      · rw [if_pos h, ih]
        exact ⟨fun hrest => ⟨h, hrest⟩, fun hall => hall.2⟩
      · rw [if_neg h]
        exact ⟨(fun hfail => nomatch hfail), fun hall => absurd hall.1 h⟩

theorem importEdge_ok {canon g : Path} {decl : ImportDecl} :
    p.importEdge canon decl = .ok g ↔
      p.importTarget decl.source (parentDir canon) = .ok g ∧
        ∃ targetNative, p.parseFile g = .ok targetNative ∧
          ∀ name ∈ decl.names, nameExistsInNamespaces targetNative name = true := by
  unfold importEdge
  constructor
  · intro h
    obtain ⟨target, htarget, h⟩ := except_bind_eq_ok h
    obtain ⟨items, hitems, h⟩ := except_bind_eq_ok h
    obtain ⟨_, hnames, h⟩ := except_bind_eq_ok h
    cases h
    exact ⟨htarget, items, hitems, checkNames_ok.mp hnames⟩
  · rintro ⟨htarget, items, hitems, hnames⟩
    simp only [htarget, hitems, checkNames_ok.mpr hnames, Bind.bind, Except.bind, Pure.pure,
      Except.pure]

theorem mem_importEdges {canon : Path} {items : List SourceItem} {e : Except LoadError Path} :
    e ∈ p.importEdges canon items ↔ ∃ decl, .imports decl ∈ items ∧ p.importEdge canon decl = e := by
  unfold importEdges
  rw [List.mem_map]
  constructor
  · rintro ⟨decl, hdecl, he⟩
    obtain ⟨item, hitem, hsome⟩ := List.mem_filterMap.mp hdecl
    cases item with
    | imports decl' => cases hsome; exact ⟨decl, hitem, he⟩
    | declares _ => exact nomatch hsome
  · rintro ⟨decl, hdecl, he⟩
    exact ⟨decl, List.mem_filterMap.mpr ⟨_, hdecl, rfl⟩, he⟩

theorem edges_ok {f : Path} {es : List (Except LoadError Path)} :
    p.importGraph.edges f = .ok es ↔ ∃ items, p.parseFile f = .ok items ∧ es = p.importEdges f items := by
  change (p.parseFile f).map (p.importEdges f) = .ok es ↔ _
  cases hf : p.parseFile f with
  | error e => exact ⟨(fun h => nomatch h), fun ⟨_, h, _⟩ => nomatch h⟩
  | ok items =>
      constructor
      · intro h
        cases h
        exact ⟨items, rfl, rfl⟩
      · rintro ⟨_, h, rfl⟩
        cases h
        rfl

theorem edge_le_imports : p.importGraph.Edge ≤ p.Imports := by
  intro f g h
  obtain ⟨es, hes, hg⟩ := h
  obtain ⟨items, hitems, rfl⟩ := edges_ok.mp hes
  obtain ⟨decl, hdecl, hedge⟩ := mem_importEdges.mp hg
  exact ⟨items, decl, hitems, hdecl, (importEdge_ok.mp hedge).1⟩

/-- From a file that opens, every import is an edge. -/
theorem Imports.edge {f g : Path} (h : p.Imports f g) (hopens : p.importGraph.Opens f) :
    p.importGraph.Edge f g := by
  obtain ⟨items, decl, hitems, hdecl, htarget⟩ := h
  obtain ⟨es, hes, hall⟩ := hopens
  obtain ⟨items', hitems', rfl⟩ := edges_ok.mp hes
  cases hitems.symm.trans hitems'
  have hmem : p.importEdge f decl ∈ p.importEdges f items := mem_importEdges.mpr ⟨decl, hdecl, rfl⟩
  obtain ⟨g', hg'⟩ := hall _ hmem
  have heq : g' = g := by
    have := (importEdge_ok.mp hg').1.symm.trans htarget
    cases this
    rfl
  subst heq
  exact ⟨_, hes, hg' ▸ hmem⟩

theorem reaches_of_sound {root f : Path} (hsound : p.importGraph.Sound root) (h : p.Reaches root f) :
    p.importGraph.Reaches root f := by
  induction h with
  | refl => exact .refl
  | tail _ himports ih => exact .tail ih (himports.edge (hsound _ ih).1)

theorem sound_iff (root : Path) : p.importGraph.Sound root ↔ p.Mergeable root := by
  constructor
  · intro hsound
    have hopens : ∀ f, p.Reaches root f → p.importGraph.Opens f := fun f hf =>
      (hsound f (reaches_of_sound hsound hf)).1
    refine ⟨fun f hf => ?_, fun f items decl hf hitems hdecl => ?_, fun f hf hcycle => ?_⟩
    · obtain ⟨es, hes, -⟩ := hopens f hf
      obtain ⟨items, hitems, -⟩ := edges_ok.mp hes
      exact ⟨items, hitems⟩
    · obtain ⟨es, hes, hall⟩ := hopens f hf
      obtain ⟨items', hitems', rfl⟩ := edges_ok.mp hes
      cases hitems.symm.trans hitems'
      obtain ⟨g, hg⟩ := hall _ (mem_importEdges.mpr ⟨decl, hdecl, rfl⟩)
      obtain ⟨htarget, targetNative, hrest⟩ := importEdge_ok.mp hg
      exact ⟨g, targetNative, htarget, hrest⟩
    · refine (hsound f (reaches_of_sound hsound hf)).2 ?_
      have hpath : ∀ g, TransGen p.Imports f g → TransGen p.importGraph.Edge f g := by
        intro g hg
        induction hg with
        | single h => exact .single (h.edge (hopens f hf))
        | tail hpath h ih => exact .tail ih (h.edge (hopens _ (hf.trans hpath.to_reflTransGen)))
      exact hpath f hcycle
  · intro hmerge f hf
    have hreach : p.Reaches root f := ReflTransGen.mono edge_le_imports _ _ hf
    obtain ⟨items, hitems⟩ := hmerge.parses f hreach
    refine ⟨⟨_, edges_ok.mpr ⟨items, hitems, rfl⟩, fun e he => ?_⟩, fun hcycle =>
      hmerge.acyclic f hreach (TransGen.mono edge_le_imports _ _ hcycle)⟩
    obtain ⟨decl, hdecl, rfl⟩ := mem_importEdges.mp he
    obtain ⟨g, targetNative, htarget, hrest⟩ := hmerge.resolves f items decl hreach hitems hdecl
    exact ⟨g, importEdge_ok.mpr ⟨htarget, targetNative, hrest⟩⟩

/-- The files that can be read at all. -/
def readable (p : Project) : List Path := p.overlay.map Prod.fst ++ p.disk.files

theorem parseFile_mem {f : Path} {items : List SourceItem} (h : p.parseFile f = .ok items) :
    f ∈ p.readable := by
  unfold parseFile at h
  unfold readable
  cases hover : p.overlay.lookup f with
  | some text =>
      refine List.mem_append_left _ ?_
      by_contra hmem
      have hnone : p.overlay.lookup f = none := List.lookup_eq_none_iff.mpr fun entry hentry =>
        bne_iff_ne.mpr fun heq => hmem (List.mem_map.mpr ⟨entry, hentry, heq.symm⟩)
      exact nomatch hover.symm.trans hnone
  | none =>
      rw [hover] at h
      cases hread : p.disk.readToString f with
      | error e =>
          rw [hread] at h
          exact nomatch h
      | ok text => exact List.mem_append_right _ (p.disk.finite f text hread)

theorem edges_mem {f : Path} {es : List (Except LoadError Path)}
    (h : p.importGraph.edges f = .ok es) : f ∈ p.readable := by
  obtain ⟨items, hitems, -⟩ := edges_ok.mp h
  exact parseFile_mem hitems

/-- What the search has finished when it returns is the merge. -/
theorem merged_of_grown {root : Path} {s : Loading} {t : Search Path}
    (hgrown : p.importGraph.Grown root ⟨[], []⟩ t) (h : p.Agrees s t) :
    p.Merged root t.finished.reverse
      ⟨s.merged, s.touched, s.mergedFiles, s.gitDependencies⟩ := by
  have hsound : p.importGraph.Sound root := hgrown.settled.sound hgrown.here
  refine ⟨List.nodup_reverse.mpr hgrown.settled.nodup, fun f => ?_, h.merged, h.mergedFiles, ?_⟩
  · rw [List.mem_reverse]
    constructor
    · intro hf
      rcases hgrown.added f hf with hf | ⟨hf, -⟩
      · exact nomatch hf
      · exact ReflTransGen.mono edge_le_imports _ _ hf
    · exact fun hf => hgrown.settled.reaches_mem hgrown.here (reaches_of_sound hsound hf)
  · change s.mergedFiles.Pairwise _
    rw [h.mergedFiles, List.pairwise_flatMap]
    constructor
    · intro f hf
      have hmem : f ∈ t.finished := List.mem_reverse.mp hf
      rw [List.pairwise_map]
      refine List.pairwise_of_forall fun _ _ himports => hgrown.settled.acyclic hmem ?_
      exact .single (himports.edge (hgrown.settled.opens hmem))
    · refine hgrown.settled.pairwise.imp_of_mem fun {f g} hf _ hedge a ha b hb himports => ?_
      obtain ⟨_, -, rfl⟩ := List.mem_map.mp ha
      obtain ⟨_, -, rfl⟩ := List.mem_map.mp hb
      exact hedge (himports.edge (hgrown.settled.opens (List.mem_reverse.mp hf)))

/-- The run of `visit` on the entry: how it ends, with any fuel beyond the files. -/
theorem visit_root (root : Path) (fuel : Nat) (hfuel : p.readable.length < fuel) :
    match Loading.result (p.visit fuel root Loading.start) with
    | none => False
    | some (.error _) => ¬ p.Mergeable root
    | some (.ok program) => p.Mergeable root ∧ ∃ order, p.Merged root order program := by
  have htracks := visit_tracks fuel root Loading.start ⟨[], []⟩ (agrees_start (p := p))
  have hends := EdgeMap.visit_ends (ρ := Empty) fuel (EdgeMap.ready_empty (g := p.importGraph) root)
  have hmore := EdgeMap.visit_fuel (ρ := Empty) (fun f es h => edges_mem (p := p) h) fuel
    List.nodup_nil (List.nil_subset _) (by simpa using hfuel)
    (EdgeMap.ready_empty (g := p.importGraph) root)
  rcases hs : p.visit fuel root Loading.start with ⟨o, s⟩
  rcases ht : p.importGraph.visit (ρ := Empty) fuel root ⟨[], []⟩ with ⟨o', t⟩
  rw [hs, ht] at htracks
  rw [ht] at hends hmore
  obtain ⟨rfl, hagrees⟩ := htracks
  cases o with
  | value u =>
      have hgrown : p.importGraph.Grown root ⟨[], []⟩ t := hends
      exact ⟨(sound_iff root).mp (hgrown.settled.sound hgrown.here), t.finished.reverse,
        merged_of_grown hgrown (hagrees u rfl)⟩
  | left v => exact v.elim
  | failed e => exact fun hmerge => hends ((sound_iff root).mpr hmerge)
  | outOfFuel => exact hmore rfl

end Project

namespace System

variable (sys : System)

/-- Enough for every nesting of `visit`: no file is entered twice on one path. -/
def nesting : Nat := sys.overlay.length + sys.disk.files.length + 1

/-- `load_program_full` ends: with the fuel of the nesting, and with any more, it has one
result, which is a program if and only if the files reachable from the entry can be merged,
and is then their merge. -/
theorem load_merges_import_graph (entry : Path) :
    ∃ outcome, (∀ extra, sys.loadProgramFull (sys.nesting + extra) entry = some outcome) ∧
      match outcome with
      | .ok program => ∃ root, sys.canonicalize entry = .ok root ∧
          (sys.project root).Mergeable root ∧
            ∃ order, (sys.project root).Merged root order program
      | .error _ => ∀ root, sys.canonicalize entry = .ok root →
          ¬ (sys.project root).Mergeable root := by
  cases hcanon : sys.canonicalize entry with
  | error e =>
      refine ⟨.error e, fun extra => ?_, fun root hroot => nomatch hroot⟩
      rw [loadProgramFull, hcanon]
  | ok root =>
      have hend := (sys.project root).visit_root root sys.nesting (by
        simp [nesting, Project.readable, project])
      have hrun : ∀ extra, sys.loadProgramFull (sys.nesting + extra) entry =
          Loading.result ((sys.project root).visit (sys.nesting + extra) root Loading.start) := by
        intro extra
        rw [loadProgramFull, hcanon]
      rcases hv : (sys.project root).visit sys.nesting root Loading.start with ⟨o, s⟩
      have hmore : o ≠ .outOfFuel → ∀ extra,
          (sys.project root).visit (sys.nesting + extra) root Loading.start = (o, s) := by
        intro ho extra
        rw [Project.visit_extends sys.nesting extra root _ (by rw [hv]; exact ho), hv]
      rw [hv] at hend
      cases o with
      | value u =>
          obtain ⟨hmerge, order, hmerged⟩ := hend
          refine ⟨.ok ⟨s.merged, s.touched, s.mergedFiles, s.gitDependencies⟩, fun extra => ?_,
            root, rfl, hmerge, order, hmerged⟩
          rw [hrun, hmore (fun h => nomatch h)]
          rfl
      | left v => exact v.elim
      | failed e =>
          refine ⟨.error e, fun extra => ?_, fun root' hroot => ?_⟩
          · rw [hrun, hmore (fun h => nomatch h)]
            rfl
          · cases hroot
            exact hend
      | outOfFuel => exact hend.elim

end System

end CScript.Modules
