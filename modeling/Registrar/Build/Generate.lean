import Registrar.Build.Batch
import Registrar.Build.Cache
import Registrar.Build.Discovery
import Registrar.ProjectFile.Filters

/-!
# Builds

A build reads every header of a project, renders those that changed since the last build, removes
the files of headers that are gone, and lists all generated files in the project files. Every header
is parsed in every build, because the role of a class hangs on all of them; the cache decides only
which files are rendered again.

A build that gets past its settings and its output directory runs to the end: what fails on the way
is counted and told to the user.
-/

namespace Registrar

/-- What an operation on a file tree leaves behind: the tree, the lines for the user, and the
result. -/
structure Outcome (α : Type) where
  tree : FileTree
  log : List Text
  result : Except BuildError α

/-- What a build did. -/
structure Summary where
  headers : Nat := 0
  entities : Nat := 0
  /-- Headers that could not be parsed and files that could not be written. -/
  failures : Nat := 0
  written : Nat := 0
  /-- Files that were left alone. -/
  skipped : Nat := 0
deriving DecidableEq, Repr

namespace Build

/-! ## Settings and macros -/

/-- The directory of a settings file, as the tree knows it. -/
def settingsDir (tree : FileTree) (p : Path) : Path :=
  let dir : Path :=
    match p.parent? with
    | some dir => if dir = [] then "." else dir
    | none => "."
  match tree.canonical dir with
  | .ok dir => dir
  | .error _ => dir

/-- The settings at a path. -/
def readSettings (tree : FileTree) (p : Path) : Except BuildError Settings := do
  let t ← orReadError p (tree.readText p)
  match Settings.read? t with
  | some settings => .ok settings
  | none => .error (.settings p)

/-- The macros that a header defines, and what the user is told. Without the header there are
none. -/
def readMacros (tree : FileTree) (p : Path) : MacroTable × List Text :=
  match tree.readText p with
  | .ok t => (MacroTable.parse t, [])
  | .error e =>
    (MacroTable.empty,
      ["mundi-reflect: warning: macro header " ++ p ++ " unavailable (" ++ e.message ++
        "), using built-in rules only"])

/-- A path in a line for the user: its file name, if it has one. -/
def shownName (p : Path) : Text :=
  p.fileName?.getD p

/-- The line for a failure that does not end the build. -/
def failureLine (e : BuildError) : Text :=
  "  error: " ++ e.message

/-! ## The class graph -/

/-- The graph with the entity of a header. The user is told when the name was declared before. -/
def declare (state : ClassGraph × List Text) (h : ParsedHeader) : ClassGraph × List Text :=
  match h.entity with
  | none => state
  | some e =>
    let (graph, log) := state
    let again :=
      if (graph.get? e.name).isSome then
        ["  warning: " ++ e.name ++ " declared again in " ++ h.path ++ ", keeping the later one"]
      else []
    (graph.insert e, log ++ again)

/-- The graph of parsed headers, and what the user is told. -/
def graphOf (headers : List ParsedHeader) : ClassGraph × List Text :=
  headers.foldl declare (.empty, [])

/-- The role that a name has in a graph. -/
def roleIn (graph : ClassGraph) (name : Text) : Role :=
  match graph.get? name with
  | some e => graph.roleOf e
  | none => .none

/-! ## Rendering -/

/-- A build on its way through the headers. -/
structure Progress where
  tree : FileTree
  log : List Text
  cache : BuildCache
  summary : Summary
  /-- The files of all entities so far. -/
  files : List Path

/-- The tree after a file was written, and whether it was. A file that has the contents already is
left alone. -/
def writeIfChanged (tree : FileTree) (a : Artifact) : Except BuildError (FileTree × Bool) :=
  let write := (orWriteError a.path (tree.writeText a.path a.contents)).map (·, true)
  match tree.readFile a.path with
  | .ok (existing, _) => if existing = Utf8.encode a.contents then .ok (tree, false) else write
  | .error _ => write

/-- The files of one entity on their way, and whether all of them are in place. -/
structure Emission where
  tree : FileTree
  log : List Text
  summary : Summary
  complete : Bool

/-- One more file is put in place. -/
def Emission.add (s : Emission) (a : Artifact) : Emission :=
  match writeIfChanged s.tree a with
  | .ok (tree, true) =>
    { s with
      tree := tree
      log := s.log ++ ["  updated: " ++ shownName a.path]
      summary := { s.summary with written := s.summary.written + 1 } }
  | .ok (tree, false) =>
    { s with tree := tree, summary := { s.summary with skipped := s.summary.skipped + 1 } }
  | .error e =>
    { s with
      log := s.log ++ [failureLine e]
      summary := { s.summary with failures := s.summary.failures + 1 }
      complete := false }

/-- The files of an entity are rendered and put in place. The header is recorded only when all of
them are. -/
def Progress.render (s : Progress) (graph : ClassGraph) (outDir : Path) (h : ParsedHeader)
    (e : Entity) : Progress :=
  let artifacts := Artifact.render e (roleIn graph e.name) (h.path.fileName?.getD []) outDir
  let done := artifacts.foldl Emission.add ⟨s.tree, s.log, s.summary, true⟩
  { s with
    tree := done.tree
    log := done.log
    summary := done.summary
    cache :=
      if done.complete then s.cache.record h.path ⟨h.hash, h.modified, Artifact.paths e outDir⟩
      else s.cache }

/-- One more header. It is left alone when it is unchanged, unless the build is forced. -/
def Progress.step (graph : ClassGraph) (outDir : Path) (force : Bool) (s : Progress)
    (h : ParsedHeader) : Progress :=
  match h.entity with
  | none => s
  | some e =>
    let paths := Artifact.paths e outDir
    let counted : Progress :=
      { s with
        summary := { s.summary with entities := s.summary.entities + 1 }
        files := s.files ++ paths }
    if !force && s.cache.isUnchanged s.tree h.path h.modified then
      { counted with
        summary := { counted.summary with skipped := counted.summary.skipped + paths.length } }
    else
      counted.render graph outDir h e

/-! ## Cleaning up -/

/-- The tree without a file that came of a header that is gone, and what the user is told. A file
that is an artifact of this build stays. -/
def removeStale (files : List Path) (state : FileTree × List Text) (p : Path) :
    FileTree × List Text :=
  let (tree, log) := state
  if files.any p.same then state
  else
    match tree.removeFile p with
    | .ok tree => (tree, log ++ ["  removed: " ++ shownName p])
    | .error .notFound => state
    | .error e => (tree, log ++ ["  warning: could not remove " ++ p ++ ": " ++ e.message])

/-- The headers that keep their entry: those that were parsed to an entity, and those that could not
be parsed. -/
def liveHeaders (headers : List Path) (parsed : List ParsedHeader) : List Path :=
  let unreflected := (parsed.filter (·.entity.isNone)).map (·.path)
  headers.filter fun p => !unreflected.contains p

/-- The cache and the files of headers that are gone are cleaned up, and the cache is saved. -/
def Progress.finish (s : Progress) (live : List Path) (cacheFile : Path) : Progress :=
  let stale := s.cache.stale live
  let dropped :=
    if stale.isEmpty then []
    else ["  dropped " ++ Text.ofNat stale.length ++ " stale cache entries"]
  let (tree, log) :=
    (stale.flatMap (·.artifacts)).foldl (removeStale s.files) (s.tree, s.log ++ dropped)
  let cache := s.cache.prune live
  let (tree, saved) := cache.save tree cacheFile
  let warning :=
    match saved with
    | .ok () => []
    | .error e => ["mundi-reflect: warning: " ++ e.message]
  { s with tree := tree, log := log ++ warning, cache := cache }

/-! ## Project files -/

/-- The directory that a project file's entries are relative to. -/
def projectDir (project : Path) : Path :=
  project.parent?.getD "."

/-- The text at a path is edited, and written back where the edit changes it. -/
def patch (tree : FileTree) (p : Path) (edit : Text → Option Text) :
    Except BuildError (FileTree × Bool) := do
  match edit (← orReadError p (tree.readText p)) with
  | none => return (tree, false)
  | some patched => return (← orWriteError p (tree.writeText p patched), true)

/-- Lists files in a project file. -/
def patchProject (tree : FileTree) (project : Path) (files : List Path) : Outcome Bool :=
  match patch tree project fun t => ProjectFile.addItems? t (projectDir project) files with
  | .ok (tree, changed) => ⟨tree, [], .ok changed⟩
  | .error e => ⟨tree, [], .error e⟩

/-- Lists files in a filters file. A filters file that does not exist is left out. -/
def patchFilters (tree : FileTree) (filters dir : Path) (files : List Path) : Outcome Bool :=
  if tree.contains filters then
    match patch tree filters fun t => ProjectFile.addFilters? t dir files with
    | .ok (tree, changed) => ⟨tree, [], .ok changed⟩
    | .error e => ⟨tree, [], .error e⟩
  else
    ⟨tree, ["mundi-reflect: warning: filters file not found: " ++ filters], .ok false⟩

/-- The lines for the user after a project file was dealt with. -/
def patchLog (p : Path) (outcome : Outcome Bool) : List Text :=
  outcome.log ++
    match outcome.result with
    | .ok true => ["  updated: " ++ shownName p]
    | .ok false => []
    | .error e => ["  warning: " ++ e.message]

/-- Lists files in the project files, if there are any. Failures are only told. -/
def updateProject (tree : FileTree) (layout : Layout) (files : List Path) : FileTree × List Text :=
  match layout.project with
  | none => (tree, [])
  | some project =>
    let listed := patchProject tree project files
    let log :=
      ("mundi-reflect: updating " ++ shownName project ++ "...") :: patchLog project listed
    match layout.filters with
    | none => (listed.tree, log)
    | some filters =>
      let filtered := patchFilters listed.tree filters (projectDir project) files
      (filtered.tree, log ++ patchLog filters filtered)

/-! ## The whole build -/

/-- The last line of a build. -/
def closing (s : Summary) : Text :=
  "mundi-reflect: done! (" ++ Text.ofNat s.written ++ " written, " ++ Text.ofNat s.skipped ++
    " unchanged, " ++ Text.ofNat s.failures ++ " failed)"

/-- What a build knows before it changes anything. -/
structure Plan where
  layout : Layout
  headers : List Path
  batch : Batch
  graph : ClassGraph
  log : List Text

/-- What a build knows of given headers. Reads the macros and the headers. -/
def planOf (tree : FileTree) (layout : Layout) (headers : List Path) : Plan :=
  let (table, macroLog) := readMacros tree layout.macroHeader
  let batch := Batch.read tree table headers
  let (graph, graphLog) := graphOf batch.parsed
  let started : Text := "mundi-reflect: loading macro registry..."
  let counted : List Text :=
    ["  " ++ Text.ofNat table.entries.length ++ " property macros",
     "mundi-reflect: parsing " ++ Text.ofNat headers.length ++ " headers..."]
  let reflected : Text := "  " ++ Text.ofNat graph.classes.size ++ " reflected types"
  ⟨layout, headers, batch, graph,
    started :: macroLog ++ counted ++ batch.failures.map failureLine ++ graphLog ++ [reflected]⟩

/-- Finds the headers of a project and reads them. -/
def plan (tree : FileTree) (settings : Settings) (dir : Path) : Plan :=
  let layout := settings.layout dir
  planOf tree layout
    (Discovery.headers tree layout.sourceRoot ⟨layout.generatedOut, settings.excludeDirs⟩)

/-- Renders what was planned into a tree that has the output directory. -/
def execute (tree : FileTree) (p : Plan) (force : Bool) : FileTree × List Text × Summary :=
  let (cache, cacheLog) := BuildCache.load tree p.layout.cacheFile
  let rendering : Text := "mundi-reflect: generating C++ code..."
  let start : Progress :=
    { tree := tree
      log := p.log ++ rendering :: cacheLog
      cache := cache
      summary := { headers := p.headers.length, failures := p.batch.failures.length }
      files := [] }
  let rendered := p.batch.parsed.foldl (Progress.step p.graph p.layout.generatedOut force) start
  let finished := rendered.finish (liveHeaders p.headers p.batch.parsed) p.layout.cacheFile
  let (tree, projectLog) := updateProject finished.tree p.layout finished.files
  (tree, finished.log ++ projectLog ++ [closing finished.summary], finished.summary)

/-- Builds the project of a settings file. A forced build renders every header. -/
def generate (tree : FileTree) (settingsFile : Path) (force : Bool) : Outcome Summary :=
  match readSettings tree settingsFile with
  | .error e => ⟨tree, [], .error e⟩
  | .ok settings =>
    let p := plan tree settings (settingsDir tree settingsFile)
    match tree.makeDirs p.layout.generatedOut with
    | (tree, .error e) => ⟨tree, p.log, .error (.write p.layout.generatedOut e)⟩
    | (tree, .ok ()) =>
      let (tree, log, summary) := execute tree p force
      ⟨tree, log, .ok summary⟩

/-- Parses one header outside of a project. -/
def parse (tree : FileTree) (header : Path) (macroHeader : Option Path) :
    Outcome (Option Entity) :=
  let (table, log) :=
    match macroHeader with
    | some p => readMacros tree p
    | none => (MacroTable.empty, [])
  ⟨tree, log, (ParsedHeader.read tree table header).map (·.entity)⟩

/-- Removes the cache of a project, so that the next build renders everything. Was there one? -/
def clean (tree : FileTree) (settingsFile : Path) : Outcome Bool :=
  match readSettings tree settingsFile with
  | .error e => ⟨tree, [], .error e⟩
  | .ok settings =>
    let cacheFile := (settings.layout (settingsDir tree settingsFile)).cacheFile
    match tree.removeFile cacheFile with
    | .ok tree => ⟨tree, [], .ok true⟩
    | .error .notFound => ⟨tree, [], .ok false⟩
    | .error e => ⟨tree, [], .error (.write cacheFile e)⟩

end Build

end Registrar
