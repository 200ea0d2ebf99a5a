import Registrar.Build.Error
import Registrar.Json.Reader

/-!
# The build cache

What a build remembers of every header that it rendered: the digest, when the header was changed,
and the files that came of it. The next build leaves a header alone when its time of change is the
recorded one and all of its files are still there. The cache is kept as a JSON file.
-/

namespace Registrar

/-- What is remembered of a header. -/
structure CacheEntry where
  hash : Text
  modified : Moment
  artifacts : List Path
deriving DecidableEq, Repr

/-- What is remembered, by path of the header. -/
structure BuildCache where
  entries : Dict CacheEntry
deriving DecidableEq

namespace Json

/-- The value of a field that an object has exactly once. -/
def field? (fields : List (Text × Json)) (key : Text) : Option Json :=
  match fields.filter fun f => f.1 = key with
  | [(_, v)] => some v
  | _ => none

/-- A text. -/
def text? : Json → Option Text
  | .string t => some t
  | _ => none

/-- A number that is written with digits only and lies below a limit. -/
def natBelow? (limit : Nat) : Json → Option Nat
  | .number written => do
    let n ← Text.digitsValue? 10 written
    if n < limit then some n else none
  | _ => none

/-- An array of texts. -/
def texts? : Json → Option (List Text)
  | .array values => values.mapM text?
  | _ => none

/-- The values of the given fields, each of which an object has exactly once, or of an array with
one value for each. -/
def record? (keys : List Text) : Json → Option (List Json)
  | .object fields => keys.mapM (field? fields)
  | .array values => if values.length = keys.length then some values else none
  | _ => none

end Json

namespace Moment

/-- The names of a moment's parts. -/
def jsonKeys : List Text := ["secs_since_epoch", "nanos_since_epoch"]

/-- The moment as a value. -/
def toJson (m : Moment) : Json :=
  .object (jsonKeys.zip [Json.ofNat m.secs, Json.ofNat m.nanos])

/-- The value has no fields but the given ones. -/
def hasOnly (keys : List Text) : Json → Bool
  | .object fields => fields.all fun f => keys.contains f.1
  | _ => true

/-- The moment that a value is. There may be no other fields. -/
def ofJson? (v : Json) : Option Moment := do
  if hasOnly jsonKeys v then
    match ← v.record? jsonKeys with
    | [secs, nanos] =>
      ofParts? (← secs.natBelow? (Nat.pow 2 64)) (← nanos.natBelow? (Nat.pow 2 32))
    | _ => none
  else
    none

end Moment

namespace CacheEntry

/-- The names of an entry's fields. -/
def jsonKeys : List Text := ["hash", "modified", "artifacts"]

/-- The entry as a value. -/
def toJson (e : CacheEntry) : Json :=
  .object (jsonKeys.zip [.string e.hash, e.modified.toJson, .ofTexts e.artifacts])

/-- The entry that a value is. Other fields are passed over. -/
def ofJson? (v : Json) : Option CacheEntry := do
  match ← v.record? jsonKeys with
  | [hash, modified, artifacts] =>
    return ⟨← hash.text?, ← Moment.ofJson? modified, ← artifacts.texts?⟩
  | _ => none

end CacheEntry

namespace BuildCache

/-- The cache that remembers nothing. -/
def empty : BuildCache :=
  ⟨Dict.empty⟩

/-- What is remembered of a header. -/
def get? (cache : BuildCache) (header : Path) : Option CacheEntry :=
  cache.entries.get? header

/-- The cache with an entry for a header, in place of an older one. -/
def record (cache : BuildCache) (header : Path) (entry : CacheEntry) : BuildCache :=
  ⟨cache.entries.insert header entry⟩

/-- The header was recorded with the same time of change, and all that came of it is still there.
Contents are not compared. -/
def isUnchanged (cache : BuildCache) (tree : FileTree) (header : Path) (modified : Moment) : Bool :=
  match cache.get? header with
  | some entry => entry.modified = modified && entry.artifacts.all tree.contains
  | none => false

/-- The entries of headers that are not live, by path. -/
def stale (cache : BuildCache) (live : List Path) : List CacheEntry :=
  (cache.entries.filter fun header _ => !live.contains header).entries.map Prod.snd

/-- The cache without the entries of headers that are not live. -/
def prune (cache : BuildCache) (live : List Path) : BuildCache :=
  ⟨cache.entries.filter fun header _ => live.contains header⟩

/-! ## The cache file -/

/-- The name of the field with the entries. -/
def entriesKey : Text := "entries"

/-- The cache as a value. -/
def toJson (cache : BuildCache) : Json :=
  .object [(entriesKey, .object (cache.entries.entries.map fun (header, e) => (header, e.toJson)))]

/-- The cache as a text. -/
def write (cache : BuildCache) : Text :=
  cache.toJson.pretty

/-- The entries that a value has by path; of two for one path, the later counts. -/
def ofEntries? : Json → Option BuildCache
  | .object fields => do
    let entries ← fields.mapM fun (header, v) => (CacheEntry.ofJson? v).map (header, ·)
    return ⟨Dict.ofList entries⟩
  | _ => none

/-- The cache that a value is. Where there are no entries the cache is empty, and other fields are
passed over. -/
def ofJson? : Json → Option BuildCache
  | .object fields =>
    match fields.filter fun f => f.1 = entriesKey with
    | [] => some empty
    | [(_, v)] => ofEntries? v
    | _ => none
  | .array [] => some empty
  | .array [v] => ofEntries? v
  | _ => none

/-- The cache that a text is. -/
def read? (t : Text) : Option BuildCache := do
  ofJson? (← Json.read? t)

/-- The cache at a path, and what the user is told. It is empty when there is no readable file. -/
def load (tree : FileTree) (p : Path) : BuildCache × List Text :=
  match tree.readText p with
  | .error _ => (empty, [])
  | .ok t =>
    match read? t with
    | some cache => (cache, [])
    | none => (empty, ["mundi-reflect: warning: ignoring unreadable cache " ++ p])

/-- The tree after the cache was put at a path, and whether that failed. Where it is the directory
for the cache that cannot be made, the failure is about the directory. -/
def save (cache : BuildCache) (tree : FileTree) (p : Path) : FileTree × Except BuildError Unit :=
  match tree.makeHome p with
  | (tree, .error e) => (tree, .error (.write (p.parent?.getD p) e))
  | (tree, .ok ()) => (tree.settle (tree.writeText p cache.write)).map id (orWriteError p)

end BuildCache

end Registrar
