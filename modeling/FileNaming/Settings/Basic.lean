import FileNaming.Cache.Session
import FileNaming.ConfigError
import FileNaming.Path.Scope
import FileNaming.Settings.Value

/-! The settings of a run: the default scope and the files cache. They come from
defaults, a settings file and the environment. Reading the file, finding the
variables, merging and converting are a loader's; what it gives is checked here. -/

namespace FileNaming

inductive CacheKind
  | default
  | null
deriving DecidableEq, Repr

namespace CacheKind

def text : CacheKind → Text
  | default => "default".toList
  | null => "null".toList

def ofText? (t : Text) : Option CacheKind :=
  if t = default.text then some default else if t = null.text then some null else none

end CacheKind

structure Settings where
  defaultScope : Scope
  kind : CacheKind
  maxEntries : Option Nat
deriving DecidableEq, Repr

namespace Settings

def defaults : List (Text × Value) :=
  [("default_scope".toList, .text Scope.fileSystem.text),
   ("cache.kind".toList, .text CacheKind.default.text)]

def conflict? (s : Settings) : Option Conflict :=
  if s.maxEntries = some 0 then some .zeroMaxEntries
  else if s.kind = .null ∧ s.maxEntries.isSome then some .maxEntriesOfNullCache
  else none

def check (s : Settings) : Except ConfigError Settings :=
  match s.conflict? with
  | some c => .error (.invalid c)
  | none => .ok s

def capacity (s : Settings) : Option Nat :=
  match s.kind with
  | .default => s.maxEntries
  | .null => some 0

def session (s : Settings) : Session :=
  .start (.empty s.capacity) s.defaultScope

end Settings

def Session.fresh : Session :=
  .start (.empty none) .fileSystem

/-- The library that settings are loaded with. `build` merges sources over defaults;
`text?`, `variant?` and `count?` say what a value is read as on its own. -/
structure Loader where
  file? : Text → Option (List (Text × Value))
  environment : List (Text × Text) → List (Text × Value)
  build : List (Text × Value) → List (List (Text × Value)) → Value
  text? : Value → Option Text
  variant? : Value → Option Text
  count? : Value → Option Nat
  deserialize : Value → Except LoadFault Settings

namespace Loader

def ofSources (l : Loader) (sources : List (List (Text × Value))) : Except ConfigError Settings :=
  match l.deserialize (l.build Settings.defaults sources) with
  | .error e => .error (.load e)
  | .ok s => s.check

def load (l : Loader) (file : Option Text) (environment : List (Text × Text)) :
    Except ConfigError Settings :=
  match file.elim (some []) l.file? with
  | none => .error (.load .malformedFile)
  | some es => l.ofSources [es, l.environment environment]

def ofFile (l : Loader) (t : Text) : Except ConfigError Settings :=
  match l.file? t with
  | none => .error (.load .malformedFile)
  | some es => l.ofSources [es]

end Loader
end FileNaming
