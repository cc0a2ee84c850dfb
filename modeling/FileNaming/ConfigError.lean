import FileNaming.NameError

/-! Why a configuration is refused: it is in use already, its settings cannot be
read, or they do not fit together. -/

namespace FileNaming

inductive LoadFault
  | malformedFile
  | badScope (text : Text)
  | scopeNotText
  | cacheNotTable
  | missingKind
  | badKind
  | badMaxEntries
deriving DecidableEq, Repr

inductive Conflict
  | zeroMaxEntries
  | maxEntriesOfNullCache
deriving DecidableEq, Repr

inductive ConfigError
  | inUse
  | load (fault : LoadFault)
  | invalid (conflict : Conflict)
deriving DecidableEq, Repr

def LoadFault.message : LoadFault → String
  | malformedFile => "the settings file is not well formed"
  | badScope text => (NameError.unsupportedScope text).message
  | scopeNotText => "default_scope is not a text"
  | cacheNotTable => "cache is not a table"
  | missingKind => "cache.kind is missing"
  | badKind => "cache.kind is neither default nor null"
  | badMaxEntries => "cache.max_entries is not a count"

def Conflict.message : Conflict → String
  | zeroMaxEntries => "cache.max_entries must be greater than 0"
  | maxEntriesOfNullCache => "cache.max_entries has no effect with the null cache"

def ConfigError.message : ConfigError → String
  | inUse => "Configuration is already in use"
  | load fault => "Failed to load configuration: " ++ fault.message
  | invalid conflict => "Invalid configuration: " ++ conflict.message

def ConfigError.exitCode : ConfigError → Nat
  | inUse => 6
  | load _ => 6
  | invalid _ => 6

end FileNaming
