import FileNaming.Settings.Conversion
import FileNaming.Settings.Environment
import FileNaming.Settings.Layer
import FileNaming.Toml.Document

/-! The loader of the tool. Settings files are written in TOML. File and environment are
laid over one another first, and what both give together over the defaults; only what is
left in the end is converted. A value of the file that the environment turns into a table
leaves no trace. -/

namespace FileNaming

namespace Settings

def ofValue (v : Value) : Except LoadFault Settings :=
  match ((v.entries.lookup "default_scope".toList).getD .missing).asScope with
  | .error e => .error e
  | .ok scope =>
    match ((v.entries.lookup "cache".toList).getD .missing).asCache with
    | .error e => .error e
    | .ok (kind, maxEntries) => .ok ⟨scope, kind, maxEntries⟩

end Settings

def Loader.standard : Loader where
  file? := Toml.read?
  environment := Environment.layer
  build defaults sources :=
    ((Value.table []).overlay defaults).overlay (sources.foldl Value.overlay (.table [])).entries
  text? := Value.asText?
  variant? := Value.asVariant?
  count? := Value.asCount?
  deserialize := Settings.ofValue

namespace Settings

def load (file : Option Text) (environment : List (Text × Text)) : Except ConfigError Settings :=
  Loader.standard.load file environment

def ofFile (t : Text) : Except ConfigError Settings :=
  Loader.standard.ofFile t

end Settings
end FileNaming
