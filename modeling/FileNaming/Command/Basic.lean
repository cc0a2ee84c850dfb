import FileNaming.Text.Segments

/-! The commands of the tool. The first argument, in any letter case, says which
command it is; one with the wrong number of arguments is as unknown as one of
another name. -/

namespace FileNaming

inductive Command
  | resolve (base name : Text) (scope : Option Text)
  | relative (start target : Text)
  | info (uri : Text)
  | help
  | unknown (line : Text)
deriving DecidableEq, Repr

namespace Command

def word (arguments : List Text) : Text :=
  (arguments.headD []).map Char.toLower

def helpWords : List Text :=
  [[], "help".toList, "-h".toList, "--help".toList]

def ofArguments (arguments : List Text) : Command :=
  let line := unknown (Text.join ' ' arguments)
  if word arguments ∈ helpWords then help
  else if word arguments = "resolve".toList then
    match arguments.tail with
    | [base, name] => resolve base name none
    | [base, name, scope] => resolve base name (some scope)
    | _ => line
  else if word arguments = "relative".toList then
    match arguments.tail with
    | [start, target] => relative start target
    | _ => line
  else if word arguments = "info".toList then
    match arguments.tail with
    | [uri] => info uri
    | _ => line
  else line

def usage : String :=
  "usage: vfs-names <command>\n" ++
  "\n" ++
  "commands:\n" ++
  "  resolve <base-uri> <name> [scope]   resolve a name against a base\n" ++
  "  relative <from-uri> <to-uri>        relative path between two names\n" ++
  "  info <uri>                          show the attributes of a name\n" ++
  "  help                                show this message\n" ++
  "\n" ++
  "scopes: file_system, child, descendent, descendent_or_self"

end Command

end FileNaming
