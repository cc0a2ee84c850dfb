import FileNaming.Path.Scope

/-! Resolving a name against a base path: a name that starts with `/` is taken
from the root, any other from the base; the result is normalized and has to lie
in the scope. -/

namespace FileNaming.Path

def locate (base name : Text) : Text :=
  if name.head? = some '/' then name else base ++ '/' :: name

def resolve (base name : Text) (scope : Scope) : Except NameError Text :=
  match normalize (locate base name) with
  | .error e => .error e
  | .ok p => if inScope base p scope then .ok p else .error (.invalidDescendantName name)

end FileNaming.Path
