import FileNaming.Path.Normal

/-! What can be read off a path alone: the base name after the last separator,
the extension, the parent and the depth. -/

namespace FileNaming.Path

def baseName (p : Text) : Text :=
  match Text.cutLast '/' p with
  | some (_, b) => b
  | none => p

def extension (name : Text) : Text :=
  match Text.cutLast '.' name with
  | some (a, b) => if b = [] then [] else a
  | none => []

def parent? (p : Text) : Option Text :=
  match Text.cutLast '/' p with
  | none => none
  | some (a, b) => if b = [] then none else if a = [] then some ['/'] else some a

def depth (p : Text) : Nat :=
  (segments p).length

end FileNaming.Path
