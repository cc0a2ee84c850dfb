import FileNaming.Path.Normal
import FileNaming.Text.Blank

/-! A scope bounds how far from a base path a resolved path may lie. The check
compares characters; `Scope.Relates` says the same of segments. -/

namespace FileNaming

inductive Scope
  | fileSystem
  | child
  | descendent
  | descendentOrSelf
deriving DecidableEq, Repr

namespace Scope

def text : Scope → Text
  | fileSystem => "file_system".toList
  | child => "child".toList
  | descendent => "descendent".toList
  | descendentOrSelf => "descendent_or_self".toList

def spellings : List (Text × Scope) :=
  [("file_system".toList, fileSystem), ("filesystem".toList, fileSystem),
   ("child".toList, child),
   ("descendent".toList, descendent), ("descendant".toList, descendent),
   ("descendent_or_self".toList, descendentOrSelf),
   ("descendant_or_self".toList, descendentOrSelf)]

/-- Blanks around the word, its letter case, and `-` for `_` do not count. -/
def ofText (t : Text) : Except NameError Scope :=
  let word := (Text.trim t).map fun c => if c = '-' then '_' else c.toLower
  match spellings.lookup word with
  | some scope => .ok scope
  | none => .error (.unsupportedScope t)

def Relates : Scope → List Text → List Text → Prop
  | fileSystem, _, _ => True
  | child, base, segs => ∃ s, segs = base ++ [s]
  | descendent, base, segs => base <+: segs ∧ base ≠ segs
  | descendentOrSelf, base, segs => base <+: segs

end Scope

namespace Path

def after? : Text → Text → Option Text
  | [], p => some p
  | _ :: _, [] => none
  | c :: base, d :: p => if c = d then after? base p else none

theorem after?_eq_some_iff {base p rest : Text} : after? base p = some rest ↔ p = base ++ rest := by
  induction base generalizing p with
  | nil => simp [after?, eq_comm]
  | cons c base ih =>
    cases p with
    | nil => simp [after?]
    | cons d p =>
      by_cases h : c = d
      · simp [after?, h, ih]
      · simp [after?, h, Ne.symm h]

def isRoot : Text → Bool
  | [c] => c.utf8Size = 1
  | _ => false

def dropSeparator : Text → Text
  | '/' :: t => t
  | t => t

def inScope (base p : Text) (scope : Scope) : Bool :=
  match scope, after? base p with
  | .fileSystem, _ => true
  | _, none => false
  | .child, some rest =>
    rest ≠ [] && (isRoot base || rest.head? = some '/') && '/' ∉ dropSeparator rest
  | .descendent, some rest => rest ≠ [] && (isRoot base || rest.head? = some '/')
  | .descendentOrSelf, some rest => rest = [] || isRoot base || rest.head? = some '/'

end Path
end FileNaming
