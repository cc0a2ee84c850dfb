import FileNaming.NameError
import FileNaming.Text.Segments

/-! A path is normalized by walking its segments with a stack: empty segments
and `.` stay in place, `..` goes back one step, and a walk that goes back from
the root has no result. The outcome is in normal form: `/` and ordinary
segments joined by `/`. -/

namespace FileNaming.Path

def here : Text := ['.']

def up : Text := ['.', '.']

def fixSeparators (t : Text) : Text :=
  t.map fun c => if c = '\\' then '/' else c

def segments (p : Text) : List Text :=
  (Text.split '/' p).filter (· ≠ [])

def ofSegments (segs : List Text) : Text :=
  '/' :: Text.join '/' segs

structure Ordinary (s : Text) : Prop where
  ne_nil : s ≠ []
  ne_here : s ≠ here
  ne_up : s ≠ up
  no_slash : '/' ∉ s
  no_backslash : '\\' ∉ s

def IsNormal (p : Text) : Prop :=
  ∃ segs : List Text, (∀ s ∈ segs, Ordinary s) ∧ p = ofSegments segs

def advance (stack : List Text) (s : Text) : Option (List Text) :=
  if s = [] ∨ s = here then some stack
  else if s = up then stack.tail?
  else some (s :: stack)

def walk (segs : List Text) : Option (List Text) :=
  (segs.foldlM advance []).map List.reverse

def normalize (t : Text) : Except NameError Text :=
  match walk (Text.split '/' (fixSeparators t)) with
  | none => .error (.escapesRoot (fixSeparators t))
  | some segs =>
    .ok (if (fixSeparators t).head? = some '/' then ofSegments segs else Text.join '/' segs)

end FileNaming.Path
