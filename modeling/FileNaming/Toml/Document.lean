import FileNaming.Toml.Item
import FileNaming.Toml.Section

/-! Settings files. A file is a sequence of lines; a line gives a value to a key
or opens a table with a header. A file is refused as a whole if a line is not
written well or a table that is read is unsound. -/

namespace FileNaming.Toml

inductive Line
  | header (repeated : Bool) (path : List Text)
  | pair (key : List Text) (n : Node)

def endOfLine? : List Token → Option (List Token)
  | [] => some []
  | .newline :: ts => some ts
  | .comment :: ts => some ts
  | _ => none

def header? (ts : List Token) : Option (Line × List Token) :=
  match ts with
  | .leftBracket :: ts => do
    let (path, ts) ← keyPath? ts
    match ts with
    | .rightBracket :: .rightBracket :: ts => return (.header true path, ts)
    | _ => none
  | ts => do
    let (path, ts) ← keyPath? ts
    match ts with
    | .rightBracket :: ts => return (.header false path, ts)
    | _ => none

def pair? (ts : List Token) : Option (Line × List Token) := do
  let (key, ts) ← keyPath? ts
  match ts with
  | .equals :: ts =>
    let (n, ts) ← value? (2 * ts.length + 2) (dropBlank ts)
    return (.pair key n, ts)
  | _ => none

def line? : List Token → Option (Line × List Token)
  | .leftBracket :: ts => header? ts
  | ts => pair? ts

def lines? : Nat → List Token → Option (List Line)
  | 0, _ => none
  | fuel + 1, ts =>
    match ts.dropWhile isFiller with
    | [] => some []
    | ts => do
      let (l, ts) ← line? ts
      let ts ← endOfLine? (dropBlank ts)
      let ls ← lines? fuel ts
      return l :: ls

structure Block where
  repeated : Bool
  path : List Text
  pairs : List (List Text × Node)

def blocks : List Line → List (List Text × Node) × List Block
  | [] => ([], [])
  | .pair key n :: ls =>
    let (top, rest) := blocks ls
    ((key, n) :: top, rest)
  | .header repeated path :: ls =>
    let (pairs, rest) := blocks ls
    ([], ⟨repeated, path, pairs⟩ :: rest)

def Block.section? (b : Block) : Option Section :=
  (table? b.pairs).map fun body => ⟨b.path, b.repeated, body⟩

def sections? (ls : List Line) : Option (List Section) :=
  let (top, rest) := blocks ls
  (⟨false, [], top⟩ :: rest).mapM Block.section?

def read? (t : Text) : Option (List (Text × Value)) := do
  let ts ← Token.ofText? t
  let ls ← lines? (ts.length + 1) ts
  let ss ← sections? ls
  Section.entries? ss

end FileNaming.Toml
