import FileNaming.Text.Numeral

/-! A key of a layer of settings is a path: a name, and steps into tables by
`.name` and into lists by `[index]`. Names are letters, digits, blanks, `-` and
`_`. A key that is not written so is one name as it stands. -/

namespace FileNaming

inductive KeyStep
  | field (name : Text)
  | index (i : Int)
deriving DecidableEq, Repr

abbrev KeyPath := List KeyStep

namespace KeyPath

def isNameChar (c : Char) : Bool :=
  c.isAlphanum || c = ' ' || c = '-' || c = '_'

def isGap (c : Char) : Bool :=
  c = ' ' || c = '\t'

def name? (t : Text) : Option (KeyStep × Text) :=
  match t.takeWhile isNameChar with
  | [] => none
  | name => some (.field name, t.dropWhile isNameChar)

def integer? (t : Text) : Option (Int × Text) :=
  let digits := t.takeWhile Char.isDigit
  let rest := t.dropWhile Char.isDigit
  match Text.digitsValue? digits with
  | some n => if n < Nat.pow 2 63 then some (n, rest) else none
  | none => none

def signed? : Text → Option (Int × Text)
  | '-' :: t => (integer? t).map fun p => (-p.1, p.2)
  | t => integer? t

def index? (t : Text) : Option (KeyStep × Text) :=
  match signed? (t.dropWhile isGap) with
  | none => none
  | some (i, rest) =>
    match rest.dropWhile isGap with
    | ']' :: rest => some (.index i, rest)
    | _ => none

def step? : Text → Option (KeyStep × Text)
  | '.' :: t => name? t
  | '[' :: t => index? t
  | _ => none

def steps? : Nat → Text → Option (List KeyStep)
  | _, [] => some []
  | 0, _ => none
  | fuel + 1, t => do
    let (s, t) ← step? t
    let ss ← steps? fuel t
    return s :: ss

def parsed? (key : Text) : Option KeyPath := do
  let (s, t) ← name? key
  let ss ← steps? t.length t
  return s :: ss

def ofKey (key : Text) : KeyPath :=
  (parsed? key).getD [.field key]

end KeyPath
end FileNaming
