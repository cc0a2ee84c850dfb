import FileNaming.Toml.Node
import FileNaming.Toml.Numeral

/-! Keys and values at the front of a list of tokens. A value is a text, a truth
value, a number, a moment, a list in brackets or a table in braces; a list may
span lines, and a table in braces may not. -/

namespace FileNaming.Toml

open Token

def dropBlank : List Token → List Token
  | .blank _ :: ts => ts
  | ts => ts

def isFiller : Token → Bool
  | .blank _ => true
  | .comment => true
  | .newline => true
  | _ => false

def key? : Token → Option Text
  | .word t => some t
  | .quoted t false => some t
  | _ => none

mutual

def keyPath? : List Token → Option (List Text × List Token)
  | [] => none
  | .blank _ :: ts => keyPath? ts
  | t :: ts =>
    match key? t with
    | none => none
    | some k => (keyTail? ts).map fun p => (k :: p.1, p.2)

def keyTail? : List Token → Option (List Text × List Token)
  | [] => some ([], [])
  | .blank _ :: ts => keyTail? ts
  | .period :: ts => keyPath? ts
  | ts => some ([], ts)

end

def holdsPair (a b : Char) : Text → Bool
  | x :: y :: t => (x = a && y = b) || holdsPair a b (y :: t)
  | _ => false

/-- A word starts a moment if it holds a `T` or, behind its first character, a
minus sign, unless a minus sign stands behind an `e`. -/
def startsDate (w : Text) : Bool :=
  'T' ∈ w || 't' ∈ w || ('-' ∈ w.drop 1 && !holdsPair 'e' '-' w && !holdsPair 'E' '-' w)

def spacedWord : List Token → Text × List Token
  | .blank [' '] :: .word w :: ts => (' ' :: w, ts)
  | ts => ([], ts)

def fractionWord? : List Token → Option (Text × List Token)
  | .period :: .word w :: ts => some ('.' :: w, ts)
  | .period :: _ => none
  | ts => some ([], ts)

def offsetWord? : List Token → Option (Text × List Token)
  | .plus :: .word w :: ts => some ('+' :: w, ts)
  | .plus :: _ => none
  | ts => some ([], ts)

def minuteWord? : List Token → Option (Text × List Token)
  | .colon :: .word w :: ts => some (':' :: w, ts)
  | .colon :: _ => none
  | ts => some ([], ts)

def clock? : List Token → Option (Text × List Token)
  | .word m :: .colon :: .word s :: ts => do
    let (f, ts) ← fractionWord? ts
    let (o, ts) ← offsetWord? ts
    let (om, ts) ← minuteWord? ts
    return (':' :: m ++ ':' :: s ++ f ++ o ++ om, ts)
  | _ => none

def dateTime? (w : Text) (ts : List Token) : Option (Node × List Token) :=
  let (hour, ts) := spacedWord ts
  match ts with
  | .colon :: ts => (clock? ts).map fun p => (.moment (w ++ hour ++ p.1), p.2)
  | ts => some (.moment (w ++ hour), ts)

def timeOfDay? (w : Text) (ts : List Token) : Option (Node × List Token) :=
  (clock? ts).map fun p => (.moment (w ++ p.1), p.2)

def ofNumeral : Numeral → Node
  | .integer n => .value (.integer n)
  | .real x => .value (.real x)

def number? (w : Text) (ts : List Token) : Option (Node × List Token) :=
  (Numeral.ofWord? w ts).map fun p => (ofNumeral p.1, p.2)

def startsNumber (w : Text) : Bool :=
  w = "inf".toList || w = "nan".toList ||
    match w with
    | c :: _ => c = '-' || c.isDigit
    | [] => false

def plain? (w : Text) (ts : List Token) : Option (Node × List Token) :=
  if w = "true".toList then some (.value (.truth true), ts)
  else if w = "false".toList then some (.value (.truth false), ts)
  else if !startsNumber w then none
  else if startsDate w then dateTime? w ts
  else
    match ts with
    | .colon :: ts => timeOfDay? w ts
    | ts => number? w ts

def table? (pairs : List (List Text × Node)) : Option Tree :=
  pairs.foldlM (fun t p => Tree.assign? p.1 p.2 t) []

mutual

/-- The value at the front. Every two levels of the reader use up a token, so
twice the number of tokens bounds their depth. -/
def value? : Nat → List Token → Option (Node × List Token)
  | 0, _ => none
  | fuel + 1, ts =>
    match ts with
    | .quoted t _ :: ts => some (.value (.text t), ts)
    | .word w :: ts => plain? w ts
    | .plus :: .word w :: ts => number? w ts
    | .leftBracket :: ts => (items? fuel ts).map fun p => (.list p.1, p.2)
    | .leftBrace :: ts =>
      match dropBlank ts with
      | .rightBrace :: ts => some (.table false [], ts)
      | ts => do
        let (pairs, ts) ← pairs? fuel ts
        let t ← table? pairs
        return (.table false t, ts)
    | _ => none

def items? : Nat → List Token → Option (List Node × List Token)
  | 0, _ => none
  | fuel + 1, ts =>
    match ts.dropWhile isFiller with
    | .rightBracket :: ts => some ([], ts)
    | ts => do
      let (v, ts) ← value? fuel ts
      match ts.dropWhile isFiller with
      | .rightBracket :: ts => return ([v], ts)
      | .comma :: ts =>
        let (vs, ts) ← items? fuel ts
        return (v :: vs, ts)
      | _ => none

def pairs? : Nat → List Token → Option (List (List Text × Node) × List Token)
  | 0, _ => none
  | fuel + 1, ts => do
    let (key, ts) ← keyPath? ts
    match ts with
    | .equals :: ts =>
      let (v, ts) ← value? fuel (dropBlank ts)
      match dropBlank ts with
      | .rightBrace :: ts => return ([(key, v)], ts)
      | .comma :: ts =>
        let (ps, ts) ← pairs? fuel ts
        return ((key, v) :: ps, ts)
      | _ => none
    | _ => none

end

end FileNaming.Toml
