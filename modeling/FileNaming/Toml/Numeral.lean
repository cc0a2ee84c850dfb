import FileNaming.Number.Binary64
import FileNaming.Text.Segments
import FileNaming.Toml.Token

/-! Numbers of the settings format: whole numbers of 64 bits in base ten,
sixteen, eight or two, and decimals with a fraction or an exponent. Single
underscores may stand between digits. -/

namespace FileNaming.Toml

inductive Numeral
  | integer (n : Int)
  | real (x : Binary64)
deriving DecidableEq, Repr

namespace Numeral

def isDigitOf (base : Nat) (c : Char) : Bool :=
  isHexDigit c && hexDigitValue c < base

def digits? (base : Nat) (leadingZeros : Bool) (t : Text) : Option (Text × Text) :=
  let run := t.takeWhile fun c => isDigitOf base c || c = '_'
  let rest := t.dropWhile fun c => isDigitOf base c || c = '_'
  let parts := Text.split '_' run
  if parts.all (· ≠ []) && (leadingZeros || parts.flatten.length = 1 || run.head? ≠ some '0') then
    some (parts.flatten, rest)
  else none

def splitSign : Text → Bool × Text
  | '-' :: t => (true, t)
  | t => (false, t)

def valueIn (base : Nat) (digits : Text) : Nat :=
  digits.foldl (fun n c => base * n + hexDigitValue c) 0

def withSign (negative : Bool) (n : Nat) : Int :=
  if negative then -n else n

def limit : Nat := Nat.pow 2 63

def inRange? (n : Int) : Option Numeral :=
  if -(limit : Int) ≤ n ∧ n < limit then some (integer n) else none

def whole? (t : Text) : Option Numeral :=
  match digits? 10 false (splitSign t).2 with
  | some (ds, []) => inRange? (withSign (splitSign t).1 (valueIn 10 ds))
  | _ => none

def based? (base : Nat) (t : Text) : Option Numeral :=
  match digits? base true t with
  | some (ds, []) => inRange? (valueIn base ds)
  | _ => none

def exponent? (t : Text) (rest : List Token) : Option (Int × List Token) :=
  match t, rest with
  | [], .plus :: .word w :: rest =>
    match digits? 10 true w with
    | some (ds, []) => some (valueIn 10 ds, rest)
    | _ => none
  | t, rest =>
    match digits? 10 true (splitSign t).2 with
    | some (ds, []) => some (withSign (splitSign t).1 (valueIn 10 ds), rest)
    | _ => none

def scale? (t : Text) (rest : List Token) : Option (Int × List Token) :=
  match t with
  | [] => some (0, rest)
  | 'e' :: t => exponent? t rest
  | 'E' :: t => exponent? t rest
  | _ => none

def finite? : Binary64 → Option Numeral
  | .finite negative m e => some (real (.finite negative m e))
  | _ => none

def exponential? (t : Text) (rest : List Token) : Option (Numeral × List Token) := do
  let (ds, suffix) ← digits? 10 false (splitSign t).2
  let (scale, rest) ← scale? suffix rest
  let n ← finite? (.ofDecimal (splitSign t).1 ds scale)
  return (n, rest)

def fractional? (t fraction : Text) (rest : List Token) : Option (Numeral × List Token) := do
  let (ds, suffix) ← digits? 10 false (splitSign t).2
  if suffix ≠ [] then none
  let (fs, suffix) ← digits? 10 true fraction
  let (scale, rest) ← scale? suffix rest
  let n ← finite? (.ofDecimal (splitSign t).1 (ds ++ fs) (scale - fs.length))
  return (n, rest)

def special? (t : Text) : Option Numeral :=
  if t = "inf".toList then some (real (.infinite false))
  else if t = "-inf".toList then some (real (.infinite true))
  else if t = "nan".toList ∨ t = "-nan".toList then some (real .nan)
  else none

def ofWord? (t : Text) (rest : List Token) : Option (Numeral × List Token) :=
  match t with
  | '0' :: 'x' :: ds => (based? 16 ds).map (·, rest)
  | '0' :: 'o' :: ds => (based? 8 ds).map (·, rest)
  | '0' :: 'b' :: ds => (based? 2 ds).map (·, rest)
  | t =>
    if 'e' ∈ t ∨ 'E' ∈ t then exponential? t rest
    else
      match rest with
      | .period :: .word fraction :: rest => fractional? t fraction rest
      | .period :: _ => none
      | rest =>
        match special? t with
        | some n => some (n, rest)
        | none => (whole? t).map (·, rest)

end Numeral
end FileNaming.Toml
