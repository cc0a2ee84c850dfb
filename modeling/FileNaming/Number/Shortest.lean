import FileNaming.Number.Binary64

/-! The shortest decimal that reads back as a given binary number, and of those
the nearest; of two equally near ones the greater. It is written positionally,
without an exponent, and a whole number without a point. -/

namespace FileNaming.Binary64

/-- A number, and the ends of the interval of those that are rounded to it, all
over one denominator. -/
structure Interval where
  low : Nat
  mid : Nat
  high : Nat
  den : Nat
  closed : Bool

/-- Below a power of two the neighbours lie closer than above it. -/
def interval (m : Nat) (e : Int) : Interval :=
  let scale := power 2 (e - 2)
  ⟨(if m = leastNormal then 4 * m - 1 else 4 * m - 2) * scale, 4 * m * scale, (4 * m + 2) * scale,
    power 2 (2 - e), m % 2 = 0⟩

def scaled (i : Interval) (c : Nat) (k : Int) : Nat × Nat :=
  (c * power 10 k * i.den, power 10 (-k))

def Interval.contains (i : Interval) (c : Nat) (k : Int) : Bool :=
  let (a, b) := scaled i c k
  if i.closed then i.low * b ≤ a && a ≤ i.high * b else i.low * b < a && a < i.high * b

def Interval.magnitude (i : Interval) : Int :=
  let p := ((Text.numeral i.mid).length : Int) - ((Text.numeral i.den).length : Int)
  if i.den * power 10 p ≤ i.mid * power 10 (-p) then p else p - 1

def Interval.floor (i : Interval) (k : Int) : Nat :=
  (i.mid * power 10 (-k)) / (i.den * power 10 k)

def Interval.nearFloor (i : Interval) (c : Nat) (k : Int) : Bool :=
  let (a, b) := scaled i c k
  let (a', _) := scaled i (c + 1) k
  2 * (i.mid * b) < a + a'

def Interval.pick? (i : Interval) (k : Int) : Option Nat :=
  let c := i.floor k
  match i.contains c k, i.contains (c + 1) k with
  | true, true => some (if i.nearFloor c k then c else c + 1)
  | true, false => some c
  | false, true => some (c + 1)
  | false, false => none

def Interval.search (i : Interval) : Nat → Int → Nat × Int
  | 0, k => (i.floor k, k)
  | fuel + 1, k =>
    match i.pick? k with
    | some c => (c, k)
    | none => i.search fuel (k - 1)

/-- Seventeen digits tell all numbers of this format apart. -/
def shortest (m : Nat) (e : Int) : Nat × Int :=
  let i := interval m e
  i.search 17 i.magnitude

def dropFinalZeros (t : Text) : Text :=
  (t.reverse.dropWhile (· = '0')).reverse

def positional (digits : Nat) (scale : Int) : Text :=
  let t := Text.numeral digits
  if 0 ≤ scale then t ++ List.replicate scale.toNat '0'
  else
    let places := (-scale).toNat
    let padded := List.replicate (places + 1 - t.length) '0' ++ t
    let whole := padded.take (padded.length - places)
    match dropFinalZeros (padded.drop (padded.length - places)) with
    | [] => whole
    | part => whole ++ '.' :: part

def sign (negative : Bool) : Text :=
  if negative then ['-'] else []

def text : Binary64 → Text
  | nan => "NaN".toList
  | infinite negative => sign negative ++ "inf".toList
  | finite negative 0 _ => sign negative ++ ['0']
  | finite negative m e => sign negative ++ positional (shortest m e).1 (shortest m e).2

end FileNaming.Binary64
