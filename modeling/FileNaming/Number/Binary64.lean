import FileNaming.Text.Numeral

/-! Binary floating point numbers of 64 bits, as a sign, a significand below
`2 ^ 53` and the exponent of the unit of its last place. A decimal is rounded to
the nearest of them, a tie to the even significand. -/

namespace FileNaming

inductive Binary64
  | finite (negative : Bool) (significand : Nat) (exponent : Int)
  | infinite (negative : Bool)
  | nan
deriving DecidableEq, Repr

namespace Binary64

def power (base : Nat) (e : Int) : Nat :=
  Nat.pow base e.toNat

def significandLimit : Nat := Nat.pow 2 53

def leastNormal : Nat := Nat.pow 2 52

def leastExponent : Int := -1074

def greatestExponent : Int := 971

def inUnits (num den : Nat) (e : Int) : Nat × Nat :=
  if 0 ≤ e then (num, den * power 2 e) else (num * power 2 (-e), den)

def roundEven (num den : Nat) : Nat :=
  let q := num / den
  let r := num % den
  if 2 * r < den ∨ 2 * r = den ∧ q % 2 = 0 then q else q + 1

def exponentOf (num den : Nat) : Int :=
  let e := (Nat.log2 num : Int) - (Nat.log2 den : Int) - 53
  let (a, b) := inUnits num den e
  max leastExponent (if significandLimit ≤ a / b then e + 1 else e)

def ofRatio (negative : Bool) (num den : Nat) : Binary64 :=
  let e := exponentOf num den
  let (a, b) := inUnits num den e
  let m := roundEven a b
  let (m, e) := if m = significandLimit then (leastNormal, e + 1) else (m, e)
  if greatestExponent < e then infinite negative else finite negative m e

/-- The digits as a whole number times `10 ^ scale`. No number of this format
reaches `10 ^ 400`, or is closer to zero than `10 ^ (-400)`. -/
def ofDecimal (negative : Bool) (digits : Text) (scale : Int) : Binary64 :=
  let n := Nat.ofDigitChars 10 digits 0
  if n = 0 then finite negative 0 leastExponent
  else if 400 < scale then infinite negative
  else if scale + digits.length < -400 then finite negative 0 leastExponent
  else if 0 ≤ scale then ofRatio negative (n * power 10 scale) 1
  else ofRatio negative n (power 10 (-scale))

def toNatBelow (limit : Nat) : Binary64 → Nat
  | finite true _ _ => 0
  | finite false m e =>
    min limit (if 0 ≤ e then m * power 2 e else (2 * m + power 2 (-e)) / (2 * power 2 (-e)))
  | infinite negative => if negative then 0 else limit
  | nan => 0

end Binary64
end FileNaming
