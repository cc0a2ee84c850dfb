import FileNaming.Text.Cut

/-! Natural numbers in decimal. Reading takes an optional plus sign, any number
of leading zeros and no blank; writing gives the shortest numeral, and reading
it back gives the number. -/

namespace FileNaming.Text

def numeral (n : Nat) : Text :=
  Nat.toDigits 10 n

def digitsValue? (t : Text) : Option Nat :=
  if t ≠ [] ∧ t.all Char.isDigit then some (Nat.ofDigitChars 10 t 0) else none

def value? : Text → Option Nat
  | '+' :: t => digitsValue? t
  | t => digitsValue? t

def valueBelow? (bound : Nat) (t : Text) : Option (Fin bound) :=
  match value? t with
  | some n => if h : n < bound then some ⟨n, h⟩ else none
  | none => none

theorem digitsValue?_numeral (n : Nat) : digitsValue? (numeral n) = some n := by
  have hd : (numeral n).all Char.isDigit = true :=
    List.all_eq_true.2 fun _ hc => Nat.isDigit_of_mem_toDigits (by decide) (by decide) hc
  rw [digitsValue?, if_pos ⟨Nat.toDigits_ne_nil, hd⟩]
  exact congrArg some Nat.ofDigitChars_ten_toDigits

theorem value?_numeral (n : Nat) : value? (numeral n) = some n := by
  have h := digitsValue?_numeral n
  unfold value?
  split
  · rename_i t ht
    have hp : '+' ∈ Nat.toDigits 10 n := by
      change '+' ∈ numeral n
      simp [ht]
    exact absurd (Nat.isDigit_of_mem_toDigits (by decide) (by decide) hp) (by decide)
  · exact h

end FileNaming.Text
