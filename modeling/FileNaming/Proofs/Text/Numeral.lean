import FileNaming.Text.Numeral

/-! Which texts are numerals, and of which number. A reader of numerals gives a number exactly
for the texts that spell it, and a numeral holds no mark but a plus sign. -/

namespace FileNaming.Text

def Spells (t : Text) (n : Nat) : Prop :=
  ∃ digits : Text, (t = digits ∨ t = '+' :: digits) ∧ digits ≠ [] ∧
    (∀ c ∈ digits, c.isDigit = true) ∧ Nat.ofDigitChars 10 digits 0 = n

theorem digitsValue?_eq_some_iff {t : Text} {n : Nat} :
    digitsValue? t = some n ↔
      t ≠ [] ∧ (∀ c ∈ t, c.isDigit = true) ∧ Nat.ofDigitChars 10 t 0 = n := by
  rw [digitsValue?, Option.ite_none_right_eq_some, and_assoc]
  simp only [List.all_eq_true, Option.some.injEq]

theorem value?_eq_some_iff {t : Text} {n : Nat} : value? t = some n ↔ Spells t n := by
  unfold value?
  split
  · rename_i t
    rw [digitsValue?_eq_some_iff]
    constructor
    · intro h
      exact ⟨t, .inr rfl, h⟩
    · rintro ⟨digits, rfl | h, hne, hd, hn⟩
      · exact absurd (hd '+' List.mem_cons_self) (by decide)
      · cases h
        exact ⟨hne, hd, hn⟩
  · rename_i hplus
    rw [digitsValue?_eq_some_iff]
    constructor
    · intro h
      exact ⟨t, .inl rfl, h⟩
    · rintro ⟨digits, rfl | h, hne, hd, hn⟩
      · exact ⟨hne, hd, hn⟩
      · exact absurd h (hplus digits)

theorem valueBelow?_eq_some_iff {bound : Nat} {t : Text} {n : Fin bound} :
    valueBelow? bound t = some n ↔ Spells t n.val := by
  rw [← value?_eq_some_iff]
  unfold valueBelow?
  cases value? t with
  | none => simp
  | some m =>
    by_cases hm : m < bound
    · simp [hm, Fin.ext_iff]
    · have hne : m ≠ n.val := fun h => hm (h ▸ n.isLt)
      simp [hm, hne]

theorem valueBelow?_eq_none_iff {bound : Nat} {t : Text} :
    valueBelow? bound t = none ↔ ∀ n : Fin bound, ¬ Spells t n.val := by
  simp only [Option.eq_none_iff_forall_ne_some, ne_eq, valueBelow?_eq_some_iff]

theorem spells_numeral (n : Nat) : Spells (numeral n) n :=
  value?_eq_some_iff.1 (value?_numeral n)

theorem Spells.notMem {t : Text} {n : Nat} (h : Spells t n) {c : Char} (hd : c.isDigit = false)
    (hplus : c ≠ '+') : c ∉ t := by
  obtain ⟨digits, ht, -, hdigits, -⟩ := h
  have hc : c ∉ digits := by
    intro hm
    have hdc := hdigits c hm
    rw [hd] at hdc
    cases hdc
  rcases ht with rfl | rfl
  · exact hc
  · rw [List.mem_cons, not_or]
    exact ⟨hplus, hc⟩

end FileNaming.Text
