/-! Texts are lists of characters. A cut takes a text apart at one occurrence
of a character, the first or the last, and leaves that character out. -/

namespace FileNaming

abbrev Text := List Char

namespace Text

def cutFirst (c : Char) : Text → Option (Text × Text)
  | [] => none
  | x :: t =>
    if x = c then some ([], t)
    else (cutFirst c t).map fun p => (x :: p.1, p.2)

def cutLast (c : Char) : Text → Option (Text × Text)
  | [] => none
  | x :: t =>
    match cutLast c t with
    | some p => some (x :: p.1, p.2)
    | none => if x = c then some ([], t) else none

theorem cutFirst_eq_none_iff {c : Char} {t : Text} : cutFirst c t = none ↔ c ∉ t := by
  induction t with
  | nil => simp [cutFirst]
  | cons x t ih => by_cases h : x = c <;> simp [cutFirst, h, Ne.symm, ih]

theorem cutFirst_eq_some_iff {c : Char} {t a b : Text} :
    cutFirst c t = some (a, b) ↔ t = a ++ c :: b ∧ c ∉ a := by
  induction t generalizing a with
  | nil => simp [cutFirst]
  | cons x t ih =>
    by_cases h : x = c
    · subst h
      cases a <;> simp [cutFirst]
      rintro rfl
      simp
    · cases a with
      | nil => simp [cutFirst, h]
      | cons y a =>
        simp only [cutFirst, h, if_false, Option.map_eq_some_iff, Prod.exists, Prod.mk.injEq,
          List.cons.injEq, List.cons_append, List.mem_cons, not_or]
        constructor
        · rintro ⟨u, v, huv, ⟨rfl, rfl⟩, rfl⟩
          exact ⟨⟨rfl, (ih.1 huv).1⟩, Ne.symm h, (ih.1 huv).2⟩
        · rintro ⟨⟨rfl, ht⟩, _, ha⟩
          exact ⟨a, b, ih.2 ⟨ht, ha⟩, ⟨rfl, rfl⟩, rfl⟩

theorem cutLast_eq_none_iff {c : Char} {t : Text} : cutLast c t = none ↔ c ∉ t := by
  induction t with
  | nil => simp [cutLast]
  | cons x t ih =>
    cases h : cutLast c t with
    | some p => simp [cutLast, h, ← ih]
    | none =>
      have hc := ih.1 h
      by_cases hx : x = c <;> simp [cutLast, h, hx, hc, @eq_comm _ c]

theorem cutLast_eq_some_iff {c : Char} {t a b : Text} :
    cutLast c t = some (a, b) ↔ t = a ++ c :: b ∧ c ∉ b := by
  induction t generalizing a b with
  | nil => simp [cutLast]
  | cons x t ih =>
    cases h : cutLast c t with
    | some p =>
      have hp := ih.1 h
      have hmem : c ∈ t := by simp [hp.1]
      cases a with
      | nil =>
        simp only [cutLast, h, Option.some.injEq, Prod.mk.injEq, reduceCtorEq, false_and,
          List.nil_append, List.cons.injEq, false_iff, not_and, and_imp]
        rintro - rfl hb
        exact hb hmem
      | cons y a =>
        have hih := ih (a := a) (b := b)
        rw [h] at hih
        simp only [cutLast, h, Option.some.injEq, Prod.mk.injEq, List.cons.injEq,
          List.cons_append, and_assoc]
        simp only [Option.some.injEq, Prod.ext_iff] at hih
        rw [hih]
    | none =>
      have hc := cutLast_eq_none_iff.1 h
      cases a with
      | nil =>
        by_cases hx : x = c
        · subst hx
          simp only [cutLast, h, if_true, Option.some.injEq, Prod.mk.injEq, true_and,
            List.nil_append, List.cons.injEq]
          exact ⟨fun e => e ▸ ⟨rfl, hc⟩, And.left⟩
        · simp [cutLast, h, hx]
      | cons y a =>
        by_cases hx : x = c <;> simp [cutLast, h, hx]
        all_goals
          rintro - rfl
          simp at hc

theorem cutFirst_append {c : Char} {a b : Text} (h : c ∉ a) :
    cutFirst c (a ++ c :: b) = some (a, b) :=
  cutFirst_eq_some_iff.2 ⟨rfl, h⟩

theorem cutLast_append {c : Char} {a b : Text} (h : c ∉ b) :
    cutLast c (a ++ c :: b) = some (a, b) :=
  cutLast_eq_some_iff.2 ⟨rfl, h⟩

end Text
end FileNaming
