import FileNaming.Command.Basic
import FileNaming.Proofs.Text.Pieces

/-! Which argument lists are commands: it is decided by the first word and by how
many arguments follow it, and a list that is no command is kept as one line. -/

namespace FileNaming.Command

def Accepts (word : Text) (count : Nat) : Prop :=
  word ∈ helpWords ∨
  word = "resolve".toList ∧ (count = 2 ∨ count = 3) ∨
  word = "relative".toList ∧ count = 2 ∨
  word = "info".toList ∧ count = 1

instance (word : Text) (count : Nat) : Decidable (Accepts word count) :=
  inferInstanceAs (Decidable (word ∈ helpWords ∨ _ ∧ (_ ∨ _) ∨ _ ∧ _ ∨ _ ∧ _))

variable {arguments : List Text}

theorem ofArguments_help (h : word arguments ∈ helpWords) : ofArguments arguments = help :=
  if_pos h

theorem ofArguments_resolve (h : word arguments = "resolve".toList) :
    ofArguments arguments =
      match arguments.tail with
      | [base, name] => resolve base name none
      | [base, name, scope] => resolve base name (some scope)
      | _ => unknown (Text.join ' ' arguments) := by
  have hhelp : word arguments ∉ helpWords := by
    rw [h]
    decide
  exact (if_neg hhelp).trans (if_pos h)

theorem ofArguments_relative (h : word arguments = "relative".toList) :
    ofArguments arguments =
      match arguments.tail with
      | [start, target] => relative start target
      | _ => unknown (Text.join ' ' arguments) := by
  have hhelp : word arguments ∉ helpWords := by
    rw [h]
    decide
  have hresolve : word arguments ≠ "resolve".toList := by
    rw [h]
    decide
  exact (if_neg hhelp).trans ((if_neg hresolve).trans (if_pos h))

theorem ofArguments_info (h : word arguments = "info".toList) :
    ofArguments arguments =
      match arguments.tail with
      | [uri] => info uri
      | _ => unknown (Text.join ' ' arguments) := by
  have hhelp : word arguments ∉ helpWords := by
    rw [h]
    decide
  have hresolve : word arguments ≠ "resolve".toList := by
    rw [h]
    decide
  have hrelative : word arguments ≠ "relative".toList := by
    rw [h]
    decide
  exact (if_neg hhelp).trans ((if_neg hresolve).trans ((if_neg hrelative).trans (if_pos h)))

theorem ofArguments_of_not_accepts (h : ¬ Accepts (word arguments) arguments.tail.length) :
    ofArguments arguments = unknown (Text.join ' ' arguments) := by
  simp only [Accepts, not_or, not_and] at h
  obtain ⟨hhelp, hresolve, hrelative, hinfo⟩ := h
  by_cases h₁ : word arguments = "resolve".toList
  · rw [ofArguments_resolve h₁]
    have hc := hresolve h₁
    split <;> simp_all
  by_cases h₂ : word arguments = "relative".toList
  · rw [ofArguments_relative h₂]
    have hc := hrelative h₂
    split <;> simp_all
  by_cases h₃ : word arguments = "info".toList
  · rw [ofArguments_info h₃]
    have hc := hinfo h₃
    split <;> simp_all
  unfold ofArguments
  rw [if_neg hhelp, if_neg h₁, if_neg h₂, if_neg h₃]

end FileNaming.Command
