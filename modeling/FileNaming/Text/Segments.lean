import FileNaming.Text.Cut

/-! A text is split into pieces at every occurrence of a character, and pieces
are joined by putting the character between them. The two undo each other on
nonempty lists of pieces that are free of the character. -/

namespace FileNaming.Text

def split (c : Char) : Text → List Text
  | [] => [[]]
  | x :: t =>
    if x = c then [] :: split c t
    else
      match split c t with
      | [] => [[x]]
      | p :: ps => (x :: p) :: ps

def join (c : Char) : List Text → Text
  | [] => []
  | [p] => p
  | p :: q :: ps => p ++ c :: join c (q :: ps)

theorem split_ne_nil (c : Char) (t : Text) : split c t ≠ [] := by
  cases t with
  | nil => simp [split]
  | cons x t =>
    by_cases h : x = c
    · simp [split, h]
    · cases hs : split c t <;> simp [split, h, hs]

theorem split_cons_self (c : Char) (t : Text) : split c (c :: t) = [] :: split c t := by
  simp [split]

theorem split_of_notMem {c : Char} {t : Text} (h : c ∉ t) : split c t = [t] := by
  induction t with
  | nil => rfl
  | cons x t ih =>
    simp only [List.mem_cons, not_or] at h
    simp [split, Ne.symm h.1, ih h.2]

theorem split_append {c : Char} {a : Text} (h : c ∉ a) (b : Text) :
    split c (a ++ c :: b) = a :: split c b := by
  induction a with
  | nil => exact split_cons_self c b
  | cons x a ih =>
    simp only [List.mem_cons, not_or] at h
    simp [split, Ne.symm h.1, ih h.2]

theorem notMem_of_mem_split {c : Char} {t p : Text} (h : p ∈ split c t) : c ∉ p := by
  induction t generalizing p with
  | nil => simp_all [split]
  | cons x t ih =>
    by_cases hx : x = c
    · simp only [split, hx, if_true, List.mem_cons] at h
      rcases h with rfl | h
      · simp
      · exact ih h
    · cases hs : split c t with
      | nil => exact absurd hs (split_ne_nil c t)
      | cons q qs =>
        simp only [split, hx, if_false, hs, List.mem_cons] at h
        rcases h with rfl | h
        · have := ih (p := q) (by simp [hs])
          simp [this, Ne.symm hx]
        · exact ih (by simp [hs, h])

theorem join_cons {c : Char} {ps : List Text} (p : Text) (h : ps ≠ []) :
    join c (p :: ps) = p ++ c :: join c ps := by
  cases ps with
  | nil => exact absurd rfl h
  | cons => rfl

theorem join_split (c : Char) (t : Text) : join c (split c t) = t := by
  induction t with
  | nil => rfl
  | cons x t ih =>
    have hne := split_ne_nil c t
    by_cases hx : x = c
    · rw [split, if_pos hx, join_cons _ hne, ih, hx, List.nil_append]
    · cases hs : split c t with
      | nil => exact absurd hs hne
      | cons q qs =>
        rw [hs] at ih
        simp only [split, hx, if_false, hs]
        cases qs with
        | nil => simpa [join] using ih
        | cons r rs => simpa [join] using ih

theorem split_join {c : Char} {ps : List Text} (hne : ps ≠ []) (h : ∀ p ∈ ps, c ∉ p) :
    split c (join c ps) = ps := by
  induction ps with
  | nil => exact absurd rfl hne
  | cons p ps ih =>
    have hp := h p (by simp)
    cases ps with
    | nil => exact split_of_notMem hp
    | cons q qs =>
      rw [join, split_append hp, ih (by simp) fun r hr => h r (by simp_all)]

end FileNaming.Text
