import FileNaming.Text.Segments

/-! Texts put together from parts: where a cut or a split falls when something is
put in front or behind, and what a joined text holds. -/

namespace FileNaming.Text

theorem cutLast_append_left {c : Char} {t a b : Text} (h : cutLast c t = some (a, b)) (u : Text) :
    cutLast c (u ++ t) = some (u ++ a, b) := by
  obtain ⟨rfl, hb⟩ := cutLast_eq_some_iff.1 h
  rw [← List.append_assoc]
  exact cutLast_append hb

theorem cutFirst_append_right {c : Char} {t a b : Text} (h : cutFirst c t = some (a, b))
    (u : Text) : cutFirst c (t ++ u) = some (a, b ++ u) := by
  obtain ⟨rfl, ha⟩ := cutFirst_eq_some_iff.1 h
  rw [List.append_assoc]
  exact cutFirst_append ha

theorem cutFirst_append_of_notMem {c : Char} {u : Text} (h : c ∉ u) (t : Text) :
    cutFirst c (u ++ t) = (cutFirst c t).map fun q => (u ++ q.1, q.2) := by
  induction u with
  | nil => simp
  | cons x u ih =>
    simp only [List.mem_cons, not_or] at h
    simp [cutFirst, Ne.symm h.1, ih h.2, Function.comp_def]

theorem exists_cutLast_cons (c : Char) (t : Text) : ∃ a b, cutLast c (c :: t) = some (a, b) := by
  cases h : cutLast c (c :: t) with
  | none => exact absurd List.mem_cons_self (cutLast_eq_none_iff.1 h)
  | some q => exact ⟨q.1, q.2, rfl⟩

theorem split_append_cons (c : Char) (a b : Text) :
    split c (a ++ c :: b) = split c a ++ split c b := by
  induction a with
  | nil => simp [split]
  | cons x a ih =>
    by_cases hx : x = c
    · simp [split, hx, ih]
    · cases hs : split c a with
      | nil => exact absurd hs (split_ne_nil c a)
      | cons p ps => simp [split, hx, ih, hs]

theorem split_append_of_notMem {c : Char} {u t p : Text} {ps : List Text} (h : c ∉ u)
    (ht : split c t = p :: ps) : split c (u ++ t) = (u ++ p) :: ps := by
  induction u with
  | nil => exact ht
  | cons x u ih =>
    simp only [List.mem_cons, not_or] at h
    simp [split, Ne.symm h.1, ih h.2]

theorem join_ne_nil {c : Char} {ps : List Text} (h : ∀ p ∈ ps, p ≠ []) (hne : ps ≠ []) :
    join c ps ≠ [] := by
  cases ps with
  | nil => exact absurd rfl hne
  | cons p ps =>
    have hp := h p (by simp)
    cases ps <;> simp [join, hp]

theorem head?_join {c : Char} {ps : List Text} (h : ∀ p ∈ ps, p ≠ [] ∧ c ∉ p) :
    (join c ps).head? ≠ some c := by
  cases ps with
  | nil => simp [join]
  | cons p ps =>
    obtain ⟨hne, hp⟩ := h p (by simp)
    cases p with
    | nil => exact absurd rfl hne
    | cons x p =>
      have hx : x ≠ c := fun hx => hp (hx ▸ List.mem_cons_self)
      cases ps <;> simpa [join] using hx

theorem getLast?_join {c : Char} {ps : List Text} (h : ∀ p ∈ ps, p ≠ [] ∧ c ∉ p) :
    (join c ps).getLast? ≠ some c := by
  intro hl
  obtain ⟨t, ht⟩ := List.getLast?_eq_some_iff.1 hl
  have hne : ps ≠ [] := by
    rintro rfl
    cases hl
  have hps : ps = split c t ++ [[]] := by
    rw [← split_join hne fun p hp => (h p hp).2, ht]
    exact split_append_cons c t []
  exact (h [] (by simp [hps])).1 rfl

theorem notMem_join_iff {c : Char} {ps : List Text} (h : ∀ p ∈ ps, c ∉ p) :
    c ∉ join c ps ↔ ps.length ≤ 1 := by
  rcases ps with _ | ⟨p, _ | ⟨q, ps⟩⟩
  · simp [join]
  · simpa [join] using h p (by simp)
  · simp [join]

theorem join_append {c : Char} {ps qs : List Text} (hp : ps ≠ []) (hq : qs ≠ []) :
    join c (ps ++ qs) = join c ps ++ c :: join c qs := by
  induction ps with
  | nil => exact absurd rfl hp
  | cons p ps ih =>
    cases ps with
    | nil => exact join_cons p hq
    | cons r ps =>
      have h := ih (by simp)
      rw [List.cons_append, join_cons p (by simp), h, join, List.append_assoc]
      rfl

theorem getLast?_of_split {c : Char} {t first : Text} {rest : List Text}
    (h : split c t = first :: rest) (hl : rest.getLast? = some []) : t.getLast? = some c := by
  obtain ⟨init, rfl⟩ := List.getLast?_eq_some_iff.1 hl
  have ht : t = join c (first :: init) ++ [c] := by
    rw [← join_split c t, h, ← List.cons_append,
      join_append (List.cons_ne_nil _ _) (List.cons_ne_nil _ _)]
    rfl
  rw [ht, List.getLast?_concat]

theorem split_concat {c x : Char} {t last : Text} {init : List Text}
    (h : split c t = init ++ [last]) (hx : x ≠ c) : split c (t ++ [x]) = init ++ [last ++ [x]] := by
  have hpieces : ∀ p ∈ init ++ [last], c ∉ p := by
    intro p hp
    rw [← h] at hp
    exact notMem_of_mem_split hp
  rw [List.forall_mem_append, List.forall_mem_singleton] at hpieces
  have hlast : split c (last ++ [x]) = [last ++ [x]] :=
    split_of_notMem (by simp [hpieces.2, Ne.symm hx])
  have ht : t = join c (init ++ [last]) := by rw [← h, join_split]
  by_cases hinit : init = []
  · rw [ht, hinit]
    exact hlast
  · rw [ht, join_append hinit (by simp), join, List.append_assoc, List.cons_append,
      split_append_cons, split_join hinit hpieces.1, hlast]

theorem mem_join {c x : Char} {ps : List Text} (h : x ∈ join c ps) : x = c ∨ ∃ p ∈ ps, x ∈ p := by
  induction ps with
  | nil => cases h
  | cons p ps ih =>
    cases ps with
    | nil => exact .inr ⟨p, by simp, h⟩
    | cons q ps =>
      rw [join_cons p (by simp), List.mem_append, List.mem_cons] at h
      rcases h with h | h | h
      · exact .inr ⟨p, by simp, h⟩
      · exact .inl h
      · obtain h | ⟨r, hr, hx⟩ := ih h
        · exact .inl h
        · exact .inr ⟨r, List.mem_cons_of_mem p hr, hx⟩

theorem mem_join_of_mem {c x : Char} {p : Text} {ps : List Text} (hp : p ∈ ps) (hx : x ∈ p) :
    x ∈ join c ps := by
  induction ps with
  | nil => cases hp
  | cons q ps ih =>
    cases ps with
    | nil => rwa [List.mem_singleton.1 hp] at hx
    | cons r ps =>
      rw [join_cons q (by simp), List.mem_append, List.mem_cons]
      rcases List.mem_cons.1 hp with rfl | hp
      · exact .inl hx
      · exact .inr (.inr (ih hp))

theorem join_append_cons_cancel {c : Char} {before after : List Text} {u u' : Text}
    (hb : before ≠ []) (h : join c (before ++ u :: after) = join c (before ++ u' :: after)) :
    u = u' := by
  rw [join_append hb (by simp), join_append hb (by simp)] at h
  have ht := List.append_cancel_left h
  cases after with
  | nil => simpa [join] using ht
  | cons p ps => simpa [join] using ht

theorem mem_of_mem_split {c x : Char} {t p : Text} (hp : p ∈ split c t) (hx : x ∈ p) : x ∈ t := by
  rw [← join_split c t]
  exact mem_join_of_mem hp hx

end FileNaming.Text
