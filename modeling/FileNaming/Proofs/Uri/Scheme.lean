import FileNaming.Proofs.Text.Case
import FileNaming.Uri.Scheme

/-! The known schemes are schemes in lower case, so a text that begins with one of
them, in any letter case, and a colon is cut there. -/

namespace FileNaming.Scheme

theorem mem_known_of_kind? {scheme : Text} {kind : Kind} (h : kind? scheme = some kind) :
    (scheme, kind) ∈ known := by
  obtain ⟨before, after, hk, -⟩ := List.lookup_eq_some_iff.1 h
  rw [hk]
  simp

theorem spelling_of_mem_known :
    ∀ e ∈ known, e.1.map Char.toLower = e.1 ∧ ':' ∉ e.1 ∧
      (e.1.head?.any Char.isAlpha && e.1.tail.all isSchemeChar) = true := by
  decide

theorem slash_notMem_of_mem_known : ∀ e ∈ known, '/' ∉ e.1 := by
  decide

theorem isAlpha_of_toLower {c : Char} (h : c.toLower.isAlpha = true) : c.isAlpha = true := by
  by_cases hu : c.isUpper = true
  · exact Bool.or_eq_true_iff.2 (.inl hu)
  · rwa [Text.toLower_of_not_isUpper hu] at h

theorem isSchemeChar_of_toLower {c : Char} (h : isSchemeChar c.toLower = true) :
    isSchemeChar c = true := by
  by_cases hu : c.isUpper = true
  · have ha : c.isAlpha = true := Bool.or_eq_true_iff.2 (.inl hu)
    have hn : c.isAlphanum = true := Bool.or_eq_true_iff.2 (.inl ha)
    simp [isSchemeChar, hn]
  · rwa [Text.toLower_of_not_isUpper hu] at h

theorem cut_of_kind?_map {s : Text} {kind : Kind} (h : kind? (s.map Char.toLower) = some kind)
    (rest : Text) : cut (s ++ ':' :: rest) = some (s, rest) := by
  obtain ⟨-, hcolon, hs⟩ := spelling_of_mem_known _ (mem_known_of_kind? h)
  have hc : ':' ∉ s := fun hm => hcolon (List.mem_map_of_mem hm)
  unfold cut
  rw [Text.cutFirst_append hc]
  cases s with
  | nil => cases hs
  | cons c s =>
    simp only [List.map_cons, List.head?_cons, Option.any_some, List.tail_cons,
      Bool.and_eq_true, List.all_eq_true, List.forall_mem_map] at hs
    refine if_pos (Bool.and_eq_true_iff.2 ⟨isAlpha_of_toLower hs.1, List.all_eq_true.2 ?_⟩)
    exact fun d hd => isSchemeChar_of_toLower (hs.2 d hd)

variable {scheme : Text} {kind : Kind} (h : kind? scheme = some kind)
include h

theorem map_toLower_of_kind? : scheme.map Char.toLower = scheme :=
  (spelling_of_mem_known _ (mem_known_of_kind? h)).1

theorem slash_notMem_of_kind? : '/' ∉ scheme :=
  slash_notMem_of_mem_known _ (mem_known_of_kind? h)

theorem cut_of_kind? (rest : Text) : cut (scheme ++ ':' :: rest) = some (scheme, rest) := by
  have hl : kind? (scheme.map Char.toLower) = some kind := by rwa [map_toLower_of_kind? h]
  exact cut_of_kind?_map hl rest

end FileNaming.Scheme
