import FileNaming.Path.Attributes
import FileNaming.Proofs.Path.Confinement

/-! Normal paths are fixed by normalizing, and every operation on them gives normal
paths: resolving a name, whatever it holds, and going to the parent. -/

namespace FileNaming.Path

theorem IsNormal.exists_cons {p : Text} (hp : IsNormal p) : ∃ t, p = '/' :: t := by
  obtain ⟨segs, -, rfl⟩ := hp
  exact ⟨Text.join '/' segs, rfl⟩

theorem IsNormal.head? {p : Text} (hp : IsNormal p) : p.head? = some '/' := by
  obtain ⟨t, rfl⟩ := hp.exists_cons
  rfl

theorem walk_of_ordinary {segs : List Text} (h : ∀ s ∈ segs, Ordinary s) :
    walk segs = some segs := by
  rw [walk, foldlM_advance_ordinary [] h]
  simp

theorem normalize_of_ordinary {t : Text} (hb : '\\' ∉ t) (h : ∀ s ∈ segments t, Ordinary s) :
    normalize t =
      .ok (if t.head? = some '/' then ofSegments (segments t) else Text.join '/' (segments t)) := by
  rw [normalize_eq_walk, fixSeparators_of_notMem hb, walk_of_ordinary h]

theorem IsNormal.normalize_eq {p : Text} (hp : IsNormal p) : normalize p = .ok p := by
  rw [normalize_of_ordinary hp.notMem_backslash hp.ordinary, if_pos hp.head?,
    hp.ofSegments_segments]

theorem isNormal_of_normalize {t p : Text} (ht : (fixSeparators t).head? = some '/')
    (h : normalize t = .ok p) : IsNormal p := by
  rw [normalize_eq_walk] at h
  cases hw : walk (segments (fixSeparators t)) with
  | none =>
    rw [hw] at h
    cases h
  | some place =>
    simp only [hw, ht, if_true, Except.ok.injEq] at h
    exact ⟨place, walk_ordinary hw, h.symm⟩

theorem isNormal_of_resolve {base name p : Text} {scope : Scope} (hb : IsNormal base)
    (h : resolve base name scope = .ok p) : IsNormal p := by
  cases hn : normalize (locate base name) with
  | error e =>
    rw [resolve, hn] at h
    cases h
  | ok q =>
    have hq : IsNormal q := isNormal_of_normalize (head?_locate hb name) hn
    rw [resolve, hn] at h
    dsimp only at h
    split at h
    · cases h
      exact hq
    · cases h

theorem parent?_root : parent? (ofSegments []) = none := by decide

theorem cutLast_ofSegments {s : Text} (hs : '/' ∉ s) (segs : List Text) :
    Text.cutLast '/' (ofSegments (segs ++ [s])) =
      some (if segs = [] then [] else ofSegments segs, s) := by
  by_cases hne : segs = []
  · rw [if_pos hne, hne]
    exact Text.cutLast_append (a := []) hs
  · rw [if_neg hne, ofSegments_append hne (by simp)]
    exact Text.cutLast_append hs

theorem parent?_ofSegments {segs : List Text} {s : Text} (hs : Ordinary s) :
    parent? (ofSegments (segs ++ [s])) = some (ofSegments segs) := by
  unfold parent?
  rw [cutLast_ofSegments hs.no_slash]
  by_cases hne : segs = []
  · simp [hne, hs.ne_nil, ofSegments, Text.join]
  · simp [hne, hs.ne_nil, ofSegments]

theorem parent?_eq {p : Text} (hp : IsNormal p) :
    parent? p = if segments p = [] then none else some (ofSegments (segments p).dropLast) := by
  obtain ⟨segs, hs, rfl⟩ := hp
  rw [segments_ofSegments hs]
  obtain rfl | ⟨init, s, rfl⟩ := List.eq_nil_or_concat segs
  · exact parent?_root
  · rw [List.concat_eq_append] at hs ⊢
    rw [parent?_ofSegments (hs s (by simp)), if_neg (by simp), List.dropLast_concat]

theorem isNormal_of_parent? {p q : Text} (hp : IsNormal p) (h : parent? p = some q) :
    IsNormal q := by
  rw [parent?_eq hp] at h
  obtain ⟨-, hq⟩ := Option.ite_none_left_eq_some.1 h
  cases hq
  exact ⟨_, fun s hs => hp.ordinary s (List.dropLast_subset _ hs), rfl⟩

end FileNaming.Path
