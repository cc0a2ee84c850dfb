import FileNaming.Path.Resolve
import FileNaming.Proofs.Path.Boundary

/-! Resolving an arbitrary text against a normal base. The text is walked from
the root or from the base; nothing but the walk can fail on the whole file
system, and a narrower scope only refuses places that lie outside of it. -/

namespace FileNaming.Path

def trail (base name : Text) : List Text :=
  (if name.head? = some '/' then [] else segments base) ++ segments (fixSeparators name)

theorem trail_of_head? {base name : Text} (hn : name.head? ≠ some '/') :
    trail base name = segments base ++ segments (fixSeparators name) := by
  rw [trail, if_neg hn]

section Normal
variable {base : Text} (hb : IsNormal base)
include hb

theorem fixSeparators_locate (name : Text) :
    fixSeparators (locate base name) =
      if name.head? = some '/' then fixSeparators name else base ++ '/' :: fixSeparators name := by
  unfold locate
  split
  · rfl
  · rw [fixSeparators_append, fixSeparators_of_notMem hb.notMem_backslash]
    rfl

theorem segments_locate (name : Text) :
    segments (fixSeparators (locate base name)) = trail base name := by
  rw [fixSeparators_locate hb, trail]
  split
  · rfl
  · exact segments_append_slash base (fixSeparators name)

theorem head?_locate (name : Text) : (fixSeparators (locate base name)).head? = some '/' := by
  rw [fixSeparators_locate hb]
  split
  · rename_i hn
    cases name with
    | nil => cases hn
    | cons c name =>
      cases hn
      rfl
  · rw [← hb.ofSegments_segments]
    rfl

theorem normalize_locate (name : Text) :
    normalize (locate base name) =
      match walk (trail base name) with
      | none => .error (.escapesRoot (fixSeparators (locate base name)))
      | some place => .ok (ofSegments place) := by
  rw [normalize_eq_walk, segments_locate hb, head?_locate hb]
  rfl

theorem walk_trail_ordinary {name : Text} {place : List Text}
    (h : walk (trail base name) = some place) : ∀ s ∈ place, Ordinary s := by
  rw [← segments_locate hb] at h
  exact walk_ordinary h

theorem resolve_of_walk_eq_none {name : Text} (h : walk (trail base name) = none)
    (scope : Scope) :
    resolve base name scope = .error (.escapesRoot (fixSeparators (locate base name))) := by
  rw [resolve, normalize_locate hb, h]

theorem resolve_of_walk {name : Text} {place : List Text}
    (h : walk (trail base name) = some place) (scope : Scope) :
    resolve base name scope =
      if inScope base (ofSegments place) scope then .ok (ofSegments place)
      else .error (.invalidDescendantName name) := by
  rw [resolve, normalize_locate hb, h]

theorem resolve_fileSystem_of_walk {name : Text} {place : List Text}
    (h : walk (trail base name) = some place) :
    resolve base name .fileSystem = .ok (ofSegments place) := by
  rw [resolve_of_walk hb h]
  exact if_pos (by simp [inScope])

theorem resolve_fileSystem_cases (name : Text) :
    (∃ p, resolve base name .fileSystem = .ok p) ∨
      ∃ q, resolve base name .fileSystem = .error (.escapesRoot q) := by
  cases h : walk (trail base name) with
  | none => exact .inr ⟨_, resolve_of_walk_eq_none hb h .fileSystem⟩
  | some place => exact .inl ⟨_, resolve_fileSystem_of_walk hb h⟩

theorem resolve_of_escapes {name q : Text}
    (h : resolve base name .fileSystem = .error (.escapesRoot q)) (scope : Scope) :
    resolve base name scope = .error (.escapesRoot q) := by
  cases hw : walk (trail base name) with
  | none =>
    rw [resolve_of_walk_eq_none hb hw] at h ⊢
    exact h
  | some place =>
    rw [resolve_fileSystem_of_walk hb hw] at h
    cases h

theorem resolve_of_fileSystem {name p : Text} (h : resolve base name .fileSystem = .ok p)
    (scope : Scope) :
    IsNormal p ∧ resolve base name scope =
      if scope.Relates (segments base) (segments p) then .ok p
      else .error (.invalidDescendantName name) := by
  cases hw : walk (trail base name) with
  | none =>
    rw [resolve_of_walk_eq_none hb hw] at h
    cases h
  | some place =>
    rw [resolve_fileSystem_of_walk hb hw] at h
    cases h
    have hp : IsNormal (ofSegments place) := ⟨place, walk_trail_ordinary hb hw, rfl⟩
    refine ⟨hp, ?_⟩
    rw [resolve_of_walk hb hw]
    simp only [inScope_iff_relates scope hb hp]

/-- Whatever the name holds, a resolved path is normal and lies in the scope, and
a scope changes the outcome only by refusing, with the name as it was given, the
paths that lie outside of it. -/
theorem resolve_confined (name : Text) (scope : Scope) :
    (∀ p, resolve base name scope = .ok p →
      IsNormal p ∧ scope.Relates (segments base) (segments p)) ∧
    ((∃ p, resolve base name .fileSystem = .ok p) ∨
      ∃ q, resolve base name .fileSystem = .error (.escapesRoot q)) ∧
    (∀ q, resolve base name .fileSystem = .error (.escapesRoot q) →
      resolve base name scope = .error (.escapesRoot q)) ∧
    ∀ p, resolve base name .fileSystem = .ok p →
      (scope.Relates (segments base) (segments p) → resolve base name scope = .ok p) ∧
      (¬ scope.Relates (segments base) (segments p) →
        resolve base name scope = .error (.invalidDescendantName name)) := by
  refine ⟨?_, resolve_fileSystem_cases hb name, ?_, ?_⟩
  · intro p hp
    obtain ⟨p', h⟩ | ⟨q, h⟩ := resolve_fileSystem_cases hb name
    · obtain ⟨hn, hr⟩ := resolve_of_fileSystem hb h scope
      rw [hr] at hp
      split at hp
      · rename_i hs
        cases hp
        exact ⟨hn, hs⟩
      · cases hp
    · rw [resolve_of_escapes hb h scope] at hp
      cases hp
  · intro q h
    exact resolve_of_escapes hb h scope
  · intro p h
    obtain ⟨-, hr⟩ := resolve_of_fileSystem hb h scope
    rw [hr]
    exact ⟨fun hs => if_pos hs, fun hs => if_neg hs⟩

end Normal

theorem resolve_confined_sibling :
    IsNormal "/a".toList ∧
      resolve "/a".toList "..\\ab".toList .descendentOrSelf =
        .error (.invalidDescendantName "..\\ab".toList) := by
  have hb : IsNormal "/a".toList := by decide
  have h := (resolve_confined hb "..\\ab".toList .descendentOrSelf).2.2.2
  exact ⟨hb, (h "/ab".toList rfl).2 (by decide)⟩

end FileNaming.Path
