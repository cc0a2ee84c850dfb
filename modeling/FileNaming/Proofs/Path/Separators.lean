import FileNaming.Proofs.Path.Cancellation
import FileNaming.Proofs.Path.Confinement

/-! Two spellings of one name, with `\` and with `/`. They are walked alike unless the
name starts with `\`: then it is taken from the base, and its other spelling from the
root. -/

namespace FileNaming.Path

/-- Both spellings give one path, or both fail in one way; a name that lies outside of the
scope is refused as it is spelled. -/
inductive SameOutcome (name name' : Text) : Except NameError Text → Except NameError Text → Prop
  | ok (p : Text) : SameOutcome name name' (.ok p) (.ok p)
  | escapesRoot (q : Text) :
    SameOutcome name name' (.error (.escapesRoot q)) (.error (.escapesRoot q))
  | outOfScope :
    SameOutcome name name' (.error (.invalidDescendantName name))
      (.error (.invalidDescendantName name'))

theorem sameOutcome_ite_iff {name name' p q : Text} {P Q : Prop} [Decidable P] [Decidable Q] :
    SameOutcome name name' (if P then .ok p else .error (.invalidDescendantName name))
        (if Q then .ok q else .error (.invalidDescendantName name')) ↔
      P ∧ Q ∧ p = q ∨ ¬ P ∧ ¬ Q := by
  constructor
  · intro h
    split at h <;> split at h
    · rename_i hP hQ
      cases h
      exact .inl ⟨hP, hQ, rfl⟩
    · cases h
    · cases h
    · rename_i hP hQ
      exact .inr ⟨hP, hQ⟩
  · rintro (⟨hP, hQ, rfl⟩ | ⟨hP, hQ⟩)
    · rw [if_pos hP, if_pos hQ]
      exact .ok p
    · rw [if_neg hP, if_neg hQ]
      exact .outOfScope

theorem fixSeparators_fixSeparators (t : Text) :
    fixSeparators (fixSeparators t) = fixSeparators t :=
  fixSeparators_of_notMem (notMem_fixSeparators t)

theorem head?_fixSeparators_iff {t : Text} :
    (fixSeparators t).head? = some '/' ↔ t.head? = some '/' ∨ t.head? = some '\\' := by
  cases t with
  | nil => simp [fixSeparators]
  | cons c t => by_cases hc : c = '\\' <;> simp [fixSeparators, hc]

section Leading
variable (base : Text) {name : Text} (hn : name.head? = some '\\')
include hn

theorem trail_of_backslash :
    trail base name = segments base ++ segments (fixSeparators name) :=
  trail_of_head? (by simp [hn])

theorem trail_fixSeparators_of_backslash :
    trail base (fixSeparators name) = segments (fixSeparators name) := by
  rw [trail, if_pos (head?_fixSeparators_iff.2 (.inr hn)), fixSeparators_fixSeparators]
  rfl

end Leading

section Normal
variable {base : Text} (hb : IsNormal base) {name : Text} (scope : Scope)
include hb

theorem sameOutcome_of_head? (hn : name.head? ≠ some '\\') :
    SameOutcome name (fixSeparators name) (resolve base name scope)
      (resolve base (fixSeparators name) scope) := by
  have hhead : (fixSeparators name).head? = some '/' ↔ name.head? = some '/' := by
    rw [head?_fixSeparators_iff, or_iff_left hn]
  have hlocate : fixSeparators (locate base (fixSeparators name)) =
      fixSeparators (locate base name) := by
    rw [fixSeparators_locate hb, fixSeparators_locate hb, fixSeparators_fixSeparators]
    simp only [hhead]
  have htrail : trail base (fixSeparators name) = trail base name := by
    rw [← segments_locate hb, hlocate, segments_locate hb]
  cases hw : walk (trail base name) with
  | none =>
    rw [resolve_of_walk_eq_none hb hw, resolve_of_walk_eq_none hb (htrail ▸ hw), hlocate]
    exact .escapesRoot _
  | some place =>
    rw [resolve_of_walk hb hw, resolve_of_walk hb (htrail ▸ hw)]
    split
    · exact .ok _
    · exact .outOfScope

section Leading
variable (hn : name.head? = some '\\')
include hn

theorem not_sameOutcome_of_walk_eq_none
    (hw : walk (segments (fixSeparators name)) = none) :
    ¬ SameOutcome name (fixSeparators name) (resolve base name scope)
      (resolve base (fixSeparators name) scope) := by
  rw [← trail_fixSeparators_of_backslash base hn] at hw
  have hfixed : resolve base (fixSeparators name) scope =
      .error (.escapesRoot (fixSeparators name)) := by
    rw [resolve_of_walk_eq_none hb hw, fixSeparators_locate hb,
      if_pos (head?_fixSeparators_iff.2 (.inr hn)), fixSeparators_fixSeparators]
  intro hs
  rw [hfixed] at hs
  cases hraw : walk (trail base name) with
  | none =>
    rw [resolve_of_walk_eq_none hb hraw, fixSeparators_locate hb, if_neg (by simp [hn])] at hs
    generalize hq : base ++ '/' :: fixSeparators name = q at hs
    cases hs
    have hl := congrArg List.length hq
    rw [List.length_append, List.length_cons] at hl
    omega
  | some place =>
    rw [resolve_of_walk hb hraw] at hs
    split at hs <;> cases hs

theorem sameOutcome_of_walk_iff {place : List Text}
    (hw : walk (segments (fixSeparators name)) = some place) :
    SameOutcome name (fixSeparators name) (resolve base name scope)
        (resolve base (fixSeparators name) scope) ↔
      base = ['/'] ∨ ¬ scope.Relates (segments base) place ∧
        ¬ scope.Relates (segments base) (segments base ++ place) := by
  have hp : ∀ s ∈ place, Ordinary s := walk_ordinary hw
  have hbp : ∀ s ∈ segments base ++ place, Ordinary s := fun s hs =>
    (List.mem_append.1 hs).elim (hb.ordinary s) (hp s)
  have hraw : walk (trail base name) = some (segments base ++ place) := by
    rw [walk_eq] at hw
    obtain ⟨hc, hsurv⟩ := Option.ite_none_right_eq_some.1 hw
    rw [trail_of_backslash base hn, walk_append_of_ordinary hb.ordinary, hc, Option.some.inj hsurv]
    simp
  have hfixed : walk (trail base (fixSeparators name)) = some place := by
    rw [trail_fixSeparators_of_backslash base hn, hw]
  -- the root alone does not move what is put below it
  have hsame : ofSegments (segments base ++ place) = ofSegments place ↔ base = ['/'] := by
    constructor
    · intro he
      have hnil : segments base = [] :=
        List.append_left_eq_self.1 (ofSegments_injective hbp hp he)
      rw [← hb.ofSegments_segments, hnil]
      rfl
    · rintro rfl
      rfl
  rw [resolve_of_walk hb hraw, resolve_of_walk hb hfixed, sameOutcome_ite_iff, hsame]
  simp only [inScope_iff_relates scope hb ⟨_, hbp, rfl⟩, inScope_iff_relates scope hb ⟨_, hp, rfl⟩,
    segments_ofSegments hbp, segments_ofSegments hp]
  constructor
  · rintro (⟨-, -, hroot⟩ | ⟨hr, hf⟩)
    · exact .inl hroot
    · exact .inr ⟨hf, hr⟩
  · rintro (rfl | ⟨hf, hr⟩)
    · exact (Classical.em (scope.Relates [] place)).imp (fun hr => ⟨hr, hr, rfl⟩)
        (fun hr => ⟨hr, hr⟩)
    · exact .inr ⟨hr, hf⟩

end Leading
end Normal

/-- The two spellings of a name have one outcome against every base and in every scope
just when the name does not start with `\`. If it does, they have one if the name has a
place from the root and either the base is the root or the scope refuses both that place
and the same place below the base. -/
theorem sameOutcome_fixSeparators_iff (name : Text) :
    ((∀ base, IsNormal base → ∀ scope, SameOutcome name (fixSeparators name)
        (resolve base name scope) (resolve base (fixSeparators name) scope)) ↔
      name.head? ≠ some '\\') ∧
    ∀ base, IsNormal base → ∀ scope : Scope,
      (SameOutcome name (fixSeparators name) (resolve base name scope)
          (resolve base (fixSeparators name) scope) ↔
        (name.head? = some '\\' → ∃ p, resolve base (fixSeparators name) .fileSystem = .ok p ∧
          (base = ['/'] ∨ ¬ scope.Relates (segments base) (segments p) ∧
            ¬ scope.Relates (segments base) (segments base ++ segments p)))) := by
  have pointwise : ∀ base, IsNormal base → ∀ scope : Scope,
      (SameOutcome name (fixSeparators name) (resolve base name scope)
          (resolve base (fixSeparators name) scope) ↔
        (name.head? = some '\\' → ∃ p, resolve base (fixSeparators name) .fileSystem = .ok p ∧
          (base = ['/'] ∨ ¬ scope.Relates (segments base) (segments p) ∧
            ¬ scope.Relates (segments base) (segments base ++ segments p)))) := by
    intro base hb scope
    by_cases hn : name.head? = some '\\'
    · rw [forall_prop_of_true hn]
      have htrail := congrArg walk (trail_fixSeparators_of_backslash base hn)
      cases hw : walk (segments (fixSeparators name)) with
      | none =>
        refine iff_of_false (not_sameOutcome_of_walk_eq_none hb scope hn hw) ?_
        rintro ⟨p, hp, -⟩
        rw [resolve_of_walk_eq_none hb (htrail.trans hw)] at hp
        cases hp
      | some place =>
        have hp : ∀ s ∈ place, Ordinary s := walk_ordinary hw
        rw [sameOutcome_of_walk_iff hb scope hn hw,
          resolve_fileSystem_of_walk hb (htrail.trans hw)]
        simp [segments_ofSegments hp]
    · exact iff_of_true (sameOutcome_of_head? hb scope hn) fun h => absurd h hn
  refine ⟨⟨fun h hn => ?_, fun hn base hb scope => sameOutcome_of_head? hb scope hn⟩, pointwise⟩
  have hb : IsNormal "/a".toList := by decide
  obtain ⟨p, -, hroot | ⟨hrefused, -⟩⟩ := (pointwise _ hb .fileSystem).1 (h _ hb .fileSystem) hn
  · exact absurd hroot (by decide)
  · exact hrefused trivial

theorem sameOutcome_fixSeparators_leading_backslash :
    IsNormal "/a".toList ∧
      resolve "/a".toList "\\b".toList .fileSystem = .ok "/a/b".toList ∧
      resolve "/a".toList "/b".toList .fileSystem = .ok "/b".toList ∧
      ¬ SameOutcome "\\b".toList "/b".toList (resolve "/a".toList "\\b".toList .fileSystem)
        (resolve "/a".toList "/b".toList .fileSystem) ∧
      SameOutcome "\\".toList "/".toList (resolve "/a".toList "\\".toList .descendent)
        (resolve "/a".toList "/".toList .descendent) := by
  have hb : IsNormal "/a".toList := by decide
  have sibling := (sameOutcome_fixSeparators_iff "\\b".toList).2 "/a".toList hb .fileSystem
  have root := (sameOutcome_fixSeparators_iff "\\".toList).2 "/a".toList hb .descendent
  refine ⟨hb, rfl, rfl, fun h => ?_, root.2 fun _ => ⟨"/".toList, rfl, .inr (by decide)⟩⟩
  obtain ⟨p, -, hroot | ⟨hrefused, -⟩⟩ := sibling.1 h rfl
  · exact absurd hroot (by decide)
  · exact hrefused trivial

end FileNaming.Path
