import FileNaming.Proofs.Path.NormalForm

/-! When a name leaves the root. A name that is taken from the base may go back as many
segments beyond its start as the base is deep. Nothing else about the base counts, so a
name that has a place below one base has one below every base that is as deep. -/

namespace FileNaming.Path

section Relative
variable {base name : Text} (hn : name.head? ≠ some '/')
include hn

theorem walk_trail : walk (trail base name) = walk (segments base ++ pieces name) := by
  rw [trail_of_head? hn]
  unfold walk
  rw [List.foldlM_append, List.foldlM_append]
  refine congrArg _ (congrArg _ (funext fun stack => ?_))
  exact foldlM_advance_filter stack (pieces name)

variable (hb : IsNormal base)
include hb

theorem walk_trail_eq :
    walk (trail base name) =
      if climb (pieces name) ≤ depth base then
        some ((segments base).take (depth base - climb (pieces name)) ++ survivors (pieces name))
      else none :=
  (walk_trail hn).trans (walk_append_of_ordinary hb.ordinary (pieces name))

theorem resolve_of_climb_le (h : climb (pieces name) ≤ depth base) :
    resolve base name .fileSystem =
      .ok (ofSegments
        ((segments base).take (depth base - climb (pieces name)) ++ survivors (pieces name))) := by
  have hw := walk_trail_eq hn hb
  rw [if_pos h] at hw
  exact resolve_fileSystem_of_walk hb hw

theorem resolve_of_lt_climb (h : depth base < climb (pieces name)) (scope : Scope) :
    resolve base name scope = .error (.escapesRoot (base ++ '/' :: fixSeparators name)) := by
  have hw := walk_trail_eq hn hb
  rw [if_neg (Nat.not_le.2 h)] at hw
  rw [resolve_of_walk_eq_none hb hw, fixSeparators_locate hb, if_neg hn]

theorem climb_le_of_resolve {p : Text} (h : resolve base name .fileSystem = .ok p) :
    climb (pieces name) ≤ depth base ∧
      segments p =
        (segments base).take (depth base - climb (pieces name)) ++ survivors (pieces name) := by
  rcases Nat.lt_or_ge (depth base) (climb (pieces name)) with hlt | hle
  · rw [resolve_of_lt_climb hn hb hlt] at h
    cases h
  · have hw := walk_trail_eq hn hb
    rw [if_pos hle] at hw
    rw [resolve_of_climb_le hn hb hle, Except.ok.injEq] at h
    exact ⟨hle, h ▸ segments_ofSegments (walk_trail_ordinary hb hw)⟩

theorem exists_resolve_iff_climb_le :
    (∃ p, resolve base name .fileSystem = .ok p) ↔ climb (pieces name) ≤ depth base := by
  constructor
  · rintro ⟨p, hp⟩
    exact (climb_le_of_resolve hn hb hp).1
  · intro h
    exact ⟨_, resolve_of_climb_le hn hb h⟩

end Relative

/-- A name that is taken from the base fails exactly if in some beginning of it `..`
outnumbers the plain segments by more than the depth of the base, and the failure shows
what was put together. So it has a place below every base that is as deep as one below
which it has a place; a name that is taken from the root does not depend on the base. -/
theorem resolve_escapes_iff_climbs :
    (∀ base name : Text, IsNormal base → name.head? ≠ some '/' → ∀ e,
      resolve base name .fileSystem = .error e ↔
        e = .escapesRoot (base ++ '/' :: fixSeparators name) ∧
          ∃ q, q <+: pieces name ∧ q.countP Plain + depth base < q.count up) ∧
    (∀ base deep name : Text, IsNormal base → IsNormal deep → depth base ≤ depth deep →
      name.head? ≠ some '/' → (∃ p, resolve base name .fileSystem = .ok p) →
        ∃ p, resolve deep name .fileSystem = .ok p) ∧
    ∀ base other name : Text, name.head? = some '/' →
      resolve base name .fileSystem = resolve other name .fileSystem := by
  refine ⟨?_, ?_, ?_⟩
  · intro base name hb hn e
    rw [← lt_climb_iff]
    rcases Nat.lt_or_ge (depth base) (climb (pieces name)) with h | h
    · rw [resolve_of_lt_climb hn hb h, Except.error.injEq]
      exact ⟨fun he => ⟨he.symm, h⟩, fun he => he.1.symm⟩
    · rw [resolve_of_climb_le hn hb h]
      exact iff_of_false nofun fun he => Nat.not_lt.2 h he.2
  · intro base deep name hb hd hle hn h
    rw [exists_resolve_iff_climb_le hn hb] at h
    rw [exists_resolve_iff_climb_le hn hd]
    exact Nat.le_trans h hle
  · intro base other name hn
    have hlocate : locate base name = locate other name := by
      rw [locate, locate, if_pos hn, if_pos hn]
    unfold resolve
    rw [hlocate]
    rfl

theorem resolve_escapes_iff_climbs_at_depth_two :
    IsNormal "/a".toList ∧ IsNormal "/a/b".toList ∧ IsNormal "/u/v/w".toList ∧
      resolve "/a".toList "x/..\\..//../y/z".toList .fileSystem =
        .error (.escapesRoot "/a/x/../..//../y/z".toList) ∧
      resolve "/a/b".toList "x/..\\..//../y/z".toList .fileSystem = .ok "/y/z".toList ∧
      (∃ p, resolve "/u/v/w".toList "x/..\\..//../y/z".toList .fileSystem = .ok p) ∧
      resolve "/a".toList "/../a".toList .fileSystem =
        resolve "/a/b".toList "/../a".toList .fileSystem := by
  have ha : IsNormal "/a".toList := by decide
  have hab : IsNormal "/a/b".toList := by decide
  have hw : IsNormal "/u/v/w".toList := by decide
  have hn : "x/..\\..//../y/z".toList.head? ≠ some '/' := by decide
  have hclimb : depth "/a".toList < climb (pieces "x/..\\..//../y/z".toList) := by decide
  have shallow := resolve_escapes_iff_climbs.1 "/a".toList "x/..\\..//../y/z".toList ha hn
    (.escapesRoot "/a/x/../..//../y/z".toList)
  have deep := resolve_escapes_iff_climbs.2.1 "/a/b".toList "/u/v/w".toList
    "x/..\\..//../y/z".toList hab hw (by decide) hn ⟨"/y/z".toList, rfl⟩
  have rooted := resolve_escapes_iff_climbs.2.2 "/a".toList "/a/b".toList "/../a".toList rfl
  exact ⟨ha, hab, hw, shallow.2 ⟨rfl, lt_climb_iff.1 hclimb⟩, rfl, deep, rooted⟩

end FileNaming.Path
