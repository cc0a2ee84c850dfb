import FileNaming.Proofs.Path.Boundary
import Mathlib.Order.Defs.Unbundled

/-! The order that the scopes put on paths. The segments of one path begin with those of the
other, so what lies strictly below a base is a strict order, what lies at it or below is a
partial order, and all that a path lies at or below is a chain. -/

namespace FileNaming

abbrev NormalPath := { p : Text // Path.IsNormal p }

namespace Scope

/-- The path lies in the scope of the base, as the check has it. -/
def Holds (scope : Scope) (base p : NormalPath) : Prop :=
  Path.inScope base.val p.val scope = true

theorem holds_iff_relates {scope : Scope} {base p : NormalPath} :
    scope.Holds base p ↔ scope.Relates (Path.segments base.val) (Path.segments p.val) :=
  Path.inScope_iff_relates scope base.property p.property

theorem Relates.trans_descendent {a b c : List Text} (hab : descendent.Relates a b)
    (hbc : descendent.Relates b c) : descendent.Relates a c := by
  refine ⟨hab.1.trans hbc.1, ?_⟩
  rintro rfl
  exact hbc.2 (hbc.1.eq_of_length_le hab.1.length_le)

theorem isStrictOrder_descendent : IsStrictOrder NormalPath descendent.Holds where
  irrefl p h := (holds_iff_relates.1 h).2 rfl
  trans a b c hab hbc := by
    rw [holds_iff_relates] at hab hbc ⊢
    exact hab.trans_descendent hbc

theorem isPartialOrder_descendentOrSelf : IsPartialOrder NormalPath descendentOrSelf.Holds where
  refl p := holds_iff_relates.2 List.prefix_rfl
  trans a b c hab hbc := by
    rw [holds_iff_relates] at hab hbc ⊢
    exact List.IsPrefix.trans hab hbc
  antisymm a b hab hba := by
    rw [holds_iff_relates] at hab hba
    have hsegs : Path.segments a.val = Path.segments b.val :=
      List.IsPrefix.eq_of_length_le hab (List.IsPrefix.length_le hba)
    exact Subtype.ext (a.property.eq_of_segments_eq b.property hsegs)

theorem holds_or_holds {a b p : NormalPath} (ha : descendentOrSelf.Holds a p)
    (hb : descendentOrSelf.Holds b p) :
    descendentOrSelf.Holds a b ∨ descendentOrSelf.Holds b a := by
  rw [holds_iff_relates] at ha hb
  rw [holds_iff_relates, holds_iff_relates]
  exact List.prefix_or_prefix_of_prefix ha hb

end Scope

namespace Path
variable {base p : Text}

theorem inScope_descendent_of_child (h : inScope base p .child = true) :
    inScope base p .descendent = true := by
  unfold inScope at h ⊢
  cases ha : after? base p with
  | none => simp [ha] at h
  | some rest =>
    simp only [ha, Bool.and_eq_true] at h ⊢
    exact h.1

theorem inScope_descendentOrSelf_of_descendent (h : inScope base p .descendent = true) :
    inScope base p .descendentOrSelf = true := by
  unfold inScope at h ⊢
  cases ha : after? base p with
  | none => simp [ha] at h
  | some rest =>
    simp only [ha, Bool.and_eq_true, Bool.or_eq_true, or_assoc] at h ⊢
    exact .inr h.2

/-- On normal paths the check of characters decides how the segments of the base begin
those of the path. So the scopes order the paths, and for any two texts a narrower scope
lies in the wider one. -/
theorem inScope_orders :
    (∀ base p : Text, IsNormal base → IsNormal p →
      (inScope base p .child = true ↔ ∃ s, segments p = segments base ++ [s]) ∧
      (inScope base p .descendent = true ↔
        segments base <+: segments p ∧ segments base ≠ segments p) ∧
      (inScope base p .descendentOrSelf = true ↔ segments base <+: segments p)) ∧
    IsStrictOrder NormalPath Scope.descendent.Holds ∧
    IsPartialOrder NormalPath Scope.descendentOrSelf.Holds ∧
    (∀ a b p : NormalPath, Scope.descendentOrSelf.Holds a p → Scope.descendentOrSelf.Holds b p →
      Scope.descendentOrSelf.Holds a b ∨ Scope.descendentOrSelf.Holds b a) ∧
    ∀ base p : Text,
      (inScope base p .child = true → inScope base p .descendent = true) ∧
      (inScope base p .descendent = true → inScope base p .descendentOrSelf = true) := by
  refine ⟨?_, Scope.isStrictOrder_descendent, Scope.isPartialOrder_descendentOrSelf, ?_, ?_⟩
  · intro base p hb hp
    exact ⟨inScope_iff_relates .child hb hp, inScope_iff_relates .descendent hb hp,
      inScope_iff_relates .descendentOrSelf hb hp⟩
  · intro a b p ha hb
    exact Scope.holds_or_holds ha hb
  · intro base p
    exact ⟨inScope_descendent_of_child, inScope_descendentOrSelf_of_descendent⟩

theorem inScope_orders_siblings :
    IsNormal "/a".toList ∧ IsNormal "/ab".toList ∧ IsNormal "/a/b/c".toList ∧
      ¬ inScope "/a".toList "/ab".toList .descendentOrSelf = true ∧
      inScope "/a".toList "/a/b/c".toList .descendent = true ∧
      ¬ inScope "/a".toList "/a/b/c".toList .child = true ∧
      (Scope.descendentOrSelf.Holds ⟨"/a".toList, by decide⟩ ⟨"/a/b".toList, by decide⟩ ∨
        Scope.descendentOrSelf.Holds ⟨"/a/b".toList, by decide⟩ ⟨"/a".toList, by decide⟩) ∧
      inScope "a//".toList "a///b".toList .descendentOrSelf = true := by
  have ha : IsNormal "/a".toList := by decide
  have hs : IsNormal "/ab".toList := by decide
  have hc : IsNormal "/a/b/c".toList := by decide
  obtain ⟨segmentwise, -, -, chain, wider⟩ := inScope_orders
  have sibling := segmentwise _ _ ha hs
  have below := segmentwise _ _ ha hc
  refine ⟨ha, hs, hc, fun h => ?_, below.2.1.2 (by decide), fun h => ?_, ?_, ?_⟩
  · exact absurd (sibling.2.2.1 h) (by decide)
  · exact absurd (Scope.relates_child_iff.1 (below.1.1 h)).2 (by decide)
  · exact chain _ _ ⟨"/a/b/c".toList, hc⟩ rfl rfl
  · exact (wider _ _).2 ((wider _ _).1 rfl)

end Path
end FileNaming
