import FileNaming.Path.Scope
import FileNaming.Proofs.Path.Walk

/-! The scope check looks at characters, and on normal paths it decides the
relation of segments. What stands behind the base ends a segment of the path
only if nothing follows, a separator follows, or the base is the root. -/

namespace FileNaming

namespace Scope

theorem Relates.isPrefix {scope : Scope} {base segs : List Text} (hf : scope ≠ .fileSystem)
    (h : scope.Relates base segs) : base <+: segs := by
  cases scope with
  | fileSystem => exact absurd rfl hf
  | child =>
    obtain ⟨s, rfl⟩ := h
    exact List.prefix_append base [s]
  | descendent => exact h.1
  | descendentOrSelf => exact h

theorem relates_child_iff {base segs : List Text} :
    child.Relates base segs ↔ base <+: segs ∧ segs.length = base.length + 1 := by
  constructor
  · rintro ⟨s, rfl⟩
    exact ⟨List.prefix_append base [s], by simp⟩
  · rintro ⟨⟨below, rfl⟩, hl⟩
    rw [List.length_append, Nat.add_left_cancel_iff, List.length_eq_one_iff] at hl
    obtain ⟨s, rfl⟩ := hl
    exact ⟨s, rfl⟩

instance (scope : Scope) (base segs : List Text) : Decidable (scope.Relates base segs) :=
  match scope with
  | fileSystem => .isTrue trivial
  | child => decidable_of_iff _ relates_child_iff.symm
  | descendent => inferInstanceAs (Decidable (base <+: segs ∧ base ≠ segs))
  | descendentOrSelf => inferInstanceAs (Decidable (base <+: segs))

end Scope

namespace Path

def remainder (base below : List Text) : Text :=
  if below = [] then []
  else if base = [] then Text.join '/' below
  else ofSegments below

theorem ofSegments_append_eq (base below : List Text) :
    ofSegments (base ++ below) = ofSegments base ++ remainder base below := by
  by_cases hb : below = []
  · simp [remainder, hb]
  · by_cases ha : base = []
    · simp [remainder, hb, ha, ofSegments, Text.join]
    · rw [ofSegments_append ha hb, remainder, if_neg hb, if_neg ha]

section Below
variable {base below segs : List Text}

theorem isRoot_ofSegments (h : ∀ s ∈ base, Ordinary s) :
    isRoot (ofSegments base) = true ↔ base = [] := by
  by_cases hne : base = []
  · subst hne
    decide
  · cases hj : Text.join '/' base with
    | nil => exact absurd hj (Text.join_ne_nil (fun s hs => (h s hs).ne_nil) hne)
    | cons c t => simp [ofSegments, hj, isRoot, hne]

theorem remainder_eq_nil_iff (h : ∀ s ∈ below, Ordinary s) :
    remainder base below = [] ↔ below = [] := by
  by_cases hne : below = []
  · simp [remainder, hne]
  · by_cases hb : base = []
    · simp [remainder, hne, hb, Text.join_ne_nil (fun s hs => (h s hs).ne_nil) hne]
    · simp [remainder, hne, hb, ofSegments]

theorem boundary_of_below (hne : below ≠ []) :
    isRoot (ofSegments base) = true ∨ (remainder base below).head? = some '/' := by
  by_cases hb : base = []
  · subst hb
    exact .inl (by decide)
  · exact .inr (by simp [remainder, hne, hb, ofSegments])

theorem dropSeparator_remainder (h : ∀ s ∈ below, Ordinary s) :
    dropSeparator (remainder base below) = Text.join '/' below := by
  unfold remainder
  split
  · rename_i hb
    simp [hb, dropSeparator, Text.join]
  · split
    · have hj := Text.head?_join fun s hs => (h s hs).isPiece
      unfold dropSeparator
      split
      · rename_i t ht
        simp [ht] at hj
      · rfl
    · rfl

theorem prefix_of_boundary (hb : ∀ s ∈ base, Ordinary s) (hs : ∀ s ∈ segs, Ordinary s)
    {rest : Text} (h : ofSegments segs = ofSegments base ++ rest)
    (hr : rest = [] ∨ isRoot (ofSegments base) = true ∨ rest.head? = some '/') :
    base <+: segs := by
  rcases hr with rfl | hr | hr
  · rw [List.append_nil] at h
    obtain rfl := ofSegments_injective hs hb h
    exact List.prefix_rfl
  · rw [(isRoot_ofSegments hb).1 hr]
    exact List.nil_prefix
  · cases rest with
    | nil => cases hr
    | cons c rest =>
      cases hr
      -- a separator behind the base ends its last segment
      rw [← segments_ofSegments hs, h, segments_append_slash, segments_ofSegments hb]
      exact List.prefix_append base (segments rest)

theorem prefix_of_inScope {scope : Scope} (hf : scope ≠ .fileSystem)
    (hb : ∀ s ∈ base, Ordinary s) (hs : ∀ s ∈ segs, Ordinary s)
    (h : inScope (ofSegments base) (ofSegments segs) scope = true) : base <+: segs := by
  cases ha : after? (ofSegments base) (ofSegments segs) with
  | none => cases scope <;> simp_all [inScope]
  | some rest =>
    refine prefix_of_boundary hb hs (after?_eq_some_iff.1 ha) ?_
    cases scope with
    | fileSystem => exact absurd rfl hf
    | child =>
      simp only [inScope, ha, Bool.and_eq_true, Bool.or_eq_true, decide_eq_true_eq] at h
      exact .inr h.1.2
    | descendent =>
      simp only [inScope, ha, Bool.and_eq_true, Bool.or_eq_true, decide_eq_true_eq] at h
      exact .inr h.2
    | descendentOrSelf =>
      simpa only [inScope, ha, Bool.or_eq_true, decide_eq_true_eq, or_assoc] using h

theorem inScope_append (scope : Scope) (hs : ∀ s ∈ below, Ordinary s) :
    inScope (ofSegments base) (ofSegments (base ++ below)) scope = true ↔
      scope.Relates base (base ++ below) := by
  have ha : after? (ofSegments base) (ofSegments (base ++ below)) = some (remainder base below) :=
    after?_eq_some_iff.2 (ofSegments_append_eq base below)
  have hnil : remainder base below = [] ↔ below = [] := remainder_eq_nil_iff hs
  cases scope with
  | fileSystem => simp [inScope, Scope.Relates]
  | child =>
    -- no separator behind the first means that one segment is left
    have hj := Text.notMem_join_iff fun s h => (hs s h).no_slash
    simp only [inScope, ha, Bool.and_eq_true, Bool.or_eq_true, decide_eq_true_eq,
      dropSeparator_remainder hs, hj, ne_eq, hnil, Scope.Relates, List.append_cancel_left_eq]
    rw [← List.length_eq_one_iff]
    constructor
    · rintro ⟨⟨hne, -⟩, hl⟩
      have := List.length_pos_iff.2 hne
      omega
    · intro hl
      have hne : below ≠ [] := List.length_pos_iff.1 (by omega)
      exact ⟨⟨hne, boundary_of_below hne⟩, by omega⟩
  | descendent =>
    simp only [inScope, ha, Bool.and_eq_true, Bool.or_eq_true, decide_eq_true_eq, ne_eq, hnil,
      Scope.Relates, List.prefix_append, true_and, List.self_eq_append_right]
    exact ⟨And.left, fun hne => ⟨hne, boundary_of_below hne⟩⟩
  | descendentOrSelf =>
    simp only [inScope, ha, Bool.or_eq_true, decide_eq_true_eq, hnil, Scope.Relates,
      List.prefix_append, iff_true, or_assoc]
    by_cases hne : below = []
    · exact .inl hne
    · exact .inr (boundary_of_below hne)

theorem inScope_ofSegments (scope : Scope) (hb : ∀ s ∈ base, Ordinary s)
    (hs : ∀ s ∈ segs, Ordinary s) :
    inScope (ofSegments base) (ofSegments segs) scope = true ↔ scope.Relates base segs := by
  by_cases hp : base <+: segs
  · obtain ⟨below, rfl⟩ := hp
    exact inScope_append scope fun s h => hs s (List.mem_append_right base h)
  · by_cases hf : scope = .fileSystem
    · subst hf
      simp [inScope, Scope.Relates]
    · exact ⟨fun h => absurd (prefix_of_inScope hf hb hs h) hp, fun h => absurd (h.isPrefix hf) hp⟩

end Below

theorem inScope_iff_relates {base p : Text} (scope : Scope) (hb : IsNormal base)
    (hp : IsNormal p) :
    inScope base p scope = true ↔ scope.Relates (segments base) (segments p) := by
  have h := inScope_ofSegments scope hb.ordinary hp.ordinary
  rwa [hb.ofSegments_segments, hp.ofSegments_segments] at h

end Path
end FileNaming
