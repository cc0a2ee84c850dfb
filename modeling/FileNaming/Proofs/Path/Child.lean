import FileNaming.Proofs.Path.Normality

/-! A path is taken apart into its parent and its base name, and put together again by
resolving the one against the other. Both are read off the last separator of the text,
and on normal paths this is where the last segment begins. -/

namespace FileNaming.Path

section Last
variable {segs : List Text} {s : Text} (hs : Ordinary s)
include hs

theorem baseName_ofSegments : baseName (ofSegments (segs ++ [s])) = s := by
  have hcut := cutLast_ofSegments hs.no_slash segs
  rw [baseName, hcut]

theorem depth_ofSegments_concat (hsegs : ∀ r ∈ segs, Ordinary r) :
    depth (ofSegments (segs ++ [s])) = depth (ofSegments segs) + 1 := by
  have hall : ∀ r ∈ segs ++ [s], Ordinary r := List.forall_mem_append.2 ⟨hsegs, by simpa using hs⟩
  rw [depth, depth, segments_ofSegments hall, segments_ofSegments hsegs, List.length_append]
  rfl

theorem segments_of_ordinary : segments (fixSeparators s) = [s] := by
  have hfix : fixSeparators s = s := fixSeparators_of_notMem hs.no_backslash
  have hpiece : ∀ r ∈ [s], r ≠ [] ∧ '/' ∉ r := by simpa using hs.isPiece
  rw [hfix]
  exact segments_join hpiece

theorem resolve_child_ofSegments (hsegs : ∀ r ∈ segs, Ordinary r) :
    resolve (ofSegments segs) s .child = .ok (ofSegments (segs ++ [s])) := by
  have hb : IsNormal (ofSegments segs) := ⟨segs, hsegs, rfl⟩
  have hall : ∀ r ∈ segs ++ [s], Ordinary r := List.forall_mem_append.2 ⟨hsegs, by simpa using hs⟩
  have hhead : s.head? ≠ some '/' := fun h => hs.no_slash (List.mem_of_mem_head? h)
  have htrail : trail (ofSegments segs) s = segs ++ [s] := by
    rw [trail_of_head? hhead, segments_ofSegments hsegs, segments_of_ordinary hs]
  have hwalk : walk (trail (ofSegments segs) s) = some (segs ++ [s]) := by
    rw [htrail]
    exact walk_of_ordinary hall
  have hscope : inScope (ofSegments segs) (ofSegments (segs ++ [s])) .child = true :=
    (inScope_ofSegments .child hsegs hall).2 ⟨s, rfl⟩
  rw [resolve_of_walk hb hwalk, if_pos hscope]

end Last

theorem IsNormal.exists_concat {p : Text} (hp : IsNormal p) (hne : p ≠ ['/']) :
    ∃ segs s, (∀ r ∈ segs, Ordinary r) ∧ Ordinary s ∧ p = ofSegments (segs ++ [s]) := by
  obtain ⟨segs, hsegs, rfl⟩ := hp
  rcases List.eq_nil_or_concat segs with rfl | ⟨init, s, rfl⟩
  · exact absurd rfl hne
  · rw [List.concat_eq_append] at hsegs ⊢
    have hall := List.forall_mem_append.1 hsegs
    exact ⟨init, s, hall.1, hall.2 s (List.mem_singleton_self s), rfl⟩

theorem inScope_of_resolve {base name p : Text} {scope : Scope}
    (h : resolve base name scope = .ok p) : inScope base p scope = true := by
  unfold resolve at h
  split at h
  · cases h
  · split at h
    · rename_i hscope
      cases h
      exact hscope
    · cases h

theorem exists_segment_of_resolve_child {base name p : Text} (hb : IsNormal base)
    (h : resolve base name .child = .ok p) :
    ∃ s, Ordinary s ∧ p = ofSegments (segments base ++ [s]) := by
  have hp : IsNormal p := isNormal_of_resolve hb h
  obtain ⟨s, hsegs⟩ : Scope.child.Relates (segments base) (segments p) :=
    (inScope_iff_relates .child hb hp).1 (inScope_of_resolve h)
  have hs : s ∈ segments p := by simp [hsegs]
  refine ⟨s, hp.ordinary s hs, ?_⟩
  rw [← hsegs, hp.ofSegments_segments]

/-- A path below the root is what its base name gives as a child of its parent, one segment
less deep. Whatever text is resolved as a child, its outcome lies right below the base, and
its base name leads there as well; and every ordinary segment is the base name of a child. -/
theorem resolve_child_recomposes :
    (∀ p : Text, IsNormal p → p ≠ ['/'] →
      ∃ q, parent? p = some q ∧ IsNormal q ∧ depth p = depth q + 1 ∧
        resolve q (baseName p) .child = .ok p) ∧
    ∀ base : Text, IsNormal base →
      (∀ name p : Text, resolve base name .child = .ok p →
        parent? p = some base ∧ resolve base (baseName p) .child = .ok p) ∧
      ∀ s : Text, Ordinary s → ∃ p, resolve base s .child = .ok p ∧ baseName p = s := by
  constructor
  · intro p hp hne
    obtain ⟨segs, s, hsegs, hs, rfl⟩ := hp.exists_concat hne
    have hparent : parent? (ofSegments (segs ++ [s])) = some (ofSegments segs) :=
      parent?_ofSegments hs
    refine ⟨ofSegments segs, hparent, ⟨segs, hsegs, rfl⟩, depth_ofSegments_concat hs hsegs, ?_⟩
    rw [baseName_ofSegments hs]
    exact resolve_child_ofSegments hs hsegs
  · intro base hb
    have hbase : ofSegments (segments base) = base := hb.ofSegments_segments
    have hchild (s : Text) (hs : Ordinary s) :
        resolve base s .child = .ok (ofSegments (segments base ++ [s])) := by
      have h := resolve_child_ofSegments hs hb.ordinary
      rwa [hbase] at h
    constructor
    · intro name p h
      obtain ⟨s, hs, rfl⟩ := exists_segment_of_resolve_child hb h
      have hparent := @parent?_ofSegments (segments base) s hs
      rw [hbase] at hparent
      rw [baseName_ofSegments hs]
      exact ⟨hparent, hchild s hs⟩
    · intro s hs
      exact ⟨_, hchild s hs, baseName_ofSegments hs⟩

theorem resolve_child_recomposes_first_level :
    IsNormal "/a".toList ∧ Ordinary "...".toList ∧
      ∃ q, parent? "/a".toList = some q ∧ depth q = 0 ∧
      resolve q (baseName "/a".toList) .child = .ok "/a".toList ∧
      resolve "/a".toList "../a\\./x/../b..c//".toList .child = .ok "/a/b..c".toList ∧
      parent? "/a/b..c".toList = some "/a".toList ∧
      resolve "/a".toList (baseName "/a/b..c".toList) .child = .ok "/a/b..c".toList ∧
      ∃ p, resolve "/a".toList "...".toList .child = .ok p ∧ baseName p = "...".toList := by
  have ha : IsNormal "/a".toList := by decide
  obtain ⟨below, children⟩ := resolve_child_recomposes
  obtain ⟨q, hq, -, hdepth, hresolve⟩ := below "/a".toList ha (by decide)
  obtain ⟨around, segment⟩ := children "/a".toList ha
  have hname : resolve "/a".toList "../a\\./x/../b..c//".toList .child = .ok "/a/b..c".toList := rfl
  have hbase := around _ _ hname
  have hroot : depth q = 0 := Nat.succ.inj hdepth.symm
  have hdots : Ordinary "...".toList := by decide
  exact ⟨ha, hdots, q, hq, hroot, hresolve, hname, hbase.1, hbase.2, segment _ hdots⟩

end FileNaming.Path
