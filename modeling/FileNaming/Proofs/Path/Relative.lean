import FileNaming.FileName.Basic
import FileNaming.Proofs.Path.Confinement

/-! A relative path leads back: resolving it against the path it starts from gives
the path it was made for. On segments it is a route, also from the root, where
it is read off the characters. -/

namespace FileNaming

namespace Path
section Segments
variable {base target : List Text}

theorem foldlM_advance_route (stack : List Text) (ht : ∀ s ∈ target, Ordinary s) :
    (route base target).foldlM advance (base.reverse ++ stack) =
      some (target.reverse ++ stack) := by
  fun_induction route base target generalizing stack with
  | case1 target => exact foldlM_advance_ordinary stack ht
  | case2 base _ => exact foldlM_advance_up stack base.reverse base (List.length_reverse)
  | case3 base s target ih =>
    have h := ih (s :: stack) fun r hr => ht r (List.mem_cons_of_mem s hr)
    simpa using h
  | case4 b base s target hne =>
    rw [List.foldlM_append, foldlM_advance_up stack _ (b :: base) (List.length_reverse)]
    exact foldlM_advance_ordinary stack ht

theorem mem_route {s : Text} (h : s ∈ route base target) : s = up ∨ s ∈ target := by
  fun_induction route base target with
  | case1 target => exact .inr h
  | case2 base _ =>
    obtain ⟨b, -, rfl⟩ := List.mem_map.1 h
    exact .inl rfl
  | case3 base b target ih =>
    rcases ih h with h | h
    · exact .inl h
    · exact .inr (List.mem_cons_of_mem b h)
  | case4 b base t target hne =>
    rcases List.mem_append.1 h with h | h
    · obtain ⟨c, -, rfl⟩ := List.mem_map.1 h
      exact .inl rfl
    · exact .inr h

theorem isPiece_of_mem_route (ht : ∀ s ∈ target, Ordinary s) {s : Text}
    (h : s ∈ route base target) : s ≠ [] ∧ '/' ∉ s := by
  rcases mem_route h with rfl | h
  · decide
  · exact (ht s h).isPiece

theorem relative_ofSegments (hb : ∀ s ∈ base, Ordinary s) (ht : ∀ s ∈ target, Ordinary s) :
    relative (ofSegments base) (ofSegments target) =
      if route base target = [] then here else Text.join '/' (route base target) := by
  by_cases hbase : base = []
  · subst hbase
    -- from the root the path is read off its characters, which is the route as well
    have hr : route [] target = target := by cases target <;> rfl
    unfold relative
    rw [hr, if_pos (show ofSegments [] = ['/'] from rfl)]
    by_cases htarget : target = []
    · subst htarget
      rfl
    · cases hj : Text.join '/' target with
      | nil => exact absurd hj (Text.join_ne_nil (fun s hs => (ht s hs).ne_nil) htarget)
      | cons c t => simp [ofSegments, hj, htarget]
  · have hroot : ofSegments base ≠ ['/'] := by
      intro h
      have hj : Text.join '/' base ≠ [] := Text.join_ne_nil (fun s hs => (hb s hs).ne_nil) hbase
      simp [ofSegments, hj] at h
    unfold relative
    rw [if_neg hroot, segments_ofSegments hb, segments_ofSegments ht]
    cases route base target <;> rfl

end Segments

section Normal
variable {base target : Text} (hb : IsNormal base) (ht : IsNormal target)
include hb ht

theorem relative_eq_route :
    relative base target =
      if route (segments base) (segments target) = [] then here
      else Text.join '/' (route (segments base) (segments target)) := by
  have h := relative_ofSegments hb.ordinary ht.ordinary
  rwa [hb.ofSegments_segments, ht.ofSegments_segments] at h

theorem head?_relative : (relative base target).head? ≠ some '/' := by
  rw [relative_eq_route hb ht]
  split
  · decide
  · exact Text.head?_join fun s hs => isPiece_of_mem_route ht.ordinary hs

theorem notMem_relative : '\\' ∉ relative base target := by
  rw [relative_eq_route hb ht]
  split
  · decide
  · intro h
    obtain h | ⟨s, hs, hc⟩ := Text.mem_join h
    · exact absurd h (by decide)
    · rcases mem_route hs with rfl | hs
      · exact absurd hc (by decide)
      · exact (ht.ordinary s hs).no_backslash hc

theorem foldlM_advance_relative (stack : List Text) :
    (segments (relative base target)).foldlM advance stack =
      (route (segments base) (segments target)).foldlM advance stack := by
  rw [relative_eq_route hb ht]
  split
  · rename_i hr
    rw [hr]
    rfl
  · rw [segments_join fun s hs => isPiece_of_mem_route ht.ordinary hs]

theorem trail_relative :
    trail base (relative base target) = segments base ++ segments (relative base target) := by
  rw [trail_of_head? (head?_relative hb ht), fixSeparators_of_notMem (notMem_relative hb ht)]

theorem walk_trail_relative :
    walk (trail base (relative base target)) = some (segments target) := by
  have hroute : (route (segments base) (segments target)).foldlM advance
      ((segments base).reverse ++ []) = some ((segments target).reverse ++ []) :=
    foldlM_advance_route [] ht.ordinary
  rw [walk, trail_relative hb ht, List.foldlM_append, foldlM_advance_ordinary [] hb.ordinary]
  calc Option.map List.reverse
        ((segments (relative base target)).foldlM advance ((segments base).reverse ++ []))
      = some (((segments target).reverse ++ []).reverse) := by
        rw [foldlM_advance_relative hb ht, hroute]
        rfl
    _ = some (segments target) := by simp

theorem resolve_relative (scope : Scope) :
    resolve base (relative base target) scope =
      if inScope base target scope then .ok target
      else .error (.invalidDescendantName (relative base target)) := by
  rw [resolve_of_walk hb (walk_trail_relative hb ht), ht.ofSegments_segments]

end Normal
end Path

namespace FileName

theorem resolve_relative_same {n target : FileName} (hn : Path.IsNormal n.path)
    (ht : Path.IsNormal target.path) (hr : n.rootUri = target.rootUri) (scope : Scope) :
    (∃ m, n.resolve (n.relative target) scope = .ok m ∧ m.Same target) ↔
      target.isWithin n scope = true := by
  have hres := Path.resolve_relative hn ht scope
  unfold resolve relative isWithin
  rw [hres, hr]
  by_cases hs : Path.inScope n.path target.path scope = true
  · have hsame : (n.withPath target.path).Same target := Prod.ext hr rfl
    simpa [hs, Except.map] using hsame
  · simp [hs, Except.map]

/-- The relative path from a path to a target resolves to that target in every
scope that holds it and is refused in the others, and so it is for names. -/
theorem relative_leads_to_target :
    (∀ base target : Text, Path.IsNormal base → Path.IsNormal target → ∀ scope : Scope,
      (Path.inScope base target scope = true →
        Path.resolve base (Path.relative base target) scope = .ok target) ∧
      (¬ Path.inScope base target scope = true →
        Path.resolve base (Path.relative base target) scope =
          .error (.invalidDescendantName (Path.relative base target))) ∧
      ∀ q, Path.resolve base (Path.relative base target) scope ≠ .error (.escapesRoot q)) ∧
    ∀ n target : FileName, Path.IsNormal n.path → Path.IsNormal target.path →
      n.rootUri = target.rootUri → ∀ scope : Scope,
      (∃ m, n.resolve (n.relative target) scope = .ok m ∧ m.Same target) ↔
        target.isWithin n scope = true := by
  refine ⟨?_, fun n target hn ht hr scope => resolve_relative_same hn ht hr scope⟩
  intro base target hb ht scope
  rw [Path.resolve_relative hb ht scope]
  refine ⟨fun hs => if_pos hs, fun hs => if_neg hs, ?_⟩
  intro q
  split <;> simp

theorem relative_leads_to_sibling :
    Path.IsNormal "/a/b".toList ∧ Path.IsNormal "/a/bc".toList ∧
      Path.resolve "/a/b".toList "../bc".toList .fileSystem = .ok "/a/bc".toList ∧
      Path.resolve "/a/b".toList "../bc".toList .descendent =
        .error (.invalidDescendantName "../bc".toList) ∧
      ∃ m, resolve ⟨"file".toList, "/a/b".toList, .rooted ['/']⟩ "../bc".toList .fileSystem =
          .ok m ∧
        m.Same ⟨"file".toList, "/a/bc".toList, .rooted ['/']⟩ := by
  have hb : Path.IsNormal "/a/b".toList := by decide
  have ht : Path.IsNormal "/a/bc".toList := by decide
  have hr : Path.relative "/a/b".toList "/a/bc".toList = "../bc".toList := by decide
  have h := relative_leads_to_target.1 _ _ hb ht
  have hn := relative_leads_to_target.2 ⟨"file".toList, "/a/b".toList, .rooted ['/']⟩
    ⟨"file".toList, "/a/bc".toList, .rooted ['/']⟩ hb ht rfl .fileSystem
  rw [hr] at h
  rw [relative, hr] at hn
  exact ⟨hb, ht, (h .fileSystem).1 (by decide), (h .descendent).2.1 (by decide), hn.2 (by decide)⟩

end FileName
end FileNaming
