import FileNaming.Proofs.Path.Normality
import FileNaming.Proofs.Path.Relative

/-! A name of two parts is resolved one part after the other. The walk stops in between at
a place of ordinary segments, and it may as well start anew and go down to that place. -/

namespace FileNaming.Path

section Walk
variable {as : List Text} (bs : List Text)

theorem walk_append_of_walk {place : List Text} (h : walk as = some place)
    (hp : ∀ s ∈ place, Ordinary s) : walk (as ++ bs) = walk (place ++ bs) := by
  obtain ⟨stack, hs, rfl⟩ := Option.map_eq_some_iff.1 h
  have hdown : stack.reverse.foldlM advance [] = some stack := by
    simpa using foldlM_advance_ordinary [] hp
  rw [walk, walk, List.foldlM_append, List.foldlM_append, hs, hdown]

theorem walk_append_of_walk_eq_none (h : walk as = none) : walk (as ++ bs) = none := by
  rw [walk, List.foldlM_append, Option.map_eq_none_iff.1 h]
  rfl

end Walk

section Append
variable {base name rest : Text}

theorem trail_append (hne : name ≠ []) :
    trail base (name ++ '/' :: rest) = trail base name ++ segments (fixSeparators rest) := by
  have hhead : (name ++ '/' :: rest).head? = name.head? := by
    obtain ⟨c, name, rfl⟩ := List.exists_cons_of_ne_nil hne
    rfl
  have hsegs : segments (fixSeparators (name ++ '/' :: rest)) =
      segments (fixSeparators name) ++ segments (fixSeparators rest) := by
    rw [fixSeparators_append]
    exact segments_append_slash _ _
  rw [trail, trail, hhead, hsegs, List.append_assoc]

theorem trail_ofSegments {place : List Text} (hp : ∀ s ∈ place, Ordinary s)
    (hrest : rest.head? ≠ some '/') :
    trail (ofSegments place) rest = place ++ segments (fixSeparators rest) := by
  rw [trail_of_head? hrest, segments_ofSegments hp]

theorem resolve_append (hb : IsNormal base) (hne : name ≠ []) (hrest : rest.head? ≠ some '/') :
    resolve base (name ++ '/' :: rest) .fileSystem =
      ((resolve base name .fileSystem).bind fun q => resolve q rest .fileSystem).mapError fun _ =>
        .escapesRoot (fixSeparators (locate base (name ++ '/' :: rest))) := by
  have htrail : trail base (name ++ '/' :: rest) =
      trail base name ++ segments (fixSeparators rest) := trail_append hne
  cases hw : walk (trail base name) with
  | none =>
    have hwhole : walk (trail base (name ++ '/' :: rest)) = none :=
      htrail ▸ walk_append_of_walk_eq_none _ hw
    rw [resolve_of_walk_eq_none hb hwhole, resolve_of_walk_eq_none hb hw]
    rfl
  | some place =>
    have hp : ∀ s ∈ place, Ordinary s := walk_trail_ordinary hb hw
    have hq : IsNormal (ofSegments place) := ⟨place, hp, rfl⟩
    have hwhole : walk (trail base (name ++ '/' :: rest)) =
        walk (trail (ofSegments place) rest) := by
      rw [htrail, trail_ofSegments hp hrest]
      exact walk_append_of_walk _ hw hp
    rw [resolve_fileSystem_of_walk hb hw, Except.bind]
    cases hr : walk (trail (ofSegments place) rest) with
    | none =>
      rw [resolve_of_walk_eq_none hb (hwhole.trans hr), resolve_of_walk_eq_none hq hr]
      rfl
    | some last =>
      rw [resolve_fileSystem_of_walk hb (hwhole.trans hr), resolve_fileSystem_of_walk hq hr]
      rfl

end Append

section Relative
variable {base target : Text} (hb : IsNormal base) (ht : IsNormal target)
include hb ht

theorem relative_ne_nil : relative base target ≠ [] := by
  rw [relative_eq_route hb ht]
  split
  · decide
  · rename_i hne
    exact Text.join_ne_nil (fun s hs => (isPiece_of_mem_route ht.ordinary hs).1) hne

theorem resolve_relative_fileSystem :
    resolve base (relative base target) .fileSystem = .ok target := by
  rw [resolve_relative hb ht]
  rfl

end Relative

/-- On the whole file system a name of two parts leads where the second part leads from
where the first one leads, and nowhere above the root in between. So relative paths can
be put one behind the other. -/
theorem resolve_composes :
    (∀ base name rest : Text, IsNormal base → name ≠ [] → rest.head? ≠ some '/' →
      (∀ p, resolve base (name ++ '/' :: rest) .fileSystem = .ok p ↔
        ∃ q, resolve base name .fileSystem = .ok q ∧ resolve q rest .fileSystem = .ok p) ∧
      (∀ e, resolve base name .fileSystem = .error e →
        resolve base (name ++ '/' :: rest) .fileSystem =
          .error (.escapesRoot (fixSeparators (locate base (name ++ '/' :: rest))))) ∧
      ∀ q e, resolve base name .fileSystem = .ok q → resolve q rest .fileSystem = .error e →
        resolve base (name ++ '/' :: rest) .fileSystem =
          .error (.escapesRoot (fixSeparators (locate base (name ++ '/' :: rest))))) ∧
    ∀ a b c : Text, IsNormal a → IsNormal b → IsNormal c →
      resolve a (relative a b ++ '/' :: relative b c) .fileSystem = .ok c := by
  constructor
  · intro base name rest hb hne hrest
    rw [resolve_append hb hne hrest]
    refine ⟨fun p => ?_, fun e he => ?_, fun q e hq he => ?_⟩
    · rw [← NameError.bind_eq_ok_iff]
      cases (resolve base name .fileSystem).bind fun q => resolve q rest .fileSystem with
      | error e => exact iff_of_false nofun nofun
      | ok q => exact Iff.rfl
    · rw [he]
      rfl
    · rw [hq, Except.bind, he]
      rfl
  · intro a b c ha hb hc
    rw [resolve_append ha (relative_ne_nil ha hb) (head?_relative hb hc),
      resolve_relative_fileSystem ha hb, Except.bind, resolve_relative_fileSystem hb hc]
    rfl

theorem resolve_composes_across_join :
    IsNormal "/a/b".toList ∧
      resolve "/a/b".toList "x\\..\\../y//..\\../c".toList .fileSystem = .ok "/c".toList ∧
      resolve "/a/b".toList "../../../a/b".toList .fileSystem =
        .error (.escapesRoot "/a/b/../../../a/b".toList) ∧
      resolve "/a/b".toList "../x/../../c/d".toList .fileSystem = .ok "/c/d".toList := by
  have hb : IsNormal "/a/b".toList := by decide
  have across := resolve_composes.1 "/a/b".toList "x\\..\\../y/".toList "..\\../c".toList hb
    (by decide) (by decide)
  have above := resolve_composes.1 "/a/b".toList "../../..".toList "a/b".toList hb
    (by decide) (by decide)
  have ways := resolve_composes.2 "/a/b".toList "/a/x".toList "/c/d".toList hb (by decide)
    (by decide)
  exact ⟨hb, (across.1 _).2 ⟨"/a/y".toList, rfl, rfl⟩, above.2.1 _ rfl, ways⟩

end FileNaming.Path
