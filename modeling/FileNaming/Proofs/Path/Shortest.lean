import FileNaming.Proofs.Path.Composition
import FileNaming.Proofs.Path.Escape

/-! The relative path is the shortest way. A walk from one place to another leaves all that
the base has below what both share and goes on to all that the target has below it, so
that many of its segments move it at least. The relative path has no others. -/

namespace FileNaming.Path

def commonPrefix : List Text → List Text → List Text
  | b :: base, s :: target => if b = s then b :: commonPrefix base target else []
  | _, _ => []

def shared (base target : Text) : Nat :=
  (commonPrefix (segments base) (segments target)).length

def Moves (s : Text) : Prop :=
  s ≠ [] ∧ s ≠ here

instance : DecidablePred Moves := fun s => inferInstanceAs (Decidable (s ≠ [] ∧ s ≠ here))

def relativeBySegments (base target : Text) : Text :=
  match route (segments base) (segments target) with
  | [] => here
  | steps => Text.join '/' steps

theorem not_moves {s : Text} (h : s = [] ∨ s = here) : ¬ Moves s :=
  fun hm => h.elim hm.1 hm.2

theorem moves_up : Moves up := by decide

theorem Plain.moves {s : Text} (h : Plain s) : Moves s :=
  ⟨h.1, h.2.1⟩

section Prefix
variable {base target : List Text}

theorem isPrefix_commonPrefix_iff {c : List Text} :
    c <+: commonPrefix base target ↔ c <+: base ∧ c <+: target := by
  fun_induction commonPrefix base target generalizing c with
  | case1 base s target ih =>
    cases c with
    | nil => simp
    | cons r c =>
      simp only [List.cons_prefix_cons, ih]
      exact and_and_left
  | case2 b base s target hne =>
    cases c with
    | nil => simp
    | cons r c =>
      refine iff_of_false (by simp) fun h => hne ?_
      exact (List.cons_prefix_cons.1 h.1).1.symm.trans (List.cons_prefix_cons.1 h.2).1
  | case3 base target hnil =>
    constructor
    · intro h
      rw [List.prefix_nil.1 h]
      exact ⟨List.nil_prefix, List.nil_prefix⟩
    · rintro ⟨hb, ht⟩
      cases c with
      | nil => exact List.nil_prefix
      | cons r c =>
        obtain ⟨b, rfl⟩ := hb
        obtain ⟨t, rfl⟩ := ht
        exact absurd rfl (hnil r (c ++ b) r (c ++ t) rfl)

theorem commonPrefix_isPrefix :
    commonPrefix base target <+: base ∧ commonPrefix base target <+: target :=
  isPrefix_commonPrefix_iff.1 List.prefix_rfl

theorem route_eq :
    route base target =
      List.replicate (base.length - (commonPrefix base target).length) up ++
        target.drop (commonPrefix base target).length := by
  fun_induction route base target with
  | case1 target => simp [commonPrefix]
  | case2 base _ => simp [commonPrefix, List.map_const']
  | case3 base s target ih => simp [commonPrefix, ih]
  | case4 b base s target hne => simp [commonPrefix, hne, List.map_const', List.replicate_succ]

theorem route_eq_nil_iff : route base target = [] ↔ base = target := by
  fun_induction route base target with
  | case1 target => exact eq_comm
  | case2 base _ => simp
  | case3 base s target ih => simpa using ih
  | case4 b base s target hne => simp [hne]

theorem length_route :
    (route base target).length =
      base.length + target.length - 2 * (commonPrefix base target).length := by
  obtain ⟨hb, ht⟩ := @commonPrefix_isPrefix base target
  have hbl := hb.length_le
  have htl := ht.length_le
  rw [route_eq, List.length_append, List.length_replicate, List.length_drop]
  omega

theorem up_mem_route_iff (ht : ∀ s ∈ target, Ordinary s) :
    up ∈ route base target ↔ ¬ base <+: target := by
  fun_induction route base target with
  | case1 target => exact iff_of_false (fun h => (ht up h).ne_up rfl) (by simp)
  | case2 base _ => simp [List.map_const', List.mem_replicate]
  | case3 base s target ih =>
    rw [ih fun r hr => ht r (List.mem_cons_of_mem s hr), List.cons_prefix_cons]
    simp
  | case4 b base s target hne => simp [hne]

end Prefix

theorem climb_add_length_survivors_le (segs : List Text) :
    climb segs + (survivors segs).length ≤ segs.countP Moves := by
  induction segs with
  | nil => exact Nat.le_refl 0
  | cons s segs ih =>
    obtain hs | rfl | hs := segment_cases s
    · have hp : ¬ (Plain s ∧ ¬ TakenBack segs) := fun h => not_moves hs h.1.moves
      rw [climb_blank segs hs, survivors, if_neg hp,
        List.countP_cons_of_neg (by simpa using not_moves hs)]
      exact ih
    · have hp : ¬ (Plain up ∧ ¬ TakenBack segs) := fun h => not_plain_up h.1
      rw [climb_up, survivors, if_neg hp, List.countP_cons_of_pos (by simpa using moves_up)]
      omega
    · rw [climb_plain segs hs, survivors, List.countP_cons_of_pos (by simpa using hs.moves)]
      -- either the segment is left or the climb behind it goes over it
      by_cases ht : TakenBack segs
      · rw [if_neg fun h => h.2 ht]
        omega
      · rw [if_pos ⟨hs, ht⟩, List.length_cons]
        omega

section Normal
variable {base target : Text} (hb : IsNormal base)
include hb

theorem le_countP_moves {name : Text} (hn : name.head? ≠ some '/')
    (h : resolve base name .fileSystem = .ok target) :
    depth base + depth target - 2 * shared base target ≤ (pieces name).countP Moves := by
  obtain ⟨hclimb, hsegs⟩ := climb_le_of_resolve hn hb h
  have hlength : ((segments base).take (depth base - climb (pieces name))).length =
      depth base - climb (pieces name) :=
    List.length_take_of_le (Nat.sub_le _ _)
  have hdepth : depth target =
      depth base - climb (pieces name) + (survivors (pieces name)).length := by
    rw [depth, hsegs, List.length_append, hlength]
  have hshared : depth base - climb (pieces name) ≤ shared base target := by
    rw [← hlength]
    refine (isPrefix_commonPrefix_iff.2 ⟨List.take_prefix _ _, ?_⟩).length_le
    rw [hsegs]
    exact List.prefix_append _ _
  have hmoves := climb_add_length_survivors_le (pieces name)
  omega

variable (ht : IsNormal target)
include ht

theorem segments_eq_iff : segments base = segments target ↔ base = target :=
  ⟨hb.eq_of_segments_eq ht, congrArg segments⟩

theorem pieces_relative :
    pieces (relative base target) =
      if base = target then [here] else route (segments base) (segments target) := by
  rw [pieces, fixSeparators_of_notMem (notMem_relative hb ht), relative_eq_route hb ht]
  simp only [route_eq_nil_iff, segments_eq_iff hb ht]
  split
  · decide
  · rename_i hne
    have hroute : route (segments base) (segments target) ≠ [] := fun h =>
      hne ((segments_eq_iff hb ht).1 (route_eq_nil_iff.1 h))
    exact Text.split_join hroute fun s hs => (isPiece_of_mem_route ht.ordinary hs).2

theorem countP_moves_relative :
    (pieces (relative base target)).countP Moves =
      depth base + depth target - 2 * shared base target := by
  have hlength := @length_route (segments base) (segments target)
  rw [pieces_relative hb ht]
  split
  · rename_i he
    rw [route_eq_nil_iff.2 (congrArg segments he)] at hlength
    exact hlength
  · refine Eq.trans (List.countP_eq_length.2 fun s hs => ?_) hlength
    obtain rfl | hs := mem_route hs
    · exact decide_eq_true moves_up
    · exact decide_eq_true (ht.ordinary s hs).plain.moves

theorem up_mem_pieces_relative_iff :
    up ∈ pieces (relative base target) ↔ ¬ segments base <+: segments target := by
  rw [pieces_relative hb ht]
  split
  · rename_i he
    subst he
    exact iff_of_false (by decide) fun h => h List.prefix_rfl
  · exact up_mem_route_iff ht.ordinary

theorem relative_eq_relativeBySegments : relative base target = relativeBySegments base target := by
  rw [relative_eq_route hb ht, relativeBySegments]
  cases route (segments base) (segments target) <;> rfl

theorem relative_eq_join :
    relative base target =
      if base = target then here
      else Text.join '/' (List.replicate (depth base - shared base target) up ++
        (segments target).drop (shared base target)) := by
  rw [relative_eq_route hb ht]
  simp only [route_eq_nil_iff, segments_eq_iff hb ht]
  rw [route_eq]
  rfl

end Normal

/-- The relative path goes back over what the base has below the segments that both paths
share, and on over what the target has there; `.` stands for no way at all. A name that is
taken from the base and leads to the target has no fewer segments that move it. The
relative path has no `..` just when the target is the base or lies below it. The way from
the root, which is read off the characters, is the one that is read off the segments. -/
theorem relative_shortest :
    (∀ c as bs : List Text, c <+: commonPrefix as bs ↔ c <+: as ∧ c <+: bs) ∧
    (∀ base target : Text, IsNormal base → IsNormal target →
      relative base target =
        (if base = target then here
        else Text.join '/' (List.replicate (depth base - shared base target) up ++
          (segments target).drop (shared base target))) ∧
      ((relative base target).head? ≠ some '/' ∧
        resolve base (relative base target) .fileSystem = .ok target ∧
        (pieces (relative base target)).countP Moves =
          depth base + depth target - 2 * shared base target) ∧
      (∀ name : Text, name.head? ≠ some '/' → resolve base name .fileSystem = .ok target →
        depth base + depth target - 2 * shared base target ≤ (pieces name).countP Moves) ∧
      (up ∉ pieces (relative base target) ↔ segments base <+: segments target)) ∧
    (∀ base target : Text, base ≠ ['/'] →
      relative base target = relativeBySegments base target) ∧
    ∀ target : Text, IsNormal target →
      relative ['/'] target = relativeBySegments ['/'] target := by
  refine ⟨fun c as bs => isPrefix_commonPrefix_iff, ?_, fun base target hne => if_neg hne, ?_⟩
  · intro base target hb ht
    have hup := up_mem_pieces_relative_iff hb ht
    refine ⟨relative_eq_join hb ht, ⟨head?_relative hb ht, resolve_relative_fileSystem hb ht,
      countP_moves_relative hb ht⟩, fun name hn h => le_countP_moves hb hn h, ?_⟩
    rw [hup, Classical.not_not]
  · intro target ht
    exact relative_eq_relativeBySegments .root ht

theorem relative_shortest_sibling :
    IsNormal "/a/b".toList ∧ IsNormal "/a/bc".toList ∧ IsNormal "/a..b".toList ∧
      relative "/a/b".toList "/a/bc".toList = "../bc".toList ∧
      resolve "/a/b".toList "x\\..//.././bc".toList .fileSystem = .ok "/a/bc".toList ∧
      2 ≤ (pieces "x\\..//.././bc".toList).countP Moves ∧
      up ∉ pieces (relative ['/'] "/a..b".toList) ∧
      relative "/a/b".toList "/a/bc".toList = relativeBySegments "/a/b".toList "/a/bc".toList ∧
      relative ['/'] "/a..b".toList = relativeBySegments ['/'] "/a..b".toList := by
  have hb : IsNormal "/a/b".toList := by decide
  have ht : IsNormal "/a/bc".toList := by decide
  have hd : IsNormal "/a..b".toList := by decide
  have around : resolve "/a/b".toList "x\\..//.././bc".toList .fileSystem = .ok "/a/bc".toList :=
    rfl
  obtain ⟨-, ways, general, root⟩ := relative_shortest
  have sibling := ways "/a/b".toList "/a/bc".toList hb ht
  have below := ways ['/'] "/a..b".toList (by decide) hd
  exact ⟨hb, ht, hd, sibling.1, around, sibling.2.2.1 _ (by decide) around,
    below.2.2.2.2 (by decide), general _ _ (by decide), root _ hd⟩

end FileNaming.Path
