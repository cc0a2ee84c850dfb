import FileNaming.FileName.Basic
import FileNaming.Proofs.Path.Boundary
import FileNaming.Proofs.Path.Normality

/-! Going to the parent again and again. Each step leaves the last segment of the path and
nothing else changes, so the names on the way are those that the scope checks call
ancestors, and the way is as long as the path is deep. -/

namespace FileNaming

namespace Path

theorem IsNormal.ordinary_take {p : Text} (hp : IsNormal p) (k : Nat) :
    ∀ s ∈ (segments p).take k, Ordinary s :=
  fun s hs => hp.ordinary s (List.mem_of_mem_take hs)

theorem dropLast_take_sub (segs : List Text) (k : Nat) :
    (segs.take (segs.length - k)).dropLast = segs.take (segs.length - (k + 1)) := by
  rw [List.dropLast_eq_take, List.length_take_of_le (Nat.sub_le _ _), List.take_take,
    Nat.min_eq_left (Nat.sub_le _ _), Nat.sub_sub]

theorem eq_take_iff {base segs : List Text} {k : Nat} :
    k ≤ segs.length ∧ base = segs.take (segs.length - k) ↔
      base <+: segs ∧ segs.length = base.length + k := by
  constructor
  · rintro ⟨hk, rfl⟩
    rw [List.length_take_of_le (Nat.sub_le _ _), Nat.sub_add_cancel hk]
    exact ⟨List.take_prefix _ _, rfl⟩
  · rintro ⟨hp, hl⟩
    rw [hl, Nat.add_sub_cancel]
    exact ⟨Nat.le_add_left k _, List.prefix_iff_eq_take.1 hp⟩

end Path

namespace FileName

/-- The name that is reached by going to the parent so many times. -/
def ancestor? (n : FileName) : Nat → Option FileName
  | 0 => some n
  | k + 1 => (n.ancestor? k).bind parent?

def above (n : FileName) (k : Nat) : FileName :=
  n.withPath (Path.ofSegments ((Path.segments n.path).take (n.depth - k)))

section Chain
variable {n : FileName} (hn : Path.IsNormal n.path)
include hn

theorem above_zero : n.above 0 = n := by
  have hall : (Path.segments n.path).take (n.depth - 0) = Path.segments n.path := List.take_length
  rw [above, hall, hn.ofSegments_segments]
  rfl

theorem isNormal_above (k : Nat) : Path.IsNormal (n.above k).path :=
  ⟨_, hn.ordinary_take _, rfl⟩

theorem segments_above (k : Nat) :
    Path.segments (n.above k).path = (Path.segments n.path).take (n.depth - k) :=
  Path.segments_ofSegments (hn.ordinary_take _)

theorem depth_above (k : Nat) : (n.above k).depth = n.depth - k :=
  (congrArg List.length (segments_above hn k)).trans (List.length_take_of_le (Nat.sub_le _ _))

theorem parent?_above (k : Nat) :
    (n.above k).parent? = if k < n.depth then some (n.above (k + 1)) else none := by
  have hnil : Path.segments (n.above k).path = [] ↔ ¬ k < n.depth := by
    have hlength : (Path.segments (n.above k).path).length = n.depth - k := depth_above hn k
    rw [← List.length_eq_zero_iff, hlength, Nat.sub_eq_zero_iff_le, Nat.not_lt]
  have hdrop : (Path.segments (n.above k).path).dropLast =
      (Path.segments n.path).take (n.depth - (k + 1)) := by
    rw [segments_above hn]
    exact Path.dropLast_take_sub (Path.segments n.path) k
  unfold parent?
  rw [Path.parent?_eq (isNormal_above hn k), hdrop]
  by_cases hk : k < n.depth
  · rw [if_neg fun h => hnil.1 h hk, if_pos hk]
    rfl
  · rw [if_pos (hnil.2 hk), if_neg hk]
    rfl

theorem ancestor?_eq (k : Nat) :
    n.ancestor? k = if k ≤ n.depth then some (n.above k) else none := by
  induction k with
  | zero => rw [if_pos (Nat.zero_le _), above_zero hn, ancestor?]
  | succ k ih =>
    rw [ancestor?, ih]
    by_cases hk : k ≤ n.depth
    · -- the last name on the way is the root, and from there it ends
      rw [if_pos hk, Option.bind_some, parent?_above hn]
      rfl
    · rw [if_neg hk, if_neg fun h => hk (Nat.le_of_succ_le h)]
      rfl

end Chain

section Pair
variable {a b : FileName} (ha : Path.IsNormal a.path) (hb : Path.IsNormal b.path)
include ha hb

theorem same_above_iff (k : Nat) :
    a.Same (b.above k) ↔ a.rootUri = b.rootUri ∧
      Path.segments a.path = (Path.segments b.path).take (b.depth - k) := by
  rw [← segments_above hb]
  constructor
  · intro h
    exact ⟨congrArg Prod.fst h, congrArg Path.segments (congrArg Prod.snd h)⟩
  · rintro ⟨hr, hs⟩
    exact Prod.ext hr (ha.eq_of_segments_eq (isNormal_above hb k) hs)

theorem exists_ancestor?_iff (k : Nat) :
    (∃ m, b.ancestor? k = some m ∧ a.Same m) ↔ a.rootUri = b.rootUri ∧
      Path.segments a.path <+: Path.segments b.path ∧ b.depth = a.depth + k := by
  have htake : k ≤ b.depth ∧ Path.segments a.path = (Path.segments b.path).take (b.depth - k) ↔
      Path.segments a.path <+: Path.segments b.path ∧ b.depth = a.depth + k := Path.eq_take_iff
  rw [← htake, ancestor?_eq hb]
  constructor
  · rintro ⟨m, hm, hs⟩
    obtain ⟨hk, hm⟩ := Option.ite_none_right_eq_some.1 hm
    cases hm
    have hsame := (same_above_iff ha hb k).1 hs
    exact ⟨hsame.1, hk, hsame.2⟩
  · rintro ⟨hr, hk, hs⟩
    exact ⟨_, if_pos hk, (same_above_iff ha hb k).2 ⟨hr, hs⟩⟩

theorem isWithin_iff_relates (scope : Scope) :
    b.isWithin a scope = true ↔ a.rootUri = b.rootUri ∧
      scope.Relates (Path.segments a.path) (Path.segments b.path) := by
  rw [isWithin, Bool.and_eq_true, decide_eq_true_eq, Path.inScope_iff_relates scope ha hb,
    eq_comm]

theorem isDescendentOf_iff_ancestor? :
    b.isDescendentOf a = true ↔ ∃ k, 1 ≤ k ∧ ∃ m, b.ancestor? k = some m ∧ a.Same m := by
  rw [isDescendentOf, isWithin_iff_relates ha hb]
  simp only [exists_ancestor?_iff ha hb]
  constructor
  · rintro ⟨hr, hp, hne⟩
    have hlt : a.depth < b.depth :=
      Nat.lt_of_not_le fun h => hne (hp.eq_of_length_le h)
    exact ⟨b.depth - a.depth, by omega, hr, hp, by omega⟩
  · rintro ⟨k, hk, hr, hp, hd⟩
    refine ⟨hr, hp, fun he => ?_⟩
    have hdepth : a.depth = b.depth := congrArg List.length he
    omega

theorem isWithin_child_iff_parent? :
    b.isWithin a .child = true ↔ ∃ m, b.parent? = some m ∧ a.Same m := by
  rw [isWithin_iff_relates ha hb, Scope.relates_child_iff]
  exact (exists_ancestor?_iff ha hb 1).symm

end Pair

theorem isAncestorOf_eq_isDescendentOf (a b : FileName) :
    a.isAncestorOf b = b.isDescendentOf a := by
  rw [isAncestorOf, isDescendentOf, isWithin, decide_eq_decide.2 eq_comm]

theorem ancestor?_depth {n : FileName} (hn : Path.IsNormal n.path) :
    n.ancestor? n.depth = some (n.withPath ['/']) := by
  have hroot : n.above n.depth = n.withPath ['/'] := by
    rw [above, Nat.sub_self]
    rfl
  rw [ancestor?_eq hn, if_pos (Nat.le_refl _), hroot]

theorem eq_depth_of_ancestor? {n m : FileName} {k : Nat} (hn : Path.IsNormal n.path)
    (hm : n.ancestor? k = some m) (hroot : m.path = ['/']) : k = n.depth := by
  rw [ancestor?_eq hn] at hm
  obtain ⟨hk, hm⟩ := Option.ite_none_right_eq_some.1 hm
  cases hm
  have hdepth : (n.above k).depth = 0 := congrArg Path.depth hroot
  rw [depth_above hn] at hdepth
  omega

/-- A name is an ancestor of another just when it is reached from it by going to the parent
at least once, and then the other is its descendent; it is a child just when the first step
leads there. From every name the root is reached after as many steps as it is deep, no
sooner and no later, and there is nothing above it. -/
theorem isAncestorOf_iff_ancestor? {a b : FileName} (ha : Path.IsNormal a.path)
    (hb : Path.IsNormal b.path) :
    (a.isAncestorOf b = true ↔ ∃ k, 1 ≤ k ∧ ∃ m, b.ancestor? k = some m ∧ a.Same m) ∧
    (a.isAncestorOf b = true ↔ b.isDescendentOf a = true) ∧
    (b.isWithin a .child = true ↔ ∃ m, b.parent? = some m ∧ m.Same a) ∧
    ∃ root, b.ancestor? b.depth = some root ∧ root.path = ['/'] ∧ root.parent? = none ∧
      ∀ k m, b.ancestor? k = some m → m.path = ['/'] → k = b.depth := by
  rw [isAncestorOf_eq_isDescendentOf]
  refine ⟨isDescendentOf_iff_ancestor? ha hb, Iff.rfl, ?_, ?_⟩
  · rw [isWithin_child_iff_parent? ha hb]
    simp only [Same, eq_comm]
  · exact ⟨_, ancestor?_depth hb, rfl, rfl, fun k m hm hroot => eq_depth_of_ancestor? hb hm hroot⟩

theorem isAncestorOf_iff_ancestor?_archive :
    ∃ dir entry : FileName, dir.uri = "zip:file:///x/a.zip!/d".toList ∧
      entry.uri = "zip:file:///x/a.zip!/d/e/f".toList ∧
      Path.IsNormal dir.path ∧ Path.IsNormal entry.path ∧
      dir.isAncestorOf entry = true ∧ entry.isDescendentOf dir = true ∧
      ¬ entry.isWithin dir .child = true ∧
      ∃ root, entry.ancestor? 3 = some root ∧ root.uri = "zip:file:///x/a.zip!/".toList ∧
        root.parent? = none := by
  let archive : Backend := .within ⟨"file".toList, "/x/a.zip".toList, .rooted ['/']⟩
  have hd : Path.IsNormal "/d".toList := by decide
  have he : Path.IsNormal "/d/e/f".toList := by decide
  obtain ⟨chain, inverse, child, root, hroot, -, hnone, -⟩ :=
    @isAncestorOf_iff_ancestor? ⟨"zip".toList, "/d".toList, archive⟩
      ⟨"zip".toList, "/d/e/f".toList, archive⟩ hd he
  have hdir := chain.2 ⟨2, by decide, _, rfl, rfl⟩
  refine ⟨_, _, rfl, rfl, hd, he, hdir, inverse.1 hdir, fun h => ?_, root, hroot, ?_, hnone⟩
  · obtain ⟨m, hm, hsame⟩ := child.1 h
    cases hm
    exact absurd hsame (by decide)
  · cases hroot
    rfl

end FileName
end FileNaming
