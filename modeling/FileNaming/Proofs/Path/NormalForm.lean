import FileNaming.Proofs.Path.Cancellation
import FileNaming.Proofs.Path.Normality

/-! The normal form of an arbitrary text. A text has none just when its segments climb
above its start; otherwise the form is made of the segments that are not taken back,
and normalizing it again changes nothing. -/

namespace FileNaming.Path

def pieces (t : Text) : List Text :=
  Text.split '/' (fixSeparators t)

structure Reduced (p : Text) : Prop where
  plain : p ≠ [] → p ≠ ['/'] → ∀ s ∈ Text.split '/' (dropSeparator p), Plain s
  no_backslash : '\\' ∉ p
  no_trailing_slash : p ≠ ['/'] → p.getLast? ≠ some '/'

theorem dropSeparator_of_head? {t : Text} (h : t.head? ≠ some '/') : dropSeparator t = t := by
  unfold dropSeparator
  split
  · exact absurd rfl h
  · rfl

section Ordinary
variable {segs : List Text} (h : ∀ s ∈ segs, Ordinary s)
include h

theorem plain_of_mem_split_join (hne : segs ≠ []) :
    ∀ s ∈ Text.split '/' (Text.join '/' segs), Plain s := by
  rw [Text.split_join hne fun s hs => (h s hs).no_slash]
  exact fun s hs => (h s hs).plain

theorem reduced_join : Reduced (Text.join '/' segs) where
  plain hp _ := by
    rw [dropSeparator_of_head? (Text.head?_join fun s hs => (h s hs).isPiece)]
    exact plain_of_mem_split_join h (fun he => hp (he ▸ rfl))
  no_backslash := notMem_join_of_ordinary h
  no_trailing_slash _ := Text.getLast?_join fun s hs => (h s hs).isPiece

theorem reduced_ofSegments : Reduced (ofSegments segs) where
  plain _ hp := plain_of_mem_split_join h (fun he => hp (he ▸ rfl))
  no_backslash := IsNormal.notMem_backslash ⟨segs, h, rfl⟩
  no_trailing_slash hp := by
    have hj : Text.join '/' segs ≠ [] := fun he => hp (congrArg (List.cons '/') he)
    obtain ⟨c, t, ht⟩ := List.exists_cons_of_ne_nil hj
    rw [ofSegments, ht, List.getLast?_cons_cons, ← ht]
    exact Text.getLast?_join fun s hs => (h s hs).isPiece

theorem normalize_join : normalize (Text.join '/' segs) = .ok (Text.join '/' segs) := by
  have hs : segments (Text.join '/' segs) = segs := segments_join fun s hs => (h s hs).isPiece
  rw [normalize_of_ordinary (notMem_join_of_ordinary h) (hs.symm ▸ h), hs,
    if_neg (Text.head?_join fun s hs => (h s hs).isPiece)]

end Ordinary

section Normalize
variable {t : Text}

theorem normalize_of_climb (h : 0 < climb (pieces t)) :
    normalize t = .error (.escapesRoot (fixSeparators t)) := by
  rw [normalize, ← pieces, walk_eq, if_neg (Nat.ne_of_gt h)]

theorem normalize_of_not_climb (h : climb (pieces t) = 0) :
    normalize t =
      .ok (if (fixSeparators t).head? = some '/' then ofSegments (survivors (pieces t))
        else Text.join '/' (survivors (pieces t))) := by
  rw [normalize, ← pieces, walk_eq, if_pos h]

theorem survivors_ordinary (h : climb (pieces t) = 0) :
    ∀ s ∈ survivors (pieces t), Ordinary s := by
  have hw : walk (pieces t) = some (survivors (pieces t)) := by rw [walk_eq, if_pos h]
  rw [pieces, walk_split] at hw
  exact walk_ordinary hw

end Normalize

/-- A text has no normal form exactly if in some beginning of it `..` outnumbers the plain
segments. If there is none, it has one: a reduced path, absolute as the text is, of the
plain segments that no later `..` takes back, which is its own normal form. -/
theorem normalize_reduces (t : Text) :
    (∀ e, normalize t = .error e ↔ e = .escapesRoot (fixSeparators t) ∧
      ∃ q, q <+: pieces t ∧ q.countP Plain < q.count up) ∧
    ((∀ q, q <+: pieces t → q.count up ≤ q.countP Plain) →
      ∃ p, normalize t = .ok p ∧ (p.head? = some '/' ↔ (fixSeparators t).head? = some '/') ∧
        Reduced p ∧ segments p = survivors (pieces t) ∧ normalize p = .ok p) := by
  constructor
  · intro e
    rw [← climb_pos_iff]
    rcases Nat.eq_zero_or_pos (climb (pieces t)) with h | h
    · rw [normalize_of_not_climb h]
      exact iff_of_false nofun fun he => Nat.ne_of_gt he.2 h
    · rw [normalize_of_climb h, Except.error.injEq]
      exact ⟨fun he => ⟨he.symm, h⟩, fun he => he.1.symm⟩
  · intro hle
    have h : climb (pieces t) = 0 := climb_eq_zero_iff.2 hle
    have hs : ∀ s ∈ survivors (pieces t), Ordinary s := survivors_ordinary h
    refine ⟨_, normalize_of_not_climb h, ?_⟩
    split
    · rename_i ha
      have hn : IsNormal (ofSegments (survivors (pieces t))) := ⟨_, hs, rfl⟩
      exact ⟨iff_of_true hn.head? ha, reduced_ofSegments hs, segments_ofSegments hs,
        hn.normalize_eq⟩
    · rename_i ha
      have hp : ∀ s ∈ survivors (pieces t), s ≠ [] ∧ '/' ∉ s := fun s hm => (hs s hm).isPiece
      exact ⟨iff_of_false (Text.head?_join hp) ha, reduced_join hs, segments_join hp,
        normalize_join hs⟩

theorem normalize_reduces_to_nothing :
    normalize "a/../..\\b".toList = .error (.escapesRoot "a/../../b".toList) ∧
      ∃ p, normalize "a\\.//b/..\\../".toList = .ok p ∧ Reduced p ∧ segments p = [] := by
  have escapes := (normalize_reduces "a/../..\\b".toList).1 (.escapesRoot "a/../../b".toList)
  have reduces := (normalize_reduces "a\\.//b/..\\../".toList).2
  have hclimb : 0 < climb (pieces "a/../..\\b".toList) := by decide
  have hstay : climb (pieces "a\\.//b/..\\../".toList) = 0 := by decide
  have hnone : survivors (pieces "a\\.//b/..\\../".toList) = [] := by decide
  obtain ⟨p, hp, -, hred, hsegs, -⟩ := reduces (climb_eq_zero_iff.1 hstay)
  exact ⟨escapes.2 ⟨rfl, climb_pos_iff.1 hclimb⟩, p, hp, hred, hsegs.trans hnone⟩

end FileNaming.Path
