import FileNaming.Path.Normal
import FileNaming.Proofs.Text.Pieces

/-! Normalizing a path is a walk over its segments, and the walk depends on
nothing else: empty segments move nowhere. A walk over ordinary segments goes
down all of them, and every place it can reach consists of ordinary segments. -/

namespace FileNaming

namespace Path

theorem fixSeparators_append (a b : Text) :
    fixSeparators (a ++ b) = fixSeparators a ++ fixSeparators b :=
  List.map_append

theorem notMem_fixSeparators (t : Text) : '\\' ∉ fixSeparators t := by
  intro h
  obtain ⟨c, -, hc⟩ := List.mem_map.1 h
  by_cases hb : c = '\\' <;> simp [hb] at hc

theorem fixSeparators_of_notMem {t : Text} (h : '\\' ∉ t) : fixSeparators t = t := by
  induction t with
  | nil => rfl
  | cons c t ih =>
    simp only [List.mem_cons, not_or] at h
    have ht : fixSeparators t = t := ih h.2
    simpa [fixSeparators, Ne.symm h.1] using ht

theorem head?_fixSeparators {t : Text} (h : t.head? = some '/') :
    (fixSeparators t).head? = some '/' := by
  obtain ⟨t, rfl⟩ := List.head?_eq_some_iff.1 h
  rfl

theorem segments_append_slash (a b : Text) :
    segments (a ++ '/' :: b) = segments a ++ segments b := by
  unfold segments
  rw [Text.split_append_cons, List.filter_append]

theorem segments_slash_cons (t : Text) : segments ('/' :: t) = segments t :=
  segments_append_slash [] t

theorem Ordinary.isPiece {s : Text} (h : Ordinary s) : s ≠ [] ∧ '/' ∉ s :=
  ⟨h.ne_nil, h.no_slash⟩

theorem segments_join {segs : List Text} (h : ∀ s ∈ segs, s ≠ [] ∧ '/' ∉ s) :
    segments (Text.join '/' segs) = segs := by
  cases segs with
  | nil => rfl
  | cons s segs =>
    unfold segments
    rw [Text.split_join (by simp) fun p hp => (h p hp).2, List.filter_eq_self]
    intro p hp
    simp [(h p hp).1]

theorem segments_ofSegments {segs : List Text} (h : ∀ s ∈ segs, Ordinary s) :
    segments (ofSegments segs) = segs := by
  unfold ofSegments
  rw [segments_slash_cons, segments_join fun s hs => (h s hs).isPiece]

theorem notMem_of_mem_segments {t s : Text} (h : s ∈ segments t) : '/' ∉ s :=
  Text.notMem_of_mem_split (List.mem_filter.1 h).1

theorem mem_of_mem_segments {t s : Text} {c : Char} (h : s ∈ segments t) (hc : c ∈ s) : c ∈ t :=
  Text.mem_of_mem_split (List.mem_filter.1 h).1 hc

theorem exists_mem_segments {t : Text} {c : Char} (hc : c ≠ '/') (h : c ∈ t) :
    ∃ s ∈ segments t, c ∈ s := by
  rw [← Text.join_split '/' t] at h
  obtain rfl | ⟨s, hs, hm⟩ := Text.mem_join h
  · exact absurd rfl hc
  · exact ⟨s, List.mem_filter.2 ⟨hs, by simpa using List.ne_nil_of_mem hm⟩, hm⟩

theorem ofSegments_injective {segs segs' : List Text} (h : ∀ s ∈ segs, Ordinary s)
    (h' : ∀ s ∈ segs', Ordinary s) (he : ofSegments segs = ofSegments segs') : segs = segs' := by
  rw [← segments_ofSegments h, he, segments_ofSegments h']

theorem ofSegments_append {as bs : List Text} (ha : as ≠ []) (hb : bs ≠ []) :
    ofSegments (as ++ bs) = ofSegments as ++ ofSegments bs := by
  unfold ofSegments
  rw [Text.join_append ha hb, List.cons_append]

theorem notMem_join_of_ordinary {segs : List Text} (h : ∀ s ∈ segs, Ordinary s) :
    '\\' ∉ Text.join '/' segs := by
  intro hm
  obtain hc | ⟨s, hs, hc⟩ := Text.mem_join hm
  · exact absurd hc (by decide)
  · exact (h s hs).no_backslash hc

namespace IsNormal
variable {p q : Text}

theorem root : IsNormal ['/'] :=
  ⟨[], by simp, rfl⟩

theorem ordinary (hp : IsNormal p) : ∀ s ∈ segments p, Ordinary s := by
  obtain ⟨segs, hs, rfl⟩ := hp
  rwa [segments_ofSegments hs]

theorem ofSegments_segments (hp : IsNormal p) : ofSegments (segments p) = p := by
  obtain ⟨segs, hs, rfl⟩ := hp
  rw [segments_ofSegments hs]

theorem eq_of_segments_eq (hp : IsNormal p) (hq : IsNormal q) (h : segments p = segments q) :
    p = q := by
  rw [← hp.ofSegments_segments, h, hq.ofSegments_segments]

theorem notMem_backslash (hp : IsNormal p) : '\\' ∉ p := by
  intro h
  rw [← hp.ofSegments_segments, ofSegments, List.mem_cons] at h
  rcases h with h | h
  · exact absurd h (by decide)
  · exact notMem_join_of_ordinary hp.ordinary h

end IsNormal

instance (s : Text) : Decidable (Ordinary s) :=
  decidable_of_iff (s ≠ [] ∧ s ≠ here ∧ s ≠ up ∧ '/' ∉ s ∧ '\\' ∉ s)
    ⟨fun ⟨h₁, h₂, h₃, h₄, h₅⟩ => ⟨h₁, h₂, h₃, h₄, h₅⟩,
      fun ⟨h₁, h₂, h₃, h₄, h₅⟩ => ⟨h₁, h₂, h₃, h₄, h₅⟩⟩

theorem isNormal_iff {p : Text} :
    IsNormal p ↔ (∀ s ∈ segments p, Ordinary s) ∧ p = ofSegments (segments p) :=
  ⟨fun hp => ⟨hp.ordinary, hp.ofSegments_segments.symm⟩, fun h => ⟨segments p, h⟩⟩

instance (p : Text) : Decidable (IsNormal p) :=
  decidable_of_iff _ isNormal_iff.symm

theorem advance_blank (stack : List Text) {s : Text} (h : s = [] ∨ s = here) :
    advance stack s = some stack :=
  if_pos h

theorem advance_up (stack : List Text) : advance stack up = stack.tail? := by
  simp [advance, up, here]

theorem advance_ordinary (stack : List Text) {s : Text} (h : Ordinary s) :
    advance stack s = some (s :: stack) := by
  simp [advance, h.ne_nil, h.ne_here, h.ne_up]

theorem foldlM_advance_ordinary (stack : List Text) {segs : List Text}
    (h : ∀ s ∈ segs, Ordinary s) : segs.foldlM advance stack = some (segs.reverse ++ stack) := by
  induction segs generalizing stack with
  | nil => rfl
  | cons s segs ih =>
    rw [List.foldlM_cons, advance_ordinary stack (h s (by simp))]
    simpa using ih (s :: stack) fun r hr => h r (List.mem_cons_of_mem s hr)

theorem foldlM_advance_up (stack down segs : List Text) (h : down.length = segs.length) :
    (segs.map fun _ => up).foldlM advance (down ++ stack) = some stack := by
  induction segs generalizing down with
  | nil => simp_all
  | cons s segs ih =>
    cases down with
    | nil => cases h
    | cons d down =>
      rw [List.map_cons, List.foldlM_cons, advance_up]
      exact ih down (by simpa using h)

theorem foldlM_advance_filter (stack segs : List Text) :
    (segs.filter (· ≠ [])).foldlM advance stack = segs.foldlM advance stack := by
  induction segs generalizing stack with
  | nil => rfl
  | cons s segs ih =>
    by_cases hs : s = []
    · rw [List.filter_cons_of_neg (by simp [hs]), ih, List.foldlM_cons,
        advance_blank stack (.inl hs)]
      rfl
    · rw [List.filter_cons_of_pos (by simp [hs]), List.foldlM_cons, List.foldlM_cons]
      exact congrArg _ (funext ih)

theorem walk_split (t : Text) : walk (Text.split '/' t) = walk (segments t) := by
  unfold walk segments
  rw [foldlM_advance_filter]

theorem advance_keeps_ordinary {stack stack' : List Text} {s : Text}
    (hs : '/' ∉ s ∧ '\\' ∉ s) (hst : ∀ r ∈ stack, Ordinary r)
    (h : advance stack s = some stack') : ∀ r ∈ stack', Ordinary r := by
  unfold advance at h
  split at h
  · cases h
    exact hst
  · rename_i hb
    rw [not_or] at hb
    split at h
    · obtain ⟨r, rfl⟩ : ∃ r, stack = r :: stack' := by
        cases stack with
        | nil => cases h
        | cons r stack =>
          cases h
          exact ⟨r, rfl⟩
      exact fun q hq => hst q (List.mem_cons_of_mem r hq)
    · rename_i hu
      cases h
      intro r hr
      rcases List.mem_cons.1 hr with rfl | hr
      · exact ⟨hb.1, hb.2, hu, hs.1, hs.2⟩
      · exact hst r hr

theorem foldlM_advance_keeps_ordinary {stack stack' segs : List Text}
    (hs : ∀ s ∈ segs, '/' ∉ s ∧ '\\' ∉ s) (hst : ∀ r ∈ stack, Ordinary r)
    (h : segs.foldlM advance stack = some stack') : ∀ r ∈ stack', Ordinary r := by
  induction segs generalizing stack with
  | nil =>
    cases h
    exact hst
  | cons s segs ih =>
    rw [List.foldlM_cons] at h
    obtain ⟨next, hn, h⟩ := Option.bind_eq_some_iff.1 h
    exact ih (fun r hr => hs r (List.mem_cons_of_mem s hr))
      (advance_keeps_ordinary (hs s (by simp)) hst hn) h

theorem walk_ordinary {t : Text} {place : List Text}
    (h : walk (segments (fixSeparators t)) = some place) : ∀ s ∈ place, Ordinary s := by
  obtain ⟨stack, hst, rfl⟩ := Option.map_eq_some_iff.1 h
  -- no separator of either kind is left in a segment
  have hs : ∀ s ∈ segments (fixSeparators t), '/' ∉ s ∧ '\\' ∉ s := fun s hs =>
    ⟨notMem_of_mem_segments hs, fun hb => notMem_fixSeparators t (mem_of_mem_segments hs hb)⟩
  intro s hm
  exact foldlM_advance_keeps_ordinary hs (by simp) hst s (List.mem_reverse.1 hm)

theorem normalize_eq_walk (t : Text) :
    normalize t =
      match walk (segments (fixSeparators t)) with
      | none => .error (.escapesRoot (fixSeparators t))
      | some place =>
        .ok (if (fixSeparators t).head? = some '/' then ofSegments place
          else Text.join '/' place) := by
  unfold normalize
  cases h : walk (segments (fixSeparators t)) <;> simp only [walk_split, h]

end Path
end FileNaming
