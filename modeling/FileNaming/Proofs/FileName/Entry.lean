import FileNaming.FileName.Reader
import FileNaming.FileName.WellFormed
import FileNaming.Proofs.Path.Walk

/-! The entry of a layered URI: where the text is cut, and that the outer URI is
read first. The cut falls on the last mark, so what is behind it has none. -/

namespace FileNaming

namespace Path

theorem noEntryMark_nil : NoEntryMark [] := by
  intro a b h
  cases a <;> cases h

theorem noEntryMark_cons {c : Char} {t : Text} :
    NoEntryMark (c :: t) ↔ ¬ (c = '!' ∧ (t = [] ∨ t.head? = some '/')) ∧ NoEntryMark t := by
  constructor
  · intro h
    refine ⟨fun ⟨hc, ht⟩ => ?_, fun a b hab => h (c :: a) b (by rw [hab]; rfl)⟩
    have hm := h [] t (by rw [hc]; rfl)
    exact ht.elim hm.1 hm.2
  · rintro ⟨hc, ht⟩ a b hab
    cases a with
    | nil =>
      cases hab
      exact ⟨fun hb => hc ⟨rfl, .inl hb⟩, fun hb => hc ⟨rfl, .inr hb⟩⟩
    | cons x a =>
      cases hab
      exact ht a b rfl

theorem segments_behind_mark {a b : Text} (hp : IsNormal (a ++ '!' :: b))
    (hb : b = [] ∨ b.head? = some '/') :
    (∀ s ∈ segments b, Ordinary s) ∧
      (segments b).length < (segments (a ++ '!' :: b)).length := by
  -- `b` begins with a separator, so a segment ends at the mark
  have happ : segments (a ++ '!' :: b) = segments (a ++ ['!']) ++ segments b := by
    rcases hb with rfl | hb
    · exact (List.append_nil _).symm
    · cases b with
      | nil => cases hb
      | cons c b =>
        cases hb
        rw [segments_slash_cons, ← segments_append_slash, List.append_assoc]
        rfl
  obtain ⟨s, hs, -⟩ : ∃ s ∈ segments (a ++ ['!']), '!' ∈ s :=
    exists_mem_segments (by decide) (by simp)
  refine ⟨fun r hr => hp.ordinary r ?_, ?_⟩
  · rw [happ]
    exact List.mem_append_right _ hr
  · have hpos : 0 < (segments (a ++ ['!'])).length := List.length_pos_of_mem hs
    rw [happ, List.length_append]
    omega

end Path

namespace FileName

theorem cutEntry_eq_none_iff {t : Text} : cutEntry t = none ↔ Path.NoEntryMark t := by
  induction t with
  | nil => exact iff_of_true rfl Path.noEntryMark_nil
  | cons c t ih =>
    rw [Path.noEntryMark_cons, ← ih, cutEntry]
    cases cutEntry t with
    | some q => simp
    | none => simp

theorem cutEntry_append {a b : Text} (hb : b = [] ∨ b.head? = some '/')
    (hm : Path.NoEntryMark b) : cutEntry (a ++ '!' :: b) = some (a, b) := by
  induction a with
  | nil => rw [List.nil_append, cutEntry, cutEntry_eq_none_iff.2 hm, if_pos ⟨rfl, hb⟩]
  | cons c a ih => rw [List.cons_append, cutEntry, ih]

theorem cutEntry_eq_some_iff {t a b : Text} :
    cutEntry t = some (a, b) ↔
      t = a ++ '!' :: b ∧ (b = [] ∨ b.head? = some '/') ∧ Path.NoEntryMark b := by
  constructor
  · intro h
    induction t generalizing a with
    | nil => cases h
    | cons c t ih =>
      rw [cutEntry] at h
      cases hc : cutEntry t with
      | some q =>
        rw [hc] at h
        cases h
        obtain ⟨ht, hb⟩ := ih hc
        exact ⟨by rw [List.cons_append, ← ht], hb⟩
      | none =>
        simp only [hc, Option.ite_none_right_eq_some, Option.some.injEq, Prod.mk.injEq] at h
        obtain ⟨⟨rfl, ht⟩, rfl, rfl⟩ := h
        exact ⟨rfl, ht, cutEntry_eq_none_iff.1 hc⟩
  · rintro ⟨rfl, hb, hm⟩
    exact cutEntry_append hb hm

theorem cutEntry_append_left {t a b : Text} (h : cutEntry t = some (a, b)) (u : Text) :
    cutEntry (u ++ t) = some (u ++ a, b) := by
  obtain ⟨rfl, hb, hm⟩ := cutEntry_eq_some_iff.1 h
  rw [← List.append_assoc]
  exact cutEntry_append hb hm

theorem splitLayer_append {outer raw : Text} (hb : raw = [] ∨ raw.head? = some '/')
    (hm : Path.NoEntryMark raw) : splitLayer (outer ++ '!' :: raw) = some (outer, raw) := by
  rw [splitLayer, cutEntry_append hb hm]

theorem raw_of_splitLayer {t outer raw : Text} (h : splitLayer t = some (outer, raw)) :
    raw = [] ∨ raw.head? = some '/' := by
  unfold splitLayer at h
  split at h
  · rename_i q hq
    cases h
    exact (cutEntry_eq_some_iff.1 hq).2.1
  · split at h
    · cases h
    · cases h
      exact .inl rfl

instance (p : Text) : Decidable (Path.NoEntryMark p) :=
  decidable_of_iff _ cutEntry_eq_none_iff

theorem cutEntry_cons_of_ne {c : Char} (h : c ≠ '!') (t : Text) :
    cutEntry (c :: t) = (cutEntry t).map fun q => (c :: q.1, q.2) := by
  rw [cutEntry]
  cases cutEntry t with
  | none => simp [h]
  | some q => rfl

theorem cutEntry_append_of_notMem {u : Text} (h : '!' ∉ u) (t : Text) :
    cutEntry (u ++ t) = (cutEntry t).map fun q => (u ++ q.1, q.2) := by
  induction u with
  | nil => simp
  | cons c u ih =>
    simp only [List.mem_cons, not_or] at h
    rw [List.cons_append, cutEntry_cons_of_ne (Ne.symm h.1), ih h.2, Option.map_map]
    rfl

theorem cutEntry_append_colon {u : Text} (h : '/' ∉ u) (t : Text) :
    cutEntry (u ++ ':' :: t) = (cutEntry t).map fun q => (u ++ ':' :: q.1, q.2) := by
  induction u with
  | nil => exact cutEntry_cons_of_ne (by decide) t
  | cons c u ih =>
    simp only [List.mem_cons, not_or] at h
    rw [List.cons_append, cutEntry, ih h.2]
    cases cutEntry t with
    | some q => rfl
    | none =>
      have hhead : (u ++ ':' :: t).head? ≠ some '/' := by
        cases u with
        | nil => simp
        | cons d u =>
          have hd : '/' ≠ d := fun hd => h.2 (hd ▸ List.mem_cons_self)
          simpa using hd.symm
      exact if_neg fun hm => hm.2.elim (by simp) hhead

section Layered
variable {uri s rest : Text} (h : Scheme.cut uri = some (s, rest))
  (hk : Scheme.kind? (s.map Char.toLower) = some .layered)
include h hk

theorem ofUri_of_splitLayer_eq_none (hl : splitLayer rest = none) :
    ofUri uri = .error (malformed uri) := by
  rw [ofUri_of_layered h hk, hl]

theorem ofUri_of_splitLayer {outer raw : Text} (hl : splitLayer rest = some (outer, raw)) :
    ofUri uri = (ofUri outer).bind (ofEntry (s.map Char.toLower) raw) := by
  rw [ofUri_of_layered h hk, hl]
  dsimp only
  cases ofUri outer <;> rfl

end Layered

theorem ofUri_eq_ok {uri : Text} {n : FileName} (h : ofUri uri = .ok n) :
    ∃ s rest, Scheme.cut uri = some (s, rest) ∧
      (Scheme.kind? (s.map Char.toLower) = some .rooted ∧
          ofRooted uri (s.map Char.toLower) rest = .ok n ∨
        (∃ port, Scheme.kind? (s.map Char.toLower) = some (.hosted port) ∧
          ofHosted (s.map Char.toLower) port rest = .ok n) ∨
        Scheme.kind? (s.map Char.toLower) = some .layered ∧
          ∃ outer raw o, splitLayer rest = some (outer, raw) ∧ ofUri outer = .ok o ∧
            ofEntry (s.map Char.toLower) raw o = .ok n) := by
  cases hs : Scheme.cut uri with
  | none =>
    rw [ofUri_of_cut_eq_none hs] at h
    cases h
  | some q =>
    obtain ⟨s, rest⟩ := q
    refine ⟨s, rest, rfl, ?_⟩
    cases hk : Scheme.kind? (s.map Char.toLower) with
    | none =>
      rw [ofUri_of_unknown hs hk] at h
      cases h
    | some kind =>
      cases kind with
      | rooted =>
        rw [ofUri_of_rooted hs hk] at h
        exact .inl ⟨rfl, h⟩
      | hosted port =>
        rw [ofUri_of_hosted hs hk] at h
        exact .inr (.inl ⟨port, rfl, h⟩)
      | layered =>
        cases hl : splitLayer rest with
        | none =>
          rw [ofUri_of_splitLayer_eq_none hs hk hl] at h
          cases h
        | some r =>
          obtain ⟨outer, raw⟩ := r
          rw [ofUri_of_splitLayer hs hk hl] at h
          obtain ⟨o, ho, hn⟩ := NameError.bind_eq_ok_iff.1 h
          exact .inr (.inr ⟨rfl, outer, raw, o, rfl, ho, hn⟩)

end FileName
end FileNaming
