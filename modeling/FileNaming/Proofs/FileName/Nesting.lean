import FileNaming.Proofs.FileName.Valid
import FileNaming.Proofs.Uri.Scheme

/-! A layered URI is read layer by layer. It is taken apart into a scheme, an outer URI
and a raw path, and what it gives depends on the outer URI only through what that
gives. Outer URIs are shorter, so the layers of a URI come to an end. -/

namespace FileNaming

theorem Path.eq_escapesRoot_of_normalize {t : Text} {e : NameError}
    (h : Path.normalize t = .error e) : e = .escapesRoot (Path.fixSeparators t) := by
  rw [Path.normalize_eq_walk] at h
  split at h <;> cases h
  rfl

namespace FileName

def layer? (uri : Text) : Option (Text × Text × Text) :=
  match Scheme.cut uri with
  | none => none
  | some (s, rest) =>
    if Scheme.kind? (s.map Char.toLower) = some .layered then
      (splitLayer rest).map fun q => (s.map Char.toLower, q)
    else none

/-- What a layered URI gives, from what its outer URI gives: the outer error comes
first, then that of the path, and otherwise there is a name. -/
structure Layered (scheme raw : Text) (outer result : Except NameError FileName) : Prop where
  outer_error : ∀ e, outer = .error e → result = .error e
  path_error : ∀ o e, outer = .ok o → Path.normalize raw = .error e →
    result = .error e ∧ e = .escapesRoot (Path.fixSeparators raw)
  name : ∀ o p, outer = .ok o → Path.normalize raw = .ok p →
    result = .ok ⟨scheme, if raw = [] then ['/'] else p, .within o⟩

theorem layered_bind {raw : Text} (hr : raw = [] ∨ raw.head? = some '/') (scheme : Text)
    (outer : Except NameError FileName) :
    Layered scheme raw outer (outer.bind (ofEntry scheme raw)) := by
  refine ⟨?_, ?_, ?_⟩
  · rintro e rfl
    rfl
  · rintro o e rfl he
    refine ⟨?_, Path.eq_escapesRoot_of_normalize he⟩
    show ofEntry scheme raw o = .error e
    rw [ofEntry, absolutePath, he]
  · rintro o p rfl hp
    show ofEntry scheme raw o = _
    rcases hr with rfl | hr
    · rfl
    · have hne : raw ≠ [] := fun hraw => by
        rw [hraw] at hr
        cases hr
      rw [ofEntry, absolutePath_eq_normalize hr, hp, if_neg hne]

theorem ofEntry_nil (scheme : Text) : ofEntry scheme [] = ofEntry scheme ['/'] :=
  rfl

theorem layer?_eq_some_iff {uri scheme outer raw : Text} :
    layer? uri = some (scheme, outer, raw) ↔
      ∃ s rest, Scheme.cut uri = some (s, rest) ∧
        Scheme.kind? (s.map Char.toLower) = some .layered ∧
        splitLayer rest = some (outer, raw) ∧ s.map Char.toLower = scheme := by
  unfold layer?
  cases Scheme.cut uri with
  | none => simp
  | some q =>
    obtain ⟨s, rest⟩ := q
    by_cases hk : Scheme.kind? (s.map Char.toLower) = some .layered
    · simp [hk, and_comm]
    · simp [hk]

theorem layered_of_layer? {uri scheme outer raw : Text}
    (h : layer? uri = some (scheme, outer, raw)) :
    Layered scheme raw (ofUri outer) (ofUri uri) := by
  obtain ⟨s, rest, hs, hk, hl, rfl⟩ := layer?_eq_some_iff.1 h
  rw [ofUri_of_splitLayer hs hk hl]
  exact layered_bind (raw_of_splitLayer hl) _ _

theorem length_of_layer? {uri scheme outer raw : Text}
    (h : layer? uri = some (scheme, outer, raw)) : outer.length < uri.length := by
  obtain ⟨s, rest, hs, -, hl, -⟩ := layer?_eq_some_iff.1 h
  have hlen := length_splitLayer hl
  rw [Scheme.eq_append_of_cut hs, List.length_append, List.length_cons]
  omega

theorem wellFounded_layers :
    WellFounded fun outer uri : Text => ∃ scheme raw, layer? uri = some (scheme, outer, raw) :=
  Subrelation.wf (fun ⟨_, _, h⟩ => length_of_layer? h) (measure List.length).wf

theorem splitLayer_of_notMem {x : Text} (hx : '!' ∉ x) : splitLayer x = some (x, []) := by
  have hm : Path.NoEntryMark x := fun a b hab => by simp [hab] at hx
  rw [splitLayer, cutEntry_eq_none_iff.2 hm]
  exact if_neg hx

theorem splitLayer_eq_none {x : Text} (hx : '!' ∈ x) (hm : Path.NoEntryMark x) :
    splitLayer x = none := by
  rw [splitLayer, cutEntry_eq_none_iff.2 hm]
  exact if_pos hx

section Scheme
variable {s : Text} (hs : Scheme.kind? (s.map Char.toLower) = some .layered)
include hs

theorem layer?_append {x p : Text} (hp : p = [] ∨ p.head? = some '/') (hm : Path.NoEntryMark p) :
    layer? (s ++ ':' :: (x ++ '!' :: p)) = some (s.map Char.toLower, x, p) :=
  layer?_eq_some_iff.2 ⟨s, _, Scheme.cut_of_kind?_map hs _, hs, splitLayer_append hp hm, rfl⟩

/-- Reading goes layer by layer. A layered scheme in any letter case, any outer text, a
mark and a path without a further one are told apart again, and the outer text is read
as if it stood alone. Without any mark the path is the root; with marks that end nothing
the URI is malformed. Every layered URI is read from its outer URI in this way, and the
layers of a URI come to an end. -/
theorem ofUri_layer_by_layer (x : Text) :
    (∀ p, p = [] ∨ p.head? = some '/' → Path.NoEntryMark p →
      Layered (s.map Char.toLower) p (ofUri x) (ofUri (s ++ ':' :: (x ++ '!' :: p)))) ∧
    ('!' ∉ x → Layered (s.map Char.toLower) ['/'] (ofUri x) (ofUri (s ++ ':' :: x))) ∧
    ('!' ∈ x → Path.NoEntryMark x → ofUri (s ++ ':' :: x) =
      .error (.invalidUri (.malformed (Uri.mask (s ++ ':' :: x))))) ∧
    (∀ uri scheme outer raw, layer? uri = some (scheme, outer, raw) →
      Layered scheme raw (ofUri outer) (ofUri uri)) ∧
    WellFounded fun outer uri : Text => ∃ scheme raw, layer? uri = some (scheme, outer, raw) := by
  have hcut : Scheme.cut (s ++ ':' :: x) = some (s, x) := Scheme.cut_of_kind?_map hs x
  refine ⟨fun p hp hm => layered_of_layer? (layer?_append hs hp hm), fun hx => ?_,
    fun hx hm => ofUri_of_splitLayer_eq_none hcut hs (splitLayer_eq_none hx hm),
    fun _ _ _ _ => layered_of_layer?, wellFounded_layers⟩
  rw [ofUri_of_splitLayer hcut hs (splitLayer_of_notMem hx), ofEntry_nil]
  exact layered_bind (.inr rfl) _ _

end Scheme

theorem ofUri_layer_by_layer_nested :
    ofUri "ZiP:Tar:file:///a!/b.tar!/in!ner.zip!/x/../y!z".toList =
        .ok ⟨"zip".toList, "/y!z".toList, .within ⟨"tar".toList, "/in!ner.zip".toList,
          .within ⟨"file".toList, "/a!/b.tar".toList, .rooted ['/']⟩⟩⟩ ∧
      ofUri "gz:ftp:/x!/..".toList =
        .error (.invalidUri (.missingAuthority "ftp".toList)) ∧
      ofUri "gz:file:///x!/..".toList = .error (.escapesRoot "/..".toList) ∧
      ofUri "gz:ftp://u:w@h/x!y!z".toList =
        .error (.invalidUri (.malformed "gz:ftp://u:***@h/x!y!z".toList)) := by
  have hzip : Scheme.kind? ("ZiP".toList.map Char.toLower) = some .layered := rfl
  have htar : Scheme.kind? ("Tar".toList.map Char.toLower) = some .layered := rfl
  have hgz : Scheme.kind? ("gz".toList.map Char.toLower) = some .layered := rfl
  have hcut₁ : Scheme.cut "file:///a!/b.tar".toList =
      some ("file".toList, "///a!/b.tar".toList) := rfl
  have hfile : ofUri "file:///a!/b.tar".toList =
      .ok ⟨"file".toList, "/a!/b.tar".toList, .rooted ['/']⟩ := ofUri_of_rooted hcut₁ rfl
  have hcut₂ : Scheme.cut "file:///x".toList = some ("file".toList, "///x".toList) := rfl
  have hx : ofUri "file:///x".toList = .ok ⟨"file".toList, "/x".toList, .rooted ['/']⟩ :=
    ofUri_of_rooted hcut₂ rfl
  have hcut₃ : Scheme.cut "ftp:/x".toList = some ("ftp".toList, "/x".toList) := rfl
  have hftp : ofUri "ftp:/x".toList = .error (.invalidUri (.missingAuthority "ftp".toList)) :=
    ofUri_of_hosted hcut₃ rfl
  have hinner := ((ofUri_layer_by_layer htar _).1 "/in!ner.zip".toList (by decide)
    (by decide)).name _ _ hfile rfl
  exact ⟨((ofUri_layer_by_layer hzip _).1 "/x/../y!z".toList (by decide) (by decide)).name _ _
      hinner rfl,
    ((ofUri_layer_by_layer hgz _).1 "/..".toList (by decide) (by decide)).outer_error _ hftp,
    (((ofUri_layer_by_layer hgz _).1 "/..".toList (by decide) (by decide)).path_error _ _
      hx rfl).1,
    (ofUri_layer_by_layer hgz "ftp://u:w@h/x!y!z".toList).2.2.1 (by decide) (by decide)⟩

end FileName
end FileNaming
