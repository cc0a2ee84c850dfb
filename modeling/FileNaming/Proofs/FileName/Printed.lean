import FileNaming.Proofs.FileName.Valid
import FileNaming.Proofs.Uri.Scheme

/-! The URI of a name by the kind of its place, and how such a text is read, one level
at a time. A URI shows neither passwords nor default ports; the rest of the place
can be read off it unless a mark stands where the reader looks for one. -/

namespace FileNaming

namespace Backend

def shown : Backend → Backend
  | rooted root => rooted root
  | hosted h => hosted h.shown
  | layered scheme path outer => layered scheme path outer.shown

/-- No host hides its default port behind a colon, and no path has a mark that would be
taken for the one behind the outer URI. -/
def Legible : Backend → Text → Prop
  | rooted _, _ => True
  | hosted h, _ => h.Legible
  | layered _ outerPath outer, path => Path.NoEntryMark path ∧ outer.Legible outerPath

instance decidableLegible : (b : Backend) → (path : Text) → Decidable (b.Legible path)
  | rooted _, _ => .isTrue trivial
  | hosted h, _ => inferInstanceAs (Decidable h.Legible)
  | layered _ outerPath outer, path =>
    have := decidableLegible outer outerPath
    inferInstanceAs (Decidable (Path.NoEntryMark path ∧ outer.Legible outerPath))

theorem dropSlash_append_slash (t : Text) : dropSlash (t ++ ['/']) = t := by
  simp [dropSlash]

theorem dropSlash_append_of_ne {c : Char} (h : c ≠ '/') (t : Text) :
    dropSlash (t ++ [c]) = t ++ [c] := by
  simp [dropSlash, h]

@[simp] theorem rootText_shown (scheme : Text) (b : Backend) :
    b.shown.rootText scheme = b.rootText scheme := by
  induction b generalizing scheme with
  | rooted root => rfl
  | hosted h =>
    show scheme ++ ':' :: '/' :: '/' :: (h.shown.authorityText ++ ['/']) = _
    rw [h.authorityText_shown]
    rfl
  | layered s path outer ih => simp only [shown, rootText, ih]

end Backend

namespace FileName

def shown (n : FileName) : FileName :=
  { n with backend := n.backend.shown }

def Legible (n : FileName) : Prop :=
  n.backend.Legible n.path

instance (n : FileName) : Decidable n.Legible :=
  inferInstanceAs (Decidable (n.backend.Legible n.path))

@[simp] theorem rootUri_shown (n : FileName) : n.shown.rootUri = n.rootUri := by
  simp [rootUri, shown]

@[simp] theorem uri_shown (n : FileName) : n.shown.uri = n.uri := by
  simp only [uri, rootUri_shown]
  rfl

theorem same_shown (n : FileName) : n.shown.Same n :=
  Prod.ext n.rootUri_shown rfl

theorem WellFormed.legible {n : FileName} (h : n.WellFormed) : n.Legible := by
  induction h with
  | rooted _ => trivial
  | hosted _ hh _ => exact hh.legible
  | layered _ _ _ he ih => exact ⟨he, ih⟩

theorem rootUri_rooted (scheme path : Text) :
    rootUri ⟨scheme, path, .rooted ['/']⟩ = scheme ++ [':', '/', '/'] := by
  have hr : Backend.rootText scheme (.rooted ['/']) = (scheme ++ [':', '/', '/']) ++ ['/'] := by
    simp [Backend.rootText]
  rw [rootUri, hr, Backend.dropSlash_append_slash]

theorem uri_rooted (scheme path : Text) :
    uri ⟨scheme, path, .rooted ['/']⟩ = scheme ++ ':' :: '/' :: '/' :: path := by
  rw [uri, rootUri_rooted]
  simp

theorem rootUri_hosted (scheme path : Text) (h : Host) :
    rootUri ⟨scheme, path, .hosted h⟩ = scheme ++ ':' :: '/' :: '/' :: h.authorityText := by
  have hr : Backend.rootText scheme (.hosted h) =
      (scheme ++ ':' :: '/' :: '/' :: h.authorityText) ++ ['/'] := by
    simp [Backend.rootText, Host.authorityText]
  rw [rootUri, hr, Backend.dropSlash_append_slash]

theorem uri_hosted (scheme path : Text) (h : Host) :
    uri ⟨scheme, path, .hosted h⟩ = scheme ++ ':' :: '/' :: '/' :: (h.authorityText ++ path) := by
  rw [uri, rootUri_hosted]
  simp

theorem rootUri_within (scheme path : Text) (outer : FileName) :
    rootUri ⟨scheme, path, .within outer⟩ = (scheme ++ ':' :: outer.uri) ++ ['!'] := by
  have hr : Backend.rootText scheme (.within outer) = (scheme ++ ':' :: outer.uri) ++ ['!'] := by
    simp [Backend.within, Backend.rootText, uri, rootUri]
  rw [rootUri, hr, Backend.dropSlash_append_of_ne (by decide)]

theorem uri_within (scheme path : Text) (outer : FileName) :
    uri ⟨scheme, path, .within outer⟩ = scheme ++ ':' :: (outer.uri ++ '!' :: path) := by
  rw [uri, rootUri_within]
  simp

section Reading
variable {scheme : Text}

theorem ofUri_rooted (hk : Scheme.kind? scheme = some .rooted) {path : Text}
    (hp : Path.IsNormal path) :
    ofUri (scheme ++ ':' :: '/' :: '/' :: path) = .ok ⟨scheme, path, .rooted ['/']⟩ := by
  have hlow := Scheme.map_toLower_of_kind? hk
  rw [ofUri_of_rooted (Scheme.cut_of_kind? hk _) (by rw [hlow]; exact hk), hlow, ofRooted]
  have hdrop : dropSlashes ('/' :: '/' :: path) = path := rfl
  rw [hdrop, if_pos hp.head?, absolutePath_of_isNormal hp]

theorem ofUri_hosted {port : Port} (hk : Scheme.kind? scheme = some (.hosted port))
    {authority path : Text} (ha : '/' ∉ authority) (hp : Path.IsNormal path) :
    ofUri (scheme ++ ':' :: '/' :: '/' :: (authority ++ path)) =
      (Authority.ofText authority).map fun a => ⟨scheme, path, .hosted (hostOf port a)⟩ := by
  have hlow := Scheme.map_toLower_of_kind? hk
  rw [ofUri_of_hosted (Scheme.cut_of_kind? hk _) (by rw [hlow]; exact hk), hlow, ofHosted]
  obtain ⟨t, rfl⟩ := hp.exists_cons
  rw [Authority.cut_append ha]
  dsimp only
  rw [absolutePath_of_isNormal hp]
  cases Authority.ofText authority <;> rfl

variable (hk : Scheme.kind? scheme = some .layered)
include hk

theorem ofUri_within (outer : Text) {path : Text} (hp : Path.IsNormal path)
    (hm : Path.NoEntryMark path) :
    ofUri (scheme ++ ':' :: (outer ++ '!' :: path)) =
      (ofUri outer).map fun o => ⟨scheme, path, .within o⟩ := by
  have hlow := Scheme.map_toLower_of_kind? hk
  rw [ofUri_of_splitLayer (Scheme.cut_of_kind? hk _) (by rw [hlow]; exact hk)
    (splitLayer_append (.inr hp.head?) hm), hlow]
  cases ofUri outer with
  | error e => rfl
  | ok o =>
    show ofEntry scheme path o = _
    rw [ofEntry, absolutePath_of_isNormal hp]
    rfl

theorem ofUri_within_of_mark (outer : Text) {path a b : Text} (hp : Path.IsNormal path)
    (hc : cutEntry path = some (a, b)) :
    ofUri (scheme ++ ':' :: (outer ++ '!' :: path)) =
        (ofUri (outer ++ '!' :: a)).map
          (fun o => ⟨scheme, Path.ofSegments (Path.segments b), .within o⟩) ∧
      Path.ofSegments (Path.segments b) ≠ path := by
  have hlow := Scheme.map_toLower_of_kind? hk
  obtain ⟨rfl, hb, -⟩ := cutEntry_eq_some_iff.1 hc
  -- the last mark of the path is the last of the whole text, whatever the outer URI holds
  have hsplit : splitLayer (outer ++ '!' :: (a ++ '!' :: b)) = some (outer ++ '!' :: a, b) := by
    have he : cutEntry (outer ++ '!' :: (a ++ '!' :: b)) = some (outer ++ '!' :: a, b) := by
      simpa using cutEntry_append_left hc (outer ++ ['!'])
    rw [splitLayer, he]
  obtain ⟨hs, hlt⟩ := Path.segments_behind_mark hp hb
  constructor
  · rw [ofUri_of_splitLayer (Scheme.cut_of_kind? hk _) (by rw [hlow]; exact hk) hsplit, hlow]
    have hback : '\\' ∉ b := fun hm => hp.notMem_backslash (by simp [hm])
    cases ofUri (outer ++ '!' :: a) with
    | error e => rfl
    | ok o =>
      show ofEntry scheme b o = _
      rw [ofEntry, absolutePath_of_ordinary hb hback hs]
      rfl
  · -- what is read has fewer segments than the path
    intro he
    rw [← he, Path.segments_ofSegments hs] at hlt
    exact Nat.lt_irrefl _ hlt

end Reading
end FileName
end FileNaming
