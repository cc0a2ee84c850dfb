import FileNaming.Proofs.FileName.Printed
import FileNaming.Proofs.Uri.Mask

/-! A name is printed with its password masked, part by part, and the mask of texts has
nothing left to do on what is printed. The one place in a URI where two separators meet is
in front of its innermost authority, whatever archives lie around it. -/

namespace FileNaming

theorem Path.IsNormal.mask_eq {p : Text} (hp : Path.IsNormal p) : Uri.mask p = p := by
  obtain ⟨segs, hsegs, rfl⟩ := hp
  rw [Path.ofSegments, Uri.mask_slash_cons]
  by_cases hne : segs = []
  · rw [hne]
    rfl
  · have hsplit : Text.split '/' (Text.join '/' segs) = segs :=
      Text.split_join hne fun s hs => (hsegs s hs).no_slash
    rw [hsplit, Uri.veilPieces_of_ne_nil fun s hs => (hsegs s hs).ne_nil]

theorem Uri.veil_userPart {c : Option Credentials} {hp : Text} (hc : Authority.UserFits c)
    (hat : '@' ∉ hp) :
    veil (Authority.userPart c ++ hp) =
      Authority.userPart (c.map Credentials.conceal) ++ hp := by
  rcases c with _ | ⟨user, _ | w⟩
  · exact veil_of_notMem hat
  · have hu : ':' ∉ user := hc _ rfl
    have hveil := veil_user hu hat
    simpa [Authority.userPart, Credentials.text, Credentials.conceal] using hveil
  · have hu : ':' ∉ user := hc _ rfl
    have hveil := veil_password hu w hat
    simpa [Authority.userPart, Credentials.text, Credentials.conceal] using hveil

theorem Host.Valid.veil_authorityText {h : Host} {port : Port} (hv : h.Valid port) :
    Uri.veil h.authorityText = h.authorityText := by
  have hagain := (userText_eq h.conceal).symm.trans (h.userText_conceal.trans h.userText_eq)
  rw [authorityText, userText_eq, List.append_assoc, Uri.veil_userPart hv.userFits hv.at_notMem]
  exact congrArg (fun t => t ++ (h.host ++ h.portText)) hagain

namespace FileName

theorem mask_of_veil_eq {scheme a t : Text} (hs : '/' ∉ scheme) (ha : '/' ∉ a)
    (hveil : Uri.veil a = a) (ht : t = [] ∨ t.head? = some '/') (hmask : Uri.mask t = t) :
    Uri.mask (scheme ++ ':' :: '/' :: '/' :: (a ++ t)) =
      scheme ++ ':' :: '/' :: '/' :: (a ++ t) := by
  have hscheme : '/' ∉ scheme ++ [':'] := by simp [hs]
  have happ := Uri.mask_append_left hscheme ('/' :: '/' :: (a ++ t))
  rw [Uri.mask_authority ha ht, hveil, hmask] at happ
  simpa using happ

/-- The induction is on the levels of the name: the URI of the outer one is masked already,
and what a level puts around it, a scheme and a path behind a `!`, is masked on its own. -/
theorem Valid.mask_eq {n : FileName} (h : n.Valid) :
    Uri.mask n.rootUri = n.rootUri ∧ Uri.mask n.uri = n.uri := by
  induction h with
  | @rooted scheme path hk hp =>
    have hs := Scheme.slash_notMem_of_kind? hk
    rw [rootUri_rooted, uri_rooted]
    exact ⟨mask_of_veil_eq hs (a := []) (t := []) (by simp) rfl (.inl rfl) rfl,
      mask_of_veil_eq hs (a := []) (by simp) rfl (.inr hp.head?) hp.mask_eq⟩
  | @hosted scheme path host port hk hh hp =>
    have hs := Scheme.slash_notMem_of_kind? hk
    have ha := hh.slash_notMem
    have hveil := hh.veil_authorityText
    have hroot := mask_of_veil_eq hs ha hveil (.inl rfl) rfl
    rw [List.append_nil] at hroot
    rw [rootUri_hosted, uri_hosted]
    exact ⟨hroot, mask_of_veil_eq hs ha hveil (.inr hp.head?) hp.mask_eq⟩
  | @layered scheme path outer hk ho hp ih =>
    have hs : '/' ∉ scheme ++ [':'] := by simp [Scheme.slash_notMem_of_kind? hk]
    have hroot : Uri.mask (rootUri ⟨scheme, path, .within outer⟩) =
        rootUri ⟨scheme, path, .within outer⟩ := by
      have happ := Uri.mask_append_left hs outer.uri
      rw [ih.2, List.append_assoc, List.cons_append, List.nil_append] at happ
      rw [rootUri_within, Uri.mask_concat (by decide) (by decide), happ]
    refine ⟨hroot, ?_⟩
    obtain ⟨t, rfl⟩ := hp.exists_cons
    have hlast : (rootUri ⟨scheme, '/' :: t, .within outer⟩).getLast? ≠ some '/' := by
      rw [rootUri_within, List.getLast?_concat]
      decide
    rw [uri, Uri.mask_append_slash hlast, hroot, hp.mask_eq]

/-- Wherever one gets from a URI that was read, at any depth of archives, both URIs of the
name have nothing in them that is left to mask. -/
theorem reached_masked {u : Text} {start n : FileName} (hu : ofUri u = .ok start)
    (hn : Reaches start n) : Uri.mask n.uri = n.uri ∧ Uri.mask n.rootUri = n.rootUri := by
  have hv : n.Valid := (valid_of_ofUri hu).reaches hn
  exact ⟨hv.mask_eq.2, hv.mask_eq.1⟩

theorem reached_masked_archive :
    ∃ start n, ofUri "zip:ftp://a@b:p:w@[::1]:99/x:y@.zip!/d".toList = .ok start ∧
      Reaches start n ∧ n.uri = "zip:ftp://a@b:***@[::1]:99/x:y@.zip!/!/u:v@w".toList ∧
      Uri.mask n.uri = n.uri ∧ Uri.mask n.rootUri = n.rootUri ∧
      Uri.mask "zip:ftp://a@b:p:w@[::1]:99/x:y@.zip!/d".toList = start.uri := by
  let archive : FileName := ⟨"ftp".toList, "/x:y@.zip".toList,
    .hosted ⟨"[::1]".toList, some 99, some 21, some ⟨"a@b".toList, some "p:w".toList⟩⟩⟩
  have hcut : Scheme.cut "ftp://a@b:p:w@[::1]:99/x:y@.zip".toList =
      some ("ftp".toList, "//a@b:p:w@[::1]:99/x:y@.zip".toList) := rfl
  have hport : Scheme.kind? "ftp".toList = some (.hosted 21) := rfl
  have houter : ofUri "ftp://a@b:p:w@[::1]:99/x:y@.zip".toList = .ok archive :=
    ofUri_of_hosted hcut hport
  have hlayer : Scheme.cut "zip:ftp://a@b:p:w@[::1]:99/x:y@.zip!/d".toList =
      some ("zip".toList, "ftp://a@b:p:w@[::1]:99/x:y@.zip!/d".toList) := rfl
  have hsplit : splitLayer "ftp://a@b:p:w@[::1]:99/x:y@.zip!/d".toList =
      some ("ftp://a@b:p:w@[::1]:99/x:y@.zip".toList, "/d".toList) := rfl
  have hstart : ofUri "zip:ftp://a@b:p:w@[::1]:99/x:y@.zip!/d".toList =
      .ok ⟨"zip".toList, "/d".toList, .within archive⟩ := by
    rw [ofUri_of_splitLayer hlayer rfl hsplit, houter]
    rfl
  have hparent : Reaches ⟨"zip".toList, "/d".toList, .within archive⟩
      ⟨"zip".toList, "/".toList, .within archive⟩ := .parent .refl rfl
  have hresolve : resolve ⟨"zip".toList, "/".toList, .within archive⟩ "!\\\\u:v@w".toList
      .descendent = .ok ⟨"zip".toList, "/!/u:v@w".toList, .within archive⟩ := rfl
  have hreach := hparent.resolve hresolve
  have hmasked := reached_masked hstart hreach
  exact ⟨_, _, hstart, hreach, rfl, hmasked.1, hmasked.2, rfl⟩

end FileName
end FileNaming
