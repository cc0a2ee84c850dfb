import FileNaming.Proofs.FileName.Printed

/-! Reading the URI of a name gives the name back, as far as a URI shows it, exactly if
the name is legible. Without that condition the reader puts a colon or a mark that
belongs to the data to another use, and gives another name or none. -/

namespace FileNaming

namespace Backend

def isLayered : Backend → Bool
  | layered _ _ _ => true
  | _ => false

def isLocal : Backend → Bool
  | rooted _ => true
  | hosted _ => false
  | layered _ _ outer => outer.isLocal

def login? : Backend → Option (Text × Option Port × Option Text)
  | hosted h => some (h.host, h.effectivePort, h.user)
  | _ => none

theorem within_injective {n m : FileName} (h : within n = within m) : n = m := by
  injection h with hs hp hb
  cases n
  cases m
  simp_all

theorem shown_of_isLocal {b : Backend} (h : b.isLocal = true) : b.shown = b := by
  induction b with
  | rooted root => rfl
  | hosted _ => cases h
  | layered scheme path outer ih => rw [shown, ih h]

end Backend

namespace FileName

/-- Names that agree level by level in all that a URI shows. -/
inductive Agrees : FileName → FileName → Prop
  | rooted (scheme path root : Text) :
    Agrees ⟨scheme, path, .rooted root⟩ ⟨scheme, path, .rooted root⟩
  | hosted (scheme path : Text) {h h' : Host} (host : h.host = h'.host)
    (port : h.effectivePort = h'.effectivePort) (user : h.user = h'.user)
    (password : h.password.isSome = h'.password.isSome) :
    Agrees ⟨scheme, path, .hosted h⟩ ⟨scheme, path, .hosted h'⟩
  | layered (scheme path : Text) {outer outer' : FileName} (same : outer.Same outer')
    (agrees : Agrees outer outer') :
    Agrees ⟨scheme, path, .within outer⟩ ⟨scheme, path, .within outer'⟩

theorem Agrees.path_eq {n m : FileName} (h : n.Agrees m) : n.path = m.path := by
  cases h <;> rfl

theorem Agrees.host_eq {scheme path : Text} {h : Host} {m : FileName}
    (ha : Agrees ⟨scheme, path, .hosted h⟩ m) :
    ∃ h', m.backend = .hosted h' ∧ h.host = h'.host := by
  cases ha with
  | hosted _ _ host => exact ⟨_, rfl, host⟩

theorem Agrees.outer {scheme path s p : Text} {outer outer' : FileName}
    (h : Agrees ⟨scheme, path, .within outer⟩ ⟨s, p, .within outer'⟩) : outer.Agrees outer' := by
  generalize hn : (⟨scheme, path, .within outer⟩ : FileName) = n at h
  generalize hm : (⟨s, p, .within outer'⟩ : FileName) = m at h
  cases h with
  | rooted => cases hn
  | hosted => cases hn
  | layered _ _ _ agrees =>
    obtain rfl : outer = _ := Backend.within_injective (congrArg FileName.backend hn)
    obtain rfl : outer' = _ := Backend.within_injective (congrArg FileName.backend hm)
    exact agrees

theorem Agrees.refl (n : FileName) : n.Agrees n := by
  obtain ⟨scheme, path, b⟩ := n
  induction b generalizing scheme path with
  | rooted root => exact .rooted scheme path root
  | hosted h => exact .hosted scheme path rfl rfl rfl rfl
  | layered s p outer ih =>
    have hs : FileName.Same ⟨s, p, outer⟩ ⟨s, p, outer⟩ := rfl
    exact .layered scheme path hs (ih s p)

theorem agrees_shown (n : FileName) : n.Agrees n.shown := by
  obtain ⟨scheme, path, b⟩ := n
  induction b generalizing scheme path with
  | rooted root => exact .rooted scheme path root
  | hosted h =>
    exact .hosted scheme path rfl h.effectivePort_shown.symm h.user_shown.symm
      h.isSome_password_shown.symm
  | layered s p outer ih =>
    have hs : FileName.Same ⟨s, p, outer⟩ (FileName.shown ⟨s, p, outer⟩) :=
      (same_shown ⟨s, p, outer⟩).symm
    exact .layered scheme path hs (ih s p)

/-- The induction is on the levels: the mark or the authority that the reader cuts at
is the one that was written, and what it leaves is the URI one level below. -/
theorem Valid.ofUri_uri {n : FileName} (h : n.Valid) (hl : n.Legible) :
    ofUri n.uri = .ok n.shown := by
  induction h with
  | rooted hk hp =>
    rw [uri_rooted, ofUri_rooted hk hp]
    rfl
  | @hosted scheme path host port hk hh hp =>
    rw [uri_hosted, ofUri_hosted hk hh.slash_notMem hp, hh.ofText_eq hl]
    have hd : host.defaultPort = some port := hh.default
    simp [Except.map, hostOf, shown, Backend.shown, Host.shown, Host.conceal, hd]
  | layered hk _ hp ih =>
    rw [uri_within, ofUri_within hk _ hp hl.1, ih hl.2]
    rfl

theorem legible_of_host_eq {scheme path : Text} {h h' : Host} {port : Port}
    (hk : Scheme.kind? scheme = some (.hosted port)) (hv : h.Valid port)
    (hp : Path.IsNormal path) {s p : Text}
    (hr : ofUri (uri ⟨scheme, path, .hosted h⟩) = .ok ⟨s, p, .hosted h'⟩)
    (hh : h.host = h'.host) : h.Legible := by
  rw [uri_hosted, ofUri_hosted hk hv.slash_notMem hp] at hr
  obtain ⟨a, ha, hn⟩ := NameError.map_eq_ok_iff.1 hr
  obtain rfl : hostOf port a = h' := Backend.hosted.inj (congrArg FileName.backend hn)
  refine Decidable.byContradiction fun hl => ?_
  have hlt : a.host.length < h.host.length := hv.length_lt_of_not_legible hl ha
  rw [hh] at hlt
  exact Nat.lt_irrefl _ hlt

theorem Valid.path_ne_of_mark {n : FileName} (h : n.Valid) (hb : n.backend.isLayered = true)
    (hm : ¬ Path.NoEntryMark n.path) {m : FileName} (hr : ofUri n.uri = .ok m) :
    m.path ≠ n.path := by
  cases h with
  | rooted => cases hb
  | hosted => cases hb
  | @layered scheme path outer hk _ hp =>
    cases hc : cutEntry path with
    | none => exact absurd (cutEntry_eq_none_iff.1 hc) hm
    | some q =>
      obtain ⟨he, hne⟩ := ofUri_within_of_mark hk outer.uri hp hc
      rw [uri_within, he] at hr
      obtain ⟨o, -, rfl⟩ := NameError.map_eq_ok_iff.1 hr
      exact hne

theorem Valid.legible_of_agrees {n m : FileName} (h : n.Valid) (hr : ofUri n.uri = .ok m)
    (ha : n.Agrees m) : n.Legible := by
  induction h generalizing m with
  | rooted => trivial
  | hosted hk hh hp =>
    obtain ⟨s, p, b⟩ := m
    obtain ⟨h', rfl, host⟩ := ha.host_eq
    exact legible_of_host_eq hk hh hp hr host
  | @layered scheme path outer hk ho hp ih =>
    -- the path must agree before the outer URI is known to be the text that is read
    have hm : Path.NoEntryMark path := by
      refine Decidable.byContradiction fun hm => ?_
      exact (Valid.layered hk ho hp).path_ne_of_mark rfl hm hr ha.path_eq.symm
    rw [uri_within, ofUri_within hk outer.uri hp hm] at hr
    obtain ⟨o, ho', rfl⟩ := NameError.map_eq_ok_iff.1 hr
    exact ⟨hm, ih ho' ha.outer⟩

/-! Names on one level: of this machine, or on a host. -/

def ReadsBack (n : FileName) : Prop :=
  ∃ m, ofUri n.uri = .ok m ∧ m.Same n ∧ m.uri = n.uri ∧ m.scheme = n.scheme ∧
    m.path = n.path ∧ m.backend.login? = n.backend.login?

/-- A name that was read, on this machine or on a host, has a URI that is read back,
unless the host holds a colon and is reached at its default port. The port is not
written then, and the colon is taken for the start of one. -/
theorem readsBack_iff_legible {u : Text} {n : FileName} (h : ofUri u = .ok n)
    (hf : n.backend.isLayered = false) : n.ReadsBack ↔ n.Legible := by
  have hv : n.Valid := valid_of_ofUri h
  constructor
  · rintro ⟨m, hr, -, -, -, -, hlogin⟩
    cases hv with
    | rooted => trivial
    | layered => cases hf
    | @hosted scheme path host port hk hh hp =>
      obtain ⟨s, p, b⟩ := m
      cases b with
      | rooted => cases hlogin
      | layered => cases hlogin
      | hosted host' =>
        have hhost : host'.host = host.host := congrArg Prod.fst (Option.some.inj hlogin)
        exact legible_of_host_eq hk hh hp hr hhost.symm
  · intro hl
    refine ⟨n.shown, hv.ofUri_uri hl, n.same_shown, n.uri_shown, rfl, rfl, ?_⟩
    cases hv with
    | rooted => rfl
    | layered => cases hf
    | @hosted scheme path host =>
      show some (host.host, host.shown.effectivePort, host.shown.user) =
        some (host.host, host.effectivePort, host.user)
      rw [host.effectivePort_shown, host.user_shown]

theorem readsBack_bracketed_address :
    ofUri "ftp://[::1]:21/a".toList =
        .ok ⟨"ftp".toList, "/a".toList, .hosted ⟨"[::1]".toList, some 21, some 21, none⟩⟩ ∧
      ¬ ReadsBack
        ⟨"ftp".toList, "/a".toList, .hosted ⟨"[::1]".toList, some 21, some 21, none⟩⟩ ∧
      ofUri "FTP://bob:p:w@d@[::1]:+0990/x/../a".toList =
        .ok ⟨"ftp".toList, "/a".toList,
          .hosted ⟨"[::1]".toList, some 990, some 21, some ⟨"bob".toList, some "p:w@d".toList⟩⟩⟩ ∧
      ReadsBack ⟨"ftp".toList, "/a".toList,
        .hosted ⟨"[::1]".toList, some 990, some 21, some ⟨"bob".toList, some "p:w@d".toList⟩⟩⟩ := by
  have hk : Scheme.kind? "ftp".toList = some (.hosted 21) := rfl
  have hc₁ : Scheme.cut "ftp://[::1]:21/a".toList =
      some ("ftp".toList, "//[::1]:21/a".toList) := rfl
  have h₁ : ofUri "ftp://[::1]:21/a".toList =
      .ok ⟨"ftp".toList, "/a".toList, .hosted ⟨"[::1]".toList, some 21, some 21, none⟩⟩ :=
    ofUri_of_hosted hc₁ hk
  have hc₂ : Scheme.cut "FTP://bob:p:w@d@[::1]:+0990/x/../a".toList =
      some ("FTP".toList, "//bob:p:w@d@[::1]:+0990/x/../a".toList) := rfl
  have h₂ : ofUri "FTP://bob:p:w@d@[::1]:+0990/x/../a".toList =
      .ok ⟨"ftp".toList, "/a".toList,
        .hosted ⟨"[::1]".toList, some 990, some 21, some ⟨"bob".toList, some "p:w@d".toList⟩⟩⟩ :=
    ofUri_of_hosted hc₂ hk
  exact ⟨h₁, fun h => absurd ((readsBack_iff_legible h₁ rfl).1 h) (by decide), h₂,
    (readsBack_iff_legible h₂ rfl).2 (by decide)⟩

/-! Names in files of this machine. -/

/-- The names that are read from the URI of a file of this machine, or of one inside such
files to any depth, and those that are reached from them. -/
def FromLocal (n : FileName) : Prop :=
  ∃ (u : Text) (start : FileName), ofUri u = .ok start ∧ start.backend.isLocal = true ∧
    Reaches start n

theorem FromLocal.valid {n : FileName} (h : n.FromLocal) : n.Valid := by
  obtain ⟨u, start, hu, -, hn⟩ := h
  exact (valid_of_ofUri hu).reaches hn

theorem FromLocal.shown_eq {n : FileName} (h : n.FromLocal) : n.shown = n := by
  obtain ⟨u, start, -, hl, hn⟩ := h
  rw [← hn.backend_eq.1] at hl
  unfold shown
  rw [Backend.shown_of_isLocal hl]

theorem FromLocal.ofUri_uri_iff {n : FileName} (h : n.FromLocal) :
    ofUri n.uri = .ok n ↔ n.Legible := by
  constructor
  · intro hr
    exact h.valid.legible_of_agrees hr (Agrees.refl n)
  · intro hl
    have hr := h.valid.ofUri_uri hl
    rwa [h.shown_eq] at hr

theorem exists_same_iff (n : FileName) :
    (∃ m, ofUri n.uri = .ok m ∧ m.Same n) ↔ ∃ m : FileName, m.Valid ∧ m.Legible ∧ m.Same n := by
  constructor
  · rintro ⟨m, hr, hs⟩
    have hv : m.Valid := valid_of_ofUri hr
    -- `m` has the same URI, so it is read from its own
    rw [← hs.uri_eq] at hr
    exact ⟨m, hv, hv.legible_of_agrees hr (Agrees.refl m), hs⟩
  · rintro ⟨m, hv, hl, hs⟩
    refine ⟨m.shown, ?_, m.same_shown.trans hs⟩
    rw [← hs.uri_eq]
    exact hv.ofUri_uri hl

/-- The URI of a name in files of this machine is read as that very name exactly if the
name is legible: no path inside a file has a mark that ends it or stands before a
separator. It is read as an equal name exactly if the name equals a legible one, which
takes a path without a mark. Legible names are told apart by their URIs. -/
theorem uri_identifies_local {n : FileName} (h : n.FromLocal) :
    (ofUri n.uri = .ok n ↔ n.Legible) ∧
    ((∃ m, ofUri n.uri = .ok m ∧ m.Same n) ↔ ∃ m : FileName, m.Valid ∧ m.Legible ∧ m.Same n) ∧
    (n.backend.isLayered = true → ¬ Path.NoEntryMark n.path →
      ¬ ∃ m, ofUri n.uri = .ok m ∧ m.Same n) ∧
    ∀ m : FileName, m.FromLocal → n.Legible → m.Legible → n.uri = m.uri → n = m := by
  refine ⟨h.ofUri_uri_iff, exists_same_iff n, ?_, ?_⟩
  · rintro hb hm ⟨m, hr, hs⟩
    exact h.valid.path_ne_of_mark hb hm hr (congrArg Prod.snd hs)
  · intro m hm hl hl' hu
    have hr := h.ofUri_uri_iff.2 hl
    have hr' := hm.ofUri_uri_iff.2 hl'
    rw [hu, hr'] at hr
    exact (Except.ok.inj hr).symm

theorem uri_identifies_local_backslash :
    ofUri "zip:file:///a.zip!/x!\\y".toList = .ok ⟨"zip".toList, "/x!/y".toList,
        .within ⟨"file".toList, "/a.zip".toList, .rooted ['/']⟩⟩ ∧
      (¬ ∃ m, ofUri "zip:file:///a.zip!/x!/y".toList = .ok m ∧
        m.Same ⟨"zip".toList, "/x!/y".toList,
          .within ⟨"file".toList, "/a.zip".toList, .rooted ['/']⟩⟩) ∧
      Reaches ⟨"zip".toList, "/x!/y".toList,
          .within ⟨"file".toList, "/a.zip".toList, .rooted ['/']⟩⟩
        ⟨"zip".toList, "/d!e".toList,
          .within ⟨"file".toList, "/a.zip".toList, .rooted ['/']⟩⟩ ∧
      ofUri "zip:file:///a.zip!/d!e".toList = .ok ⟨"zip".toList, "/d!e".toList,
        .within ⟨"file".toList, "/a.zip".toList, .rooted ['/']⟩⟩ := by
  have hcut : Scheme.cut "file:///a.zip".toList = some ("file".toList, "///a.zip".toList) := rfl
  have houter : ofUri "file:///a.zip".toList =
      .ok ⟨"file".toList, "/a.zip".toList, .rooted ['/']⟩ :=
    ofUri_of_rooted hcut rfl
  have hlayer : Scheme.cut "zip:file:///a.zip!/x!\\y".toList =
      some ("zip".toList, "file:///a.zip!/x!\\y".toList) := rfl
  have hsplit : splitLayer "file:///a.zip!/x!\\y".toList =
      some ("file:///a.zip".toList, "/x!\\y".toList) := rfl
  have hstart : ofUri "zip:file:///a.zip!/x!\\y".toList = .ok ⟨"zip".toList, "/x!/y".toList,
      .within ⟨"file".toList, "/a.zip".toList, .rooted ['/']⟩⟩ := by
    rw [ofUri_of_splitLayer hlayer rfl hsplit, houter]
    rfl
  have hparent : Reaches ⟨"zip".toList, "/x!/y".toList,
      .within ⟨"file".toList, "/a.zip".toList, .rooted ['/']⟩⟩ ⟨"zip".toList, "/x!".toList,
      .within ⟨"file".toList, "/a.zip".toList, .rooted ['/']⟩⟩ := .parent .refl rfl
  have hresolve : FileName.resolve ⟨"zip".toList, "/x!".toList,
      .within ⟨"file".toList, "/a.zip".toList, .rooted ['/']⟩⟩ "..\\d!e".toList .fileSystem =
      .ok ⟨"zip".toList, "/d!e".toList,
        .within ⟨"file".toList, "/a.zip".toList, .rooted ['/']⟩⟩ := rfl
  have hreach : Reaches ⟨"zip".toList, "/x!/y".toList,
      .within ⟨"file".toList, "/a.zip".toList, .rooted ['/']⟩⟩ ⟨"zip".toList, "/d!e".toList,
      .within ⟨"file".toList, "/a.zip".toList, .rooted ['/']⟩⟩ :=
    hparent.resolve hresolve
  have hmarked := uri_identifies_local ⟨_, _, hstart, rfl, .refl⟩
  have hlegible := uri_identifies_local ⟨_, _, hstart, rfl, hreach⟩
  exact ⟨hstart, hmarked.2.2.1 rfl (by decide), hreach, hlegible.1.2 (by decide)⟩

/-! Well-formed names. -/

/-- A well-formed name is read back from its URI as an equal name that agrees with it at
every level in the scheme, the path and the place, except for the password itself. -/
theorem reads_back_of_wellFormed {n : FileName} (h : n.WellFormed) :
    ∃ m, ofUri n.uri = .ok m ∧ m.Same n ∧ m.uri = n.uri ∧ n.Agrees m :=
  ⟨n.shown, h.valid.ofUri_uri h.legible, n.same_shown, n.uri_shown, agrees_shown n⟩

theorem reads_back_nested :
    WellFormed ⟨"tar".toList, "/d!e/f".toList, .within ⟨"zip".toList, "/in!ner.tar".toList,
      .within ⟨"ftp".toList, "/a!/b!".toList, .hosted ⟨"h!x".toList, some 2121, some 21,
        some ⟨"bob@work!".toList, some "p:w@/d".toList⟩⟩⟩⟩⟩ ∧
    ∃ m, ofUri "tar:zip:ftp://bob@work!:***@h!x:2121/a!/b!!/in!ner.tar!/d!e/f".toList = .ok m ∧
      m.uri = "tar:zip:ftp://bob@work!:***@h!x:2121/a!/b!!/in!ner.tar!/d!e/f".toList := by
  have hw : WellFormed ⟨"tar".toList, "/d!e/f".toList, .within ⟨"zip".toList,
      "/in!ner.tar".toList, .within ⟨"ftp".toList, "/a!/b!".toList, .hosted ⟨"h!x".toList,
        some 2121, some 21, some ⟨"bob@work!".toList, some "p:w@/d".toList⟩⟩⟩⟩⟩ := by
    have hk : Scheme.kind? "ftp".toList = some (.hosted 21) := rfl
    refine .layered (by decide) (.layered (by decide) (.hosted hk ?_ (by decide)) (by decide)
      (by decide)) (by decide) (by decide)
    refine ⟨rfl, by decide, by simp, by decide, by decide, by decide, ?_⟩
    rintro _ ⟨⟩
    exact ⟨by decide, by decide⟩
  obtain ⟨m, hr, -, hu, -⟩ := reads_back_of_wellFormed hw
  exact ⟨hw, m, hr, hu⟩

end FileName
end FileNaming
