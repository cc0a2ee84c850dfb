import FileNaming.Proofs.FileName.Sameness

/-! The identity data of the place of a name: a root, or a host with the port it is
reached at and the user with the password, or the identity data of the file it lies in.
A URI shows all of it but the password, so equal names differ in passwords at most. -/

namespace FileNaming

def Credentials.rekey (c : Credentials) : Credentials :=
  { c with password := c.password.map fun password => '*' :: password }

namespace Host
variable {h k : Host}

/-- The port that counts is the one the host is reached at, be it written or not. -/
def identity (h : Host) : Host :=
  ⟨h.host, h.effectivePort, none, h.credentials⟩

def rekey (h : Host) : Host :=
  { h with credentials := h.credentials.map Credentials.rekey }

theorem identity_eq_iff :
    h.identity = k.identity ↔ h.host = k.host ∧ h.effectivePort = k.effectivePort ∧
      h.user = k.user ∧ h.password = k.password := by
  have hc : h.credentials = k.credentials ↔ h.user = k.user ∧ h.password = k.password := by
    unfold user password
    rcases h.credentials with _ | ⟨_, _⟩ <;> rcases k.credentials with _ | ⟨_, _⟩ <;> simp
  rw [← hc]
  simp [identity]

theorem identity_shown (h : Host) : h.shown.identity = h.identity.conceal := by
  unfold identity
  rw [h.effectivePort_shown]
  rfl

theorem conceal_rekey (h : Host) : h.rekey.conceal = h.conceal := by
  obtain ⟨host, port, defaultPort, credentials⟩ := h
  rcases credentials with _ | ⟨user, _ | password⟩ <;> rfl

theorem password_rekey (h : Host) :
    h.rekey.password = h.password.map fun password => '*' :: password := by
  obtain ⟨host, port, defaultPort, credentials⟩ := h
  rcases credentials with _ | c <;> rfl

theorem isSome_password_conceal (h : Host) : h.conceal.password.isSome = h.password.isSome := by
  obtain ⟨host, port, defaultPort, credentials⟩ := h
  rcases credentials with _ | ⟨user, _ | password⟩ <;> rfl

theorem conceal_of_password_eq_none (hp : h.password = none) : h.conceal = h := by
  obtain ⟨host, port, defaultPort, credentials⟩ := h
  rcases credentials with _ | ⟨user, _ | password⟩
  · rfl
  · rfl
  · cases hp

theorem Valid.rekey {port : Port} (hv : h.Valid port) : h.rekey.Valid port := by
  refine ⟨hv.default, hv.ne_nil, hv.lower, hv.no_slash, hv.no_at, ?_⟩
  intro c hc
  obtain ⟨d, hd, rfl⟩ := Option.map_eq_some_iff.1 hc
  have hw : d.WellFormed := hv.credentials d hd
  exact ⟨hw.no_colon, hw.no_slash⟩

end Host

namespace Backend
variable {b c : Backend}

def mapHost (f : Host → Host) : Backend → Backend
  | rooted root => rooted root
  | hosted h => hosted (f h)
  | layered scheme path outer => layered scheme path (outer.mapHost f)

def identity (b : Backend) : Backend :=
  b.mapHost Host.identity

def rekey (b : Backend) : Backend :=
  b.mapHost Host.rekey

def guarded : Backend → Bool
  | rooted _ => false
  | hosted h => h.password.isSome
  | layered _ _ outer => outer.guarded

theorem mapHost_mapHost (f g : Host → Host) (b : Backend) :
    (b.mapHost f).mapHost g = b.mapHost (g ∘ f) := by
  induction b with
  | rooted root => rfl
  | hosted h => rfl
  | layered scheme path outer ih => exact congrArg (layered scheme path) ih

theorem conceal_eq_mapHost (b : Backend) : b.conceal = b.mapHost Host.conceal := by
  induction b with
  | rooted root => rfl
  | hosted h => rfl
  | layered scheme path outer ih => exact congrArg (layered scheme path) ih

theorem shown_eq_mapHost (b : Backend) : b.shown = b.mapHost Host.shown := by
  induction b with
  | rooted root => rfl
  | hosted h => rfl
  | layered scheme path outer ih => exact congrArg (layered scheme path) ih

theorem identity_shown (b : Backend) : b.shown.identity = b.identity.conceal := by
  have hf : Host.identity ∘ Host.shown = Host.conceal ∘ Host.identity :=
    funext Host.identity_shown
  rw [shown_eq_mapHost, conceal_eq_mapHost, identity, identity, mapHost_mapHost, hf,
    mapHost_mapHost]

theorem conceal_rekey (b : Backend) : b.rekey.conceal = b.conceal := by
  have hf : Host.conceal ∘ Host.rekey = Host.conceal := funext Host.conceal_rekey
  rw [conceal_eq_mapHost, conceal_eq_mapHost, rekey, mapHost_mapHost, hf]

theorem guarded_identity (b : Backend) : b.identity.guarded = b.guarded := by
  induction b with
  | rooted root => rfl
  | hosted h => rfl
  | layered scheme path outer ih => exact ih

theorem guarded_conceal (b : Backend) : b.conceal.guarded = b.guarded := by
  induction b with
  | rooted root => rfl
  | hosted h => exact h.isSome_password_conceal
  | layered scheme path outer ih => exact ih

theorem conceal_of_not_guarded (hg : b.guarded = false) : b.conceal = b := by
  induction b with
  | rooted root => rfl
  | hosted h =>
    have hp : h.password = none := by simpa [guarded] using hg
    exact congrArg hosted (Host.conceal_of_password_eq_none hp)
  | layered scheme path outer ih => exact congrArg (layered scheme path) (ih hg)

theorem identity_eq_of_conceal (h : c.identity.conceal = b.identity.conceal)
    (hg : b.guarded = false) : c.identity = b.identity := by
  have hb : b.identity.guarded = false := b.guarded_identity.trans hg
  have hc : c.identity.guarded = false := by
    rw [← c.identity.guarded_conceal, h, b.identity.guarded_conceal, hb]
  rw [conceal_of_not_guarded hb, conceal_of_not_guarded hc] at h
  exact h

theorem identity_rekey_ne (hg : b.guarded = true) : b.rekey.identity ≠ b.identity := by
  induction b with
  | rooted root => cases hg
  | hosted h =>
    intro he
    obtain ⟨-, -, -, hp⟩ := Host.identity_eq_iff.1 (hosted.inj he)
    rw [h.password_rekey] at hp
    obtain ⟨password, hs⟩ := Option.isSome_iff_exists.1 hg
    rw [hs] at hp
    have hlen : password.length + 1 = password.length :=
      congrArg List.length (Option.some.inj hp)
    omega
  | layered scheme path outer ih =>
    intro he
    exact ih hg (layered.inj he).2.2

theorem Legible.rekey {path : Text} (hl : b.Legible path) : b.rekey.Legible path := by
  induction b generalizing path with
  | rooted root => trivial
  | hosted h => exact hl
  | layered scheme outerPath outer ih => exact ⟨hl.1, ih hl.2⟩

end Backend

namespace FileName
variable {n m : FileName}

def rekey (n : FileName) : FileName :=
  { n with backend := n.backend.rekey }

theorem same_rekey (n : FileName) : n.rekey.Same n := by
  have hc : n.rekey.conceal = n.conceal := by
    unfold conceal
    exact congrArg (FileName.mk n.scheme n.path) n.backend.conceal_rekey
  exact Prod.ext (eq_of_conceal rootUri rootUri_conceal hc) rfl

theorem Valid.rekey (h : n.Valid) : n.rekey.Valid := by
  induction h with
  | rooted hk hp => exact .rooted hk hp
  | hosted hk hh hp => exact .hosted hk hh.rekey hp
  | layered hk _ hp ih => exact .layered hk ih hp

theorem Readable.rekey (h : n.Readable) : n.rekey.Readable :=
  ⟨h.valid.rekey, h.legible.rekey⟩

theorem Readable.resolve (h : n.Readable) {name : Text} {scope : Scope}
    (hm : n.resolve name scope = .ok m) : m.Readable := by
  obtain ⟨p, hp, rfl⟩ := resolve_eq_ok_iff.1 hm
  exact h.withPath (Path.isNormal_of_resolve h.valid.isNormal hp)

theorem Readable.identity_conceal_eq (hn : n.Readable) (hm : m.Readable) (hs : n.Same m) :
    n.backend.identity.conceal = m.backend.identity.conceal := by
  have hshown : n.backend.shown = m.backend.shown :=
    congrArg FileName.backend ((hn.same_iff hm).1 hs)
  rw [← n.backend.identity_shown, hshown, m.backend.identity_shown]

theorem Readable.forall_same_identity_iff (hn : n.Readable) :
    (∀ m : FileName, m.Readable → m.Same n → m.backend.identity = n.backend.identity) ↔
      n.backend.guarded = false := by
  constructor
  · intro h
    cases hg : n.backend.guarded with
    | false => rfl
    | true =>
      have he : n.rekey.backend.identity = n.backend.identity := h n.rekey hn.rekey n.same_rekey
      exact absurd he (Backend.identity_rekey_ne hg)
  · intro hg m hm hs
    exact Backend.identity_eq_of_conceal (hm.identity_conceal_eq hn hs) hg

end FileName
end FileNaming
