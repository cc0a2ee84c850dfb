import FileNaming.FileName.Reader
import FileNaming.FileName.WellFormed
import FileNaming.Proofs.FileName.Concealed
import FileNaming.Proofs.Uri.Grammar

/-! A host, the authority it is written as, and the host that is read from it. The
default port is not written; a colon that is left in the host is then taken for the
start of a port, and what is read is another host or none. -/

namespace FileNaming

namespace Host

structure Valid (defaultPort : Port) (h : Host) : Prop where
  default : h.defaultPort = some defaultPort
  ne_nil : h.host ≠ []
  lower : ∀ c ∈ h.host, c.toLower = c
  no_slash : '/' ∉ h.host
  no_at : '@' ∉ h.host
  credentials : ∀ c, h.credentials = some c → c.WellFormed

/-- A host that holds a colon is told from its port only if the port is written. -/
def Legible (h : Host) : Prop :=
  ':' ∈ h.host → h.effectivePort ≠ h.defaultPort

instance (h : Host) : Decidable h.Legible :=
  inferInstanceAs (Decidable (':' ∈ h.host → h.effectivePort ≠ h.defaultPort))

def shownPort (h : Host) : Option Port :=
  if h.port = h.defaultPort then none else h.port

def shown (h : Host) : Host :=
  { h.conceal with port := h.shownPort }

def authorityText (h : Host) : Text :=
  h.userText ++ h.host ++ h.portText

theorem WellFormed.valid {h : Host} {port : Port} (hw : h.WellFormed port) : h.Valid port :=
  ⟨hw.default, hw.ne_nil, hw.lower, hw.no_slash, hw.no_at, hw.credentials⟩

theorem WellFormed.legible {h : Host} {port : Port} (hw : h.WellFormed port) : h.Legible :=
  fun hc => absurd hc hw.no_colon

theorem shownPort_eq_none_iff (h : Host) :
    h.shownPort = none ↔ h.effectivePort = h.defaultPort := by
  unfold shownPort effectivePort
  cases h.port with
  | none => simp
  | some p => by_cases hp : some p = h.defaultPort <;> simp [hp]

theorem portText_eq (h : Host) : h.portText = Authority.portPart h.shownPort := by
  unfold portText shownPort
  cases h.port with
  | none => simp [Authority.portPart]
  | some p => by_cases hp : h.defaultPort = some p <;> simp [hp, eq_comm, Authority.portPart]

theorem userText_eq (h : Host) :
    h.userText = Authority.userPart (h.credentials.map Credentials.conceal) := by
  obtain ⟨host, port, defaultPort, credentials⟩ := h
  rcases credentials with _ | ⟨user, _ | w⟩
  · rfl
  · rfl
  · simp [userText, Authority.userPart, Credentials.text, Credentials.conceal]

theorem authorityText_eq (h : Host) : h.authorityText =
    Authority.text ⟨h.credentials.map Credentials.conceal, h.host, h.shownPort⟩ := by
  rw [authorityText, userText_eq, portText_eq, List.append_assoc]
  rfl

theorem effectivePort_shown (h : Host) : h.shown.effectivePort = h.effectivePort := by
  show (h.shownPort <|> h.defaultPort) = (h.port <|> h.defaultPort)
  unfold shownPort
  by_cases hp : h.port = h.defaultPort
  · rw [if_pos hp, hp]
    cases h.defaultPort <;> rfl
  · rw [if_neg hp]

theorem user_shown (h : Host) : h.shown.user = h.user := by
  obtain ⟨host, port, defaultPort, credentials⟩ := h
  rcases credentials with _ | c <;> rfl

theorem isSome_password_shown (h : Host) : h.shown.password.isSome = h.password.isSome := by
  obtain ⟨host, port, defaultPort, credentials⟩ := h
  rcases credentials with _ | ⟨user, _ | password⟩ <;> rfl

theorem portText_shown (h : Host) : h.shown.portText = h.portText := by
  rw [portText_eq, portText_eq]
  have hp : h.shown.shownPort = h.shownPort := by
    show (if h.shownPort = h.defaultPort then none else h.shownPort) = h.shownPort
    unfold shownPort
    by_cases hp : h.port = h.defaultPort <;> simp [hp]
  rw [hp]

theorem authorityText_shown (h : Host) : h.shown.authorityText = h.authorityText := by
  unfold authorityText
  rw [portText_shown]
  exact congrArg (fun t => t ++ h.host ++ h.portText) h.userText_conceal

theorem notMem_portText {c : Char} (hc : c ≠ ':') (hd : c.isDigit = false) (h : Host) :
    c ∉ h.portText := by
  rw [portText_eq]
  cases h.shownPort with
  | none => simp [Authority.portPart]
  | some p => simp [Authority.portPart, hc, Authority.notMem_numeral hd]

section Valid
variable {h : Host} {port : Port} (hv : h.Valid port)
include hv

theorem Valid.at_notMem : '@' ∉ h.host ++ h.portText := by
  simp [hv.no_at, notMem_portText]

theorem Valid.slash_notMem : '/' ∉ h.authorityText := by
  have hu : '/' ∉ h.userText := by
    unfold userText
    split
    · simp
    · rename_i user hc
      simp [(hv.credentials _ hc).no_slash]
    · rename_i user w hc
      simp [(hv.credentials _ hc).no_slash, Uri.placeholder]
  simp [authorityText, hu, hv.no_slash, notMem_portText]

theorem Valid.userFits : Authority.UserFits (h.credentials.map Credentials.conceal) := by
  intro x hx
  obtain ⟨c, hc, rfl⟩ := Option.map_eq_some_iff.1 hx
  exact (hv.credentials c hc).no_colon

theorem Valid.splitUser_eq :
    Authority.splitUser h.authorityText =
      (h.credentials.map Credentials.conceal, h.host ++ h.portText) := by
  refine Authority.splitUser_eq_iff.2 ⟨?_, hv.at_notMem, hv.userFits⟩
  rw [authorityText, userText_eq, List.append_assoc]

theorem Valid.ofText_eq (hl : h.Legible) :
    Authority.ofText h.authorityText =
      .ok ⟨h.credentials.map Credentials.conceal, h.host, h.shownPort⟩ := by
  have hcolon : h.shownPort = none → ':' ∉ h.host := fun hs hc =>
    hl hc (h.shownPort_eq_none_iff.1 hs)
  have hw : Authority.Writable ⟨h.credentials.map Credentials.conceal, h.host, h.shownPort⟩ :=
    ⟨hv.userFits, hv.ne_nil, hv.no_at, hcolon⟩
  have hspells := Authority.spells_text hw
  rw [authorityText_eq, Authority.ofText_eq_ok_iff_spells]
  rwa [Text.map_toLower_of_forall hv.lower] at hspells

theorem Valid.length_lt_of_not_legible (hl : ¬ h.Legible) {a : Authority}
    (ha : Authority.ofText h.authorityText = .ok a) : a.host.length < h.host.length := by
  obtain ⟨hc, hp⟩ : ':' ∈ h.host ∧ h.effectivePort = h.defaultPort := by simpa [Legible] using hl
  obtain ⟨host, p, hs, -, rfl⟩ := Authority.ofText_eq_ok_iff.1 ha
  -- no port is written, so the last colon of the host itself is cut at
  rw [hv.splitUser_eq, portText_eq, h.shownPort_eq_none_iff.2 hp, Authority.portPart,
    List.append_nil] at hs
  rw [List.length_map]
  exact (Authority.host_of_splitPort hs).2 hc

end Valid

theorem valid_hostOf {t : Text} {a : Authority} (ht : '/' ∉ t) (h : Authority.ofText t = .ok a)
    (port : Port) : (FileName.hostOf port a).Valid port := by
  obtain ⟨host, p, hs, hne, rfl⟩ := Authority.ofText_eq_ok_iff.1 h
  have hsub : host ⊆ (Authority.splitUser t).2 := (Authority.host_of_splitPort hs).1
  refine ⟨rfl, ?_, ?_, ?_, ?_, ?_⟩
  · simpa [FileName.hostOf] using hne
  · intro c hc
    obtain ⟨d, -, rfl⟩ := List.mem_map.1 hc
    exact Text.toLower_toLower d
  · exact Text.notMem_map_toLower (by decide) fun hm =>
      ht (Authority.splitUser_subset t (hsub hm))
  · exact Text.notMem_map_toLower (by decide) fun hm => Authority.at_notMem_splitUser t (hsub hm)
  · intro c hc
    obtain ⟨hcolon, husub⟩ := Authority.user_of_splitUser hc
    exact ⟨hcolon, fun hm => ht (husub hm)⟩

end Host
end FileNaming
