import FileNaming.FileName.Inspect

/-! What can be seen of a name: everything but the passwords in it. Blanking them
out changes neither its URIs nor its listing, so outcomes that agree up to
passwords cannot be told apart. -/

namespace FileNaming

def Credentials.conceal (c : Credentials) : Credentials :=
  { c with password := c.password.map fun _ => Uri.placeholder }

namespace Host

def conceal (h : Host) : Host :=
  { h with credentials := h.credentials.map Credentials.conceal }

theorem userText_conceal (h : Host) : h.conceal.userText = h.userText := by
  obtain ⟨host, port, defaultPort, credentials⟩ := h
  rcases credentials with _ | ⟨user, _ | password⟩ <;> rfl

theorem inspect_conceal (h : Host) : h.conceal.inspect = h.inspect := by
  obtain ⟨host, port, defaultPort, credentials⟩ := h
  rcases credentials with _ | ⟨user, _ | password⟩ <;> rfl

end Host

namespace Backend

def conceal : Backend → Backend
  | rooted root => rooted root
  | hosted h => hosted h.conceal
  | layered scheme path outer => layered scheme path outer.conceal

@[simp] theorem rootText_conceal (scheme : Text) (b : Backend) :
    b.conceal.rootText scheme = b.rootText scheme := by
  induction b generalizing scheme with
  | rooted root => rfl
  | hosted h =>
    simp only [conceal, rootText, h.userText_conceal]
    rfl
  | layered s path outer ih => simp only [conceal, rootText, ih]

@[simp] theorem inspect_conceal (b : Backend) : b.conceal.inspect = b.inspect := by
  induction b with
  | rooted root => rfl
  | hosted h => exact h.inspect_conceal
  | layered scheme path outer ih => simp only [conceal, inspect, ih]

end Backend

namespace FileName

def conceal (n : FileName) : FileName :=
  { n with backend := n.backend.conceal }

@[simp] theorem path_conceal (n : FileName) : n.conceal.path = n.path := rfl

@[simp] theorem rootUri_conceal (n : FileName) : n.conceal.rootUri = n.rootUri := by
  simp [rootUri, conceal]

@[simp] theorem uri_conceal (n : FileName) : n.conceal.uri = n.uri := by
  simp [uri]

@[simp] theorem inspect_conceal (n : FileName) : n.conceal.inspect = n.inspect := by
  simp [inspect, conceal]

/-- Outcomes that nobody can tell apart: the same error with the same message, or
equal names that are shown in the same way. -/
def Alike : Except NameError FileName → Except NameError FileName → Prop
  | .error e, .error e' => e = e' ∧ e.message = e'.message
  | .ok n, .ok m => n.Same m ∧ n.uri = m.uri ∧ n.rootUri = m.rootUri ∧ n.inspect = m.inspect
  | _, _ => False

def Concealed (r r' : Except NameError FileName) : Prop :=
  r.map conceal = r'.map conceal

theorem Concealed.cases {r r' : Except NameError FileName} (h : Concealed r r') :
    (∃ e, r = .error e ∧ r' = .error e) ∨
      ∃ n m, r = .ok n ∧ r' = .ok m ∧ n.conceal = m.conceal := by
  unfold Concealed at h
  cases r with
  | error e =>
    cases r' with
    | error e' =>
      cases h
      exact .inl ⟨e, rfl, rfl⟩
    | ok m => cases h
  | ok n =>
    cases r' with
    | error e' => cases h
    | ok m => exact .inr ⟨n, m, rfl, rfl, Except.ok.inj h⟩

theorem eq_of_conceal {α : Type} (f : FileName → α) (hf : ∀ n, f n.conceal = f n)
    {n m : FileName} (h : n.conceal = m.conceal) : f n = f m := by
  rw [← hf n, h, hf m]

theorem Concealed.alike {r r' : Except NameError FileName} (h : Concealed r r') : Alike r r' := by
  obtain ⟨e, rfl, rfl⟩ | ⟨n, m, rfl, rfl, hc⟩ := h.cases
  · exact ⟨rfl, rfl⟩
  · have hr : n.rootUri = m.rootUri := eq_of_conceal rootUri rootUri_conceal hc
    have hp : n.path = m.path := eq_of_conceal path path_conceal hc
    have hu : n.uri = m.uri := eq_of_conceal uri uri_conceal hc
    have hi : n.inspect = m.inspect := eq_of_conceal inspect inspect_conceal hc
    exact ⟨Prod.ext hr hp, hu, hr, hi⟩

end FileName
end FileNaming
