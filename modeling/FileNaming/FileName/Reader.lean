import FileNaming.FileName.Basic

/-! Reading a URI into a name. The scheme decides how the rest is read; a
layered URI holds the URI of its outer name, which is read first. -/

namespace FileNaming.FileName

def absolutePath (raw : Text) : Except NameError Text :=
  match Path.normalize raw with
  | .error e => .error e
  | .ok p => .ok (if p = [] then ['/'] else p)

/-- The last `!` that ends its text or stands before a `/` parts the outer URI
from the path inside. -/
def cutEntry : Text → Option (Text × Text)
  | [] => none
  | c :: t =>
    match cutEntry t with
    | some p => some (c :: p.1, p.2)
    | none => if c = '!' ∧ (t = [] ∨ t.head? = some '/') then some ([], t) else none

def splitLayer (rest : Text) : Option (Text × Text) :=
  match cutEntry rest with
  | some p => some p
  | none => if '!' ∈ rest then none else some (rest, [])

theorem length_cutEntry {t a b : Text} (h : cutEntry t = some (a, b)) : a.length < t.length := by
  induction t generalizing a b with
  | nil => cases h
  | cons c t ih =>
    unfold cutEntry at h
    split at h
    · rename_i p hp
      cases h
      have := ih hp
      simp only [List.length_cons]
      omega
    · split at h
      · cases h
        simp
      · cases h

theorem length_splitLayer {t a b : Text} (h : splitLayer t = some (a, b)) :
    a.length ≤ t.length := by
  unfold splitLayer at h
  split at h
  · rename_i p hp
    cases h
    exact Nat.le_of_lt (length_cutEntry hp)
  · split at h
    · cases h
    · cases h
      exact Nat.le_refl _

def malformed (uri : Text) : NameError :=
  .invalidUri (.malformed (Uri.mask uri))

def dropSlashes : Text → Text
  | '/' :: '/' :: t => t
  | t => t

def ofRooted (uri scheme rest : Text) : Except NameError FileName :=
  if (dropSlashes rest).head? = some '/' then
    match absolutePath (dropSlashes rest) with
    | .error e => .error e
    | .ok path => .ok ⟨scheme, path, .rooted ['/']⟩
  else .error (malformed uri)

def hostOf (defaultPort : Port) (a : Authority) : Host :=
  ⟨a.host, a.port, some defaultPort, a.credentials⟩

def ofHosted (scheme : Text) (defaultPort : Port) (rest : Text) : Except NameError FileName :=
  match Authority.cut rest with
  | none => .error (.invalidUri (.missingAuthority scheme))
  | some (authority, raw) =>
    match Authority.ofText authority with
    | .error e => .error e
    | .ok a =>
      match absolutePath raw with
      | .error e => .error e
      | .ok path => .ok ⟨scheme, path, .hosted (hostOf defaultPort a)⟩

def ofEntry (scheme raw : Text) (outer : FileName) : Except NameError FileName :=
  match absolutePath raw with
  | .error e => .error e
  | .ok path => .ok ⟨scheme, path, .within outer⟩

def ofUri (uri : Text) : Except NameError FileName :=
  match _hs : Scheme.cut uri with
  | none => .error (malformed uri)
  | some (s, rest) =>
    match Scheme.kind? (s.map Char.toLower) with
    | none => .error (.unknownScheme (s.map Char.toLower))
    | some .rooted => ofRooted uri (s.map Char.toLower) rest
    | some (.hosted port) => ofHosted (s.map Char.toLower) port rest
    | some .layered =>
      match _hl : splitLayer rest with
      | none => .error (malformed uri)
      | some (outer, raw) =>
        match ofUri outer with
        | .error e => .error e
        | .ok n => ofEntry (s.map Char.toLower) raw n
termination_by uri.length
decreasing_by
  have h₁ := length_splitLayer _hl
  rw [Scheme.eq_append_of_cut _hs]
  simp only [List.length_append, List.length_cons]
  omega

theorem ofUri_of_cut_eq_none {uri : Text} (h : Scheme.cut uri = none) :
    ofUri uri = .error (malformed uri) := by
  rw [ofUri]
  split
  · rfl
  · simp_all

theorem ofUri_of_unknown {uri s rest : Text} (h : Scheme.cut uri = some (s, rest))
    (hk : Scheme.kind? (s.map Char.toLower) = none) :
    ofUri uri = .error (.unknownScheme (s.map Char.toLower)) := by
  rw [ofUri]
  split
  · simp_all
  · rename_i s' rest' hs
    cases h.symm.trans hs
    split <;> simp_all

theorem ofUri_of_rooted {uri s rest : Text} (h : Scheme.cut uri = some (s, rest))
    (hk : Scheme.kind? (s.map Char.toLower) = some .rooted) :
    ofUri uri = ofRooted uri (s.map Char.toLower) rest := by
  rw [ofUri]
  split
  · simp_all
  · rename_i s' rest' hs
    cases h.symm.trans hs
    split <;> simp_all

theorem ofUri_of_hosted {uri s rest : Text} {port : Port} (h : Scheme.cut uri = some (s, rest))
    (hk : Scheme.kind? (s.map Char.toLower) = some (.hosted port)) :
    ofUri uri = ofHosted (s.map Char.toLower) port rest := by
  rw [ofUri]
  split
  · simp_all
  · rename_i s' rest' hs
    cases h.symm.trans hs
    split <;> simp_all

theorem ofUri_of_layered {uri s rest : Text} (h : Scheme.cut uri = some (s, rest))
    (hk : Scheme.kind? (s.map Char.toLower) = some .layered) :
    ofUri uri =
      match splitLayer rest with
      | none => .error (malformed uri)
      | some (outer, raw) =>
        match ofUri outer with
        | .error e => .error e
        | .ok n => ofEntry (s.map Char.toLower) raw n := by
  rw [ofUri]
  split
  · simp_all
  · rename_i s' rest' hs
    cases h.symm.trans hs
    rw [hk]
    dsimp only
    split <;> rename_i hl <;> rw [hl]

end FileNaming.FileName
