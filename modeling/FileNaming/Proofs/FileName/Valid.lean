import FileNaming.FileName.Reach
import FileNaming.Proofs.FileName.Entry
import FileNaming.Proofs.FileName.Host
import FileNaming.Proofs.Path.Normality

/-! The names that can come up: those that are read from a URI and those that are
reached from them. A known scheme fits the place at every level, paths are normal
and hosts are as they are read. Reading establishes it and every step keeps it. -/

namespace FileNaming.FileName

inductive Valid : FileName → Prop
  | rooted {scheme path : Text} (hk : Scheme.kind? scheme = some .rooted)
    (hp : Path.IsNormal path) :
    Valid ⟨scheme, path, .rooted ['/']⟩
  | hosted {scheme path : Text} {h : Host} {port : Port}
    (hk : Scheme.kind? scheme = some (.hosted port)) (hh : h.Valid port)
    (hp : Path.IsNormal path) :
    Valid ⟨scheme, path, .hosted h⟩
  | layered {scheme path : Text} {outer : FileName} (hk : Scheme.kind? scheme = some .layered)
    (ho : outer.Valid) (hp : Path.IsNormal path) :
    Valid ⟨scheme, path, .within outer⟩

theorem WellFormed.valid {n : FileName} (h : n.WellFormed) : n.Valid := by
  induction h with
  | rooted hp => exact .rooted (by decide) hp
  | hosted hk hh hp => exact .hosted hk hh.valid hp
  | layered hk _ hp _ ih => exact .layered hk ih hp

theorem Valid.isNormal {n : FileName} (h : n.Valid) : Path.IsNormal n.path := by
  cases h with
  | rooted _ hp => exact hp
  | hosted _ _ hp => exact hp
  | layered _ _ hp => exact hp

theorem Valid.withPath {n : FileName} (h : n.Valid) {p : Text} (hp : Path.IsNormal p) :
    (n.withPath p).Valid := by
  cases h with
  | rooted hk _ => exact .rooted hk hp
  | hosted hk hh _ => exact .hosted hk hh hp
  | layered hk ho _ => exact .layered hk ho hp

theorem absolutePath_of_ordinary {raw : Text} (hr : raw = [] ∨ raw.head? = some '/')
    (hb : '\\' ∉ raw) (hs : ∀ s ∈ Path.segments raw, Path.Ordinary s) :
    absolutePath raw = .ok (Path.ofSegments (Path.segments raw)) := by
  rw [absolutePath, Path.normalize_of_ordinary hb hs]
  rcases hr with rfl | hr
  · rfl
  · simp [hr, Path.ofSegments]

theorem absolutePath_of_isNormal {p : Text} (hp : Path.IsNormal p) : absolutePath p = .ok p := by
  obtain ⟨t, rfl⟩ := hp.exists_cons
  rw [absolutePath, hp.normalize_eq]
  rfl

theorem absolutePath_eq_normalize {raw : Text} (hr : raw.head? = some '/') :
    absolutePath raw = Path.normalize raw := by
  unfold absolutePath
  cases hn : Path.normalize raw with
  | error e => rfl
  | ok q =>
    have hq : Path.IsNormal q := Path.isNormal_of_normalize (Path.head?_fixSeparators hr) hn
    obtain ⟨t, rfl⟩ := hq.exists_cons
    rfl

theorem isNormal_of_absolutePath {raw p : Text} (hr : raw = [] ∨ raw.head? = some '/')
    (h : absolutePath raw = .ok p) : Path.IsNormal p := by
  rcases hr with rfl | hr
  · -- nothing is written, and the root stands for it
    cases h
    exact .root
  · rw [absolutePath_eq_normalize hr] at h
    exact Path.isNormal_of_normalize (Path.head?_fixSeparators hr) h

theorem ofRooted_eq_ok {uri scheme rest : Text} {n : FileName}
    (h : ofRooted uri scheme rest = .ok n) :
    ∃ path, (dropSlashes rest).head? = some '/' ∧ absolutePath (dropSlashes rest) = .ok path ∧
      n = ⟨scheme, path, .rooted ['/']⟩ := by
  unfold ofRooted at h
  split at h
  · rename_i hr
    split at h
    · cases h
    · rename_i path hp
      cases h
      exact ⟨path, hr, hp, rfl⟩
  · cases h

theorem ofHosted_eq_ok {scheme rest : Text} {port : Port} {n : FileName}
    (h : ofHosted scheme port rest = .ok n) :
    ∃ authority raw a path, Authority.cut rest = some (authority, raw) ∧
      Authority.ofText authority = .ok a ∧ absolutePath raw = .ok path ∧
      n = ⟨scheme, path, .hosted (hostOf port a)⟩ := by
  unfold ofHosted at h
  split at h
  · cases h
  · rename_i authority raw hc
    split at h
    · cases h
    · rename_i a ha
      split at h
      · cases h
      · rename_i path hp
        cases h
        exact ⟨authority, raw, a, path, hc, ha, hp, rfl⟩

theorem ofEntry_eq_ok {scheme raw : Text} {outer n : FileName}
    (h : ofEntry scheme raw outer = .ok n) :
    ∃ path, absolutePath raw = .ok path ∧ n = ⟨scheme, path, .within outer⟩ := by
  unfold ofEntry at h
  split at h
  · cases h
  · rename_i path hp
    cases h
    exact ⟨path, hp, rfl⟩

theorem valid_of_ofRooted {uri scheme rest : Text} {n : FileName}
    (hk : Scheme.kind? scheme = some .rooted) (h : ofRooted uri scheme rest = .ok n) :
    n.Valid := by
  obtain ⟨path, hr, hp, rfl⟩ := ofRooted_eq_ok h
  exact .rooted hk (isNormal_of_absolutePath (.inr hr) hp)

theorem valid_of_ofHosted {scheme rest : Text} {port : Port} {n : FileName}
    (hk : Scheme.kind? scheme = some (.hosted port)) (h : ofHosted scheme port rest = .ok n) :
    n.Valid := by
  obtain ⟨authority, raw, a, path, hc, ha, hp, rfl⟩ := ofHosted_eq_ok h
  obtain ⟨hslash, hraw⟩ := Authority.cut_eq_some hc
  exact .hosted hk (Host.valid_hostOf hslash ha port) (isNormal_of_absolutePath (.inr hraw) hp)

theorem valid_of_ofEntry {scheme raw : Text} {outer n : FileName}
    (hk : Scheme.kind? scheme = some .layered) (ho : outer.Valid)
    (hr : raw = [] ∨ raw.head? = some '/') (h : ofEntry scheme raw outer = .ok n) :
    n.Valid := by
  obtain ⟨path, hp, rfl⟩ := ofEntry_eq_ok h
  exact .layered hk ho (isNormal_of_absolutePath hr hp)

theorem valid_of_ofUri {uri : Text} {n : FileName} (h : ofUri uri = .ok n) : n.Valid := by
  obtain ⟨s, rest, hs, ⟨hk, hn⟩ | ⟨port, hk, hn⟩ | ⟨hk, outer, raw, o, hl, ho, hn⟩⟩ := ofUri_eq_ok h
  · exact valid_of_ofRooted hk hn
  · exact valid_of_ofHosted hk hn
  · exact valid_of_ofEntry hk (valid_of_ofUri ho) (raw_of_splitLayer hl) hn
termination_by uri.length
decreasing_by
  have hlen := length_splitLayer hl
  rw [Scheme.eq_append_of_cut hs, List.length_append, List.length_cons]
  omega

theorem Valid.resolve {n m : FileName} (h : n.Valid) {name : Text} {scope : Scope}
    (hm : n.resolve name scope = .ok m) : m.Valid := by
  obtain ⟨p, hp, rfl⟩ := resolve_eq_ok_iff.1 hm
  exact h.withPath (Path.isNormal_of_resolve h.isNormal hp)

theorem Valid.parent {n m : FileName} (h : n.Valid) (hm : n.parent? = some m) : m.Valid := by
  obtain ⟨p, hp, rfl⟩ := Option.map_eq_some_iff.1 hm
  exact h.withPath (Path.isNormal_of_parent? h.isNormal hp)

theorem Valid.reaches {start n : FileName} (h : start.Valid) (hn : Reaches start n) :
    n.Valid := by
  induction hn with
  | refl => exact h
  | resolve _ hm ih => exact ih.resolve hm
  | parent _ hm ih => exact ih.parent hm

end FileNaming.FileName
