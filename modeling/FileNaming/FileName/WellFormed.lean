import FileNaming.FileName.Basic

/-! Well-formed names: those whose parts can be told apart again in their URI.
No part holds a mark that a reader of the URI would take for the end of it. -/

namespace FileNaming

def Path.NoEntryMark (p : Text) : Prop :=
  ∀ a b : Text, p = a ++ '!' :: b → b ≠ [] ∧ b.head? ≠ some '/'

structure Credentials.WellFormed (c : Credentials) : Prop where
  no_colon : ':' ∉ c.user
  no_slash : '/' ∉ c.user

structure Host.WellFormed (defaultPort : Port) (h : Host) : Prop where
  default : h.defaultPort = some defaultPort
  ne_nil : h.host ≠ []
  lower : ∀ c ∈ h.host, c.toLower = c
  no_slash : '/' ∉ h.host
  no_at : '@' ∉ h.host
  no_colon : ':' ∉ h.host
  credentials : ∀ c, h.credentials = some c → c.WellFormed

inductive FileName.WellFormed : FileName → Prop
  | rooted {path : Text} (hp : Path.IsNormal path) :
    WellFormed ⟨"file".toList, path, .rooted ['/']⟩
  | hosted {scheme path : Text} {h : Host} {port : Port}
    (hk : Scheme.kind? scheme = some (.hosted port)) (hh : h.WellFormed port)
    (hp : Path.IsNormal path) :
    WellFormed ⟨scheme, path, .hosted h⟩
  | layered {scheme path : Text} {outer : FileName} (hk : Scheme.kind? scheme = some .layered)
    (ho : outer.WellFormed) (hp : Path.IsNormal path) (he : Path.NoEntryMark path) :
    WellFormed ⟨scheme, path, .within outer⟩

end FileNaming
