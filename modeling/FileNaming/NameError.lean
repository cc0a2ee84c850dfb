import FileNaming.Text.Cut

/-! Why a text names no file. The wording stands in one place. Malformed texts are masked
before they are kept. A bad port keeps the host part as it is written, and of a password
with a `/` the part before that stands there. -/

namespace FileNaming

inductive UriFault
  | malformed (masked : Text)
  | missingAuthority (scheme : Text)
  | badPort (hostPort : Text)
  | missingHost
deriving DecidableEq, Repr

inductive NameError
  | invalidDescendantName (name : Text)
  | escapesRoot (path : Text)
  | unsupportedScope (text : Text)
  | invalidUri (fault : UriFault)
  | unknownScheme (scheme : Text)
deriving DecidableEq, Repr

def UriFault.message : UriFault → String
  | malformed masked => String.ofList masked
  | missingAuthority scheme => "missing authority in " ++ String.ofList scheme ++ " URI"
  | badPort hostPort => "bad port in \"" ++ String.ofList hostPort ++ "\""
  | missingHost => "missing host name"

def NameError.message : NameError → String
  | invalidDescendantName name => "Invalid descendant file name \"" ++ String.ofList name ++ "\""
  | escapesRoot path =>
    "Invalid relative path \"" ++ String.ofList path ++ "\": ascends above the file system root"
  | unsupportedScope text => "Unsupported name scope: " ++ String.ofList text
  | invalidUri fault => "Invalid URI: " ++ fault.message
  | unknownScheme scheme => "Unknown URI scheme: " ++ String.ofList scheme

def NameError.exitCode : NameError → Nat
  | invalidDescendantName _ => 3
  | escapesRoot _ => 4
  | unsupportedScope _ => 2
  | invalidUri _ => 5
  | unknownScheme _ => 5

namespace NameError
variable {α β : Type} {r : Except NameError α} {b : β}

theorem map_eq_ok_iff {f : α → β} : r.map f = .ok b ↔ ∃ a, r = .ok a ∧ f a = b := by
  cases r <;> simp [Except.map]

theorem bind_eq_ok_iff {f : α → Except NameError β} :
    r.bind f = .ok b ↔ ∃ a, r = .ok a ∧ f a = .ok b := by
  cases r <;> simp [Except.bind]

end NameError

end FileNaming
