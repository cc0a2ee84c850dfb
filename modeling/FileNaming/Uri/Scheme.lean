import FileNaming.Text.Cut

/-! The scheme of a URI, and what the known schemes name: trees of this machine,
trees on a host, and trees inside a file of another name. -/

namespace FileNaming

abbrev Port := Fin 65536

namespace Scheme

inductive Kind
  | rooted
  | hosted (port : Port)
  | layered
deriving DecidableEq, Repr

def known : List (Text × Kind) :=
  [("file".toList, .rooted),
   ("zip".toList, .layered), ("jar".toList, .layered), ("tar".toList, .layered),
   ("tgz".toList, .layered), ("tbz2".toList, .layered), ("gz".toList, .layered),
   ("bz2".toList, .layered),
   ("ftp".toList, .hosted 21), ("ftps".toList, .hosted 21), ("sftp".toList, .hosted 22),
   ("http".toList, .hosted 80), ("https".toList, .hosted 443), ("webdav".toList, .hosted 80),
   ("smb".toList, .hosted 139)]

def kind? (scheme : Text) : Option Kind :=
  known.lookup scheme

def defaultPort? (scheme : Text) : Option Port :=
  match kind? scheme with
  | some (.hosted port) => some port
  | _ => none

def isSchemeChar (c : Char) : Bool :=
  c.isAlphanum || c = '+' || c = '-' || c = '.'

/-- A scheme is a letter and then letters, digits, `+`, `-` and `.`, and a colon
ends it. Letters and digits are those of ASCII. -/
def cut (uri : Text) : Option (Text × Text) :=
  match Text.cutFirst ':' uri with
  | some (c :: s, rest) =>
    if c.isAlpha && s.all isSchemeChar then some (c :: s, rest) else none
  | _ => none

theorem eq_append_of_cut {uri scheme rest : Text} (h : cut uri = some (scheme, rest)) :
    uri = scheme ++ ':' :: rest := by
  unfold cut at h
  split at h
  · rename_i c s r hc
    split at h
    · cases h
      exact (Text.cutFirst_eq_some_iff.1 hc).1
    · cases h
  · cases h

end Scheme
end FileNaming
