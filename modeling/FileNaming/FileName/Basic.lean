import FileNaming.Path.Attributes
import FileNaming.Path.Relative
import FileNaming.Path.Resolve
import FileNaming.Uri.Authority
import FileNaming.Uri.Mask

/-! A file name is a scheme, an absolute path and the place the path lies in: a
tree of this machine, a tree on a host, or the inside of a file that has a name
of its own. Two names are equal when their root URIs and paths are. -/

namespace FileNaming

structure Host where
  host : Text
  port : Option Port
  defaultPort : Option Port
  credentials : Option Credentials
deriving DecidableEq, Repr

/-- The place of a layered name holds the scheme, the path and the place of its
outer name. -/
inductive Backend
  | rooted (root : Text)
  | hosted (host : Host)
  | layered (scheme path : Text) (outer : Backend)
deriving DecidableEq, Repr

structure FileName where
  scheme : Text
  path : Text
  backend : Backend
deriving DecidableEq, Repr

namespace Host

def user (h : Host) : Option Text :=
  h.credentials.map Credentials.user

def password (h : Host) : Option Text :=
  h.credentials.bind Credentials.password

def effectivePort (h : Host) : Option Port :=
  h.port <|> h.defaultPort

def userText (h : Host) : Text :=
  match h.credentials with
  | none => []
  | some ⟨user, none⟩ => user ++ ['@']
  | some ⟨user, some _⟩ => user ++ ':' :: Uri.placeholder ++ ['@']

def portText (h : Host) : Text :=
  match h.port with
  | none => []
  | some p => if h.defaultPort = some p then [] else ':' :: Text.numeral p.val

end Host

namespace Backend

def dropSlash (t : Text) : Text :=
  if t.getLast? = some '/' then t.dropLast else t

def rootText (scheme : Text) : Backend → Text
  | rooted root => scheme ++ ':' :: '/' :: '/' :: root
  | hosted h => scheme ++ ':' :: '/' :: '/' :: (h.userText ++ h.host ++ h.portText ++ ['/'])
  | layered s path outer => scheme ++ ':' :: (dropSlash (rootText s outer) ++ path ++ ['!'])

def within (outer : FileName) : Backend :=
  layered outer.scheme outer.path outer.backend

end Backend

namespace FileName

def rootUri (n : FileName) : Text :=
  Backend.dropSlash (n.backend.rootText n.scheme)

def uri (n : FileName) : Text :=
  n.rootUri ++ n.path

def key (n : FileName) : Text × Text :=
  (n.rootUri, n.path)

/-- Names of one file; they may still differ in what their places hold. -/
def Same (a b : FileName) : Prop :=
  a.key = b.key

instance (a b : FileName) : Decidable (Same a b) :=
  inferInstanceAs (Decidable (a.key = b.key))

theorem Same.uri_eq {n m : FileName} (h : n.Same m) : n.uri = m.uri :=
  congrArg (fun k : Text × Text => k.1 ++ k.2) h

def withPath (n : FileName) (path : Text) : FileName :=
  { n with path }

def baseName (n : FileName) : Text :=
  Path.baseName n.path

def extension (n : FileName) : Text :=
  Path.extension n.baseName

def depth (n : FileName) : Nat :=
  Path.depth n.path

def parent? (n : FileName) : Option FileName :=
  (Path.parent? n.path).map n.withPath

def resolve (n : FileName) (name : Text) (scope : Scope) : Except NameError FileName :=
  (Path.resolve n.path name scope).map n.withPath

theorem resolve_eq_ok_iff {n m : FileName} {name : Text} {scope : Scope} :
    n.resolve name scope = .ok m ↔
      ∃ p, Path.resolve n.path name scope = .ok p ∧ n.withPath p = m :=
  NameError.map_eq_ok_iff

def relative (n target : FileName) : Text :=
  Path.relative n.path target.path

def isWithin (n base : FileName) (scope : Scope) : Bool :=
  n.rootUri = base.rootUri && Path.inScope base.path n.path scope

def isDescendentOf (n base : FileName) : Bool :=
  n.isWithin base .descendent

def isAncestorOf (n other : FileName) : Bool :=
  n.rootUri = other.rootUri && Path.inScope n.path other.path .descendent

end FileName
end FileNaming
