import FileNaming.FileName.Basic
import FileNaming.Text.Literal

/-! Listings of names and their parts for inspection: the name of the record and
its fields in braces. A listing tells that there is a password, and not which. -/

namespace FileNaming

namespace Listing

def fields : List (String × Text) → Text
  | [] => []
  | [(name, value)] => name.toList ++ ':' :: ' ' :: value
  | (name, value) :: rest => name.toList ++ ':' :: ' ' :: value ++ ',' :: ' ' :: fields rest

def record (name : String) (entries : List (String × Text)) : Text :=
  name.toList ++ ' ' :: '{' :: ' ' :: fields entries ++ [' ', '}']

def option (value : Option Text) : Text :=
  match value with
  | none => "None".toList
  | some t => "Some(".toList ++ t ++ [')']

def text? (t : Option Text) : Text :=
  option (t.map Text.literal)

def port? (p : Option Port) : Text :=
  option (p.map fun n => Text.numeral n.val)

def secret? (t : Option Text) : Text :=
  text? (t.map fun _ => Uri.placeholder)

end Listing

open Listing

def Authority.inspect (a : Authority) : Text :=
  record "Authority"
    [("user_name", text? a.user), ("password", secret? a.password),
     ("host", Text.literal a.host), ("port", port? a.port)]

def Host.inspect (h : Host) : Text :=
  record "HostBackend"
    [("host", Text.literal h.host), ("port", port? h.port),
     ("default_port", port? h.defaultPort), ("user_name", text? h.user),
     ("password", secret? h.password)]

def FileName.record (scheme path place : Text) : Text :=
  Listing.record "FileName"
    [("scheme", Text.literal scheme), ("path", Text.literal path), ("backend", place)]

def Backend.inspect : Backend → Text
  | rooted root => record "LocalBackend" [("root_file", Text.literal root)]
  | hosted h => h.inspect
  | layered scheme path outer =>
    record "LayeredBackend" [("outer", FileName.record scheme path outer.inspect)]

def FileName.inspect (n : FileName) : Text :=
  FileName.record n.scheme n.path n.backend.inspect

end FileNaming
