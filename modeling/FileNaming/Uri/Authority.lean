import FileNaming.NameError
import FileNaming.Text.Numeral
import FileNaming.Uri.Scheme

/-! The authority of a URI: an optional user with an optional password, a host
and an optional port, written `[user[:password]@]host[:port]`. The last `@`
ends the user part, the first `:` in it ends the user, and the last `:` behind
it starts the port. -/

namespace FileNaming

structure Credentials where
  user : Text
  password : Option Text
deriving DecidableEq, Repr

structure Authority where
  credentials : Option Credentials
  host : Text
  port : Option Port
deriving DecidableEq, Repr

namespace Authority

def user (a : Authority) : Option Text :=
  a.credentials.map Credentials.user

def password (a : Authority) : Option Text :=
  a.credentials.bind Credentials.password

def credentialsOf (info : Text) : Credentials :=
  match Text.cutFirst ':' info with
  | none => ⟨info, none⟩
  | some (user, password) => ⟨user, some password⟩

def splitUser (a : Text) : Option Credentials × Text :=
  match Text.cutLast '@' a with
  | none => (none, a)
  | some (info, hostPort) => (some (credentialsOf info), hostPort)

def splitPort (hostPort : Text) : Except NameError (Text × Option Port) :=
  match Text.cutLast ':' hostPort with
  | none => .ok (hostPort, none)
  | some (host, port) =>
    match Text.valueBelow? 65536 port with
    | some n => .ok (host, some n)
    | none => .error (.invalidUri (.badPort hostPort))

def ofText (a : Text) : Except NameError Authority :=
  match splitPort (splitUser a).2 with
  | .error e => .error e
  | .ok (host, port) =>
    if host = [] then .error (.invalidUri .missingHost)
    else .ok ⟨(splitUser a).1, host.map Char.toLower, port⟩

def cut : Text → Option (Text × Text)
  | '/' :: '/' :: rest =>
    match Text.cutFirst '/' rest with
    | some (authority, path) => some (authority, '/' :: path)
    | none => some (rest, ['/'])
  | _ => none

end Authority
end FileNaming
