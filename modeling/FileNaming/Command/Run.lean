import FileNaming.Command.Basic
import FileNaming.FileName.Reader
import FileNaming.Settings.Standard

/-! Running a command in a session: its output, or why there is none. -/

namespace FileNaming

inductive UsageFault
  | differentFileSystems (start target : Text)
  | unrecognized (line : Text)
deriving DecidableEq, Repr

inductive CommandError
  | name (error : NameError)
  | config (error : ConfigError)
  | usage (fault : UsageFault)
deriving DecidableEq, Repr

def UsageFault.message : UsageFault → String
  | differentFileSystems start target =>
    String.ofList start ++ " and " ++ String.ofList target ++ " are on different file systems"
  | unrecognized line =>
    "unrecognized command \"" ++ String.ofList line ++ "\"\n\n" ++ Command.usage

def CommandError.message : CommandError → String
  | name error => "Name error: " ++ error.message
  | config error => "Configuration error: " ++ error.message
  | usage fault => "Usage error: " ++ fault.message

def CommandError.exitCode : CommandError → Nat
  | name error => error.exitCode
  | config error => error.exitCode
  | usage _ => 2

namespace Command

def describe (n : FileName) : Text :=
  Text.join '\n'
    ["uri:       ".toList ++ n.uri,
     "scheme:    ".toList ++ n.scheme,
     "root uri:  ".toList ++ n.rootUri,
     "path:      ".toList ++ n.path,
     "base name: ".toList ++ n.baseName,
     "extension: ".toList ++ n.extension,
     "depth:     ".toList ++ Text.numeral n.depth,
     "parent:    ".toList ++ (n.parent?.map FileName.uri).getD ['-']]

def readScope : Option Text → Except NameError (Option Scope)
  | none => .ok none
  | some t => (Scope.ofText t).map some

def shownUri : Outcome → Except CommandError Text
  | .shown i => .ok i.name.uri
  | .failed e => .error (.name e)
  | .refused e => .error (.config e)
  | .done => .ok []
  | .absent => .ok []

def runResolve (s : Session) (base name : Text) (scope : Option Text) :
    Except CommandError Text × Session :=
  match FileName.ofUri base with
  | .error e => (.error (.name e), s)
  | .ok b =>
    match readScope scope with
    | .error e => (.error (.name e), s)
    | .ok scope =>
      let r := s.resolve b name scope
      (shownUri r.1, r.2)

def runRelative (start target : Text) : Except CommandError Text :=
  match FileName.ofUri start with
  | .error e => .error (.name e)
  | .ok a =>
    match FileName.ofUri target with
    | .error e => .error (.name e)
    | .ok b =>
      if a.rootUri = b.rootUri then .ok (a.relative b)
      else .error (.usage (.differentFileSystems a.uri b.uri))

def runInfo (uri : Text) : Except CommandError Text :=
  match FileName.ofUri uri with
  | .error e => .error (.name e)
  | .ok n => .ok (describe n)

def run (s : Session) : Command → Except CommandError Text × Session
  | resolve base name scope => runResolve s base name scope
  | relative start target => (runRelative start target, s)
  | info uri => (runInfo uri, s)
  | help => (.ok usage.toList, s)
  | unknown line => (.error (.usage (.unrecognized line)), s)

end Command

def runTool (arguments : List Text) (file : Option Text) (environment : List (Text × Text)) :
    Except CommandError Text :=
  match Settings.load file environment with
  | .error e => .error (.config e)
  | .ok settings =>
    match settings.session.step .init with
    | (.refused e, _) => .error (.config e)
    | (_, s) => ((Command.ofArguments arguments).run s).1

end FileNaming
