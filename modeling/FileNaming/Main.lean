import FileNaming.Command.Run

/-! The command line. The settings file is looked for in the working directory;
a run that fails says why on the error stream. A run whose environment is not
UTF-8 stops. -/

namespace FileNaming

def settingsFile : String := "vfs-names.toml"

def decode (bytes : ByteArray) : Except CommandError Text :=
  match String.fromUTF8? bytes with
  | some s => .ok s.toList
  | none => .error (.config (.load .malformedFile))

def readSettings : IO (Except CommandError (Option Text)) := do
  let bytes ← try some <$> IO.FS.readBinFile settingsFile catch _ => pure none
  match bytes with
  | none => return .ok none
  | some bytes => return (decode bytes).map some

def readEnvironment : IO (Option (List (Text × Text))) := do
  let listing ← try IO.FS.readBinFile "/proc/self/environ" catch _ => pure ByteArray.empty
  return (String.fromUTF8? listing).map fun s =>
    (Text.split '\x00' s.toList).filterMap (Text.cutFirst '=')

def stop (message : String) (exitCode : UInt32) : IO UInt32 := do
  IO.eprintln ("vfs-names: " ++ message)
  return exitCode

def runMain (arguments : List String) : IO UInt32 := do
  match ← readSettings with
  | .error e => stop e.message e.exitCode.toUInt32
  | .ok file =>
    match ← readEnvironment with
    | none => stop "the environment is not valid UTF-8" 101
    | some environment =>
      match runTool (arguments.map String.toList) file environment with
      | .error e => stop e.message e.exitCode.toUInt32
      | .ok output =>
        IO.println (String.ofList output)
        return 0

end FileNaming

def main (arguments : List String) : IO UInt32 :=
  FileNaming.runMain arguments
