import FileNaming.Settings.Value

/-! Settings from environment variables. A variable counts if its name starts
with the name of the tool, in any letter case; behind that, two underscores step
into a table. -/

namespace FileNaming.Environment

/-- Lower case for the letters of ASCII and for the Kelvin sign, the only other
character whose lower case is an ASCII letter. -/
def lower (c : Char) : Char :=
  if c = '\u212A' then 'k' else c.toLower

def lead : Text := "vfs_names_".toList

def dotted : Text → Text
  | '_' :: '_' :: t => '.' :: dotted t
  | c :: t => c :: dotted t
  | [] => []

def key? (name : Text) : Option Text :=
  let v := name.map lower
  if lead.isPrefixOf v then some (dotted (v.drop lead.length)) else none

def layer (environment : List (Text × Text)) : List (Text × Value) :=
  environment.filterMap fun v => (key? v.1).map fun k => (k, .text v.2)

end FileNaming.Environment
