import FileNaming.Path.Normal

/-! The way from one path to another: `..` for every segment of the base that
the target does not share, then what is left of the target. -/

namespace FileNaming.Path

/-- The steps from one place to another, both given from the root. -/
def route : List Text → List Text → List Text
  | [], target => target
  | base, [] => base.map fun _ => up
  | b :: base, s :: target =>
    if b = s then route base target
    else (b :: base).map (fun _ => up) ++ s :: target

def relative (base target : Text) : Text :=
  if base = ['/'] then
    match target with
    | '/' :: c :: rest => c :: rest
    | _ => here
  else
    match route (segments base) (segments target) with
    | [] => here
    | steps => Text.join '/' steps

end FileNaming.Path
