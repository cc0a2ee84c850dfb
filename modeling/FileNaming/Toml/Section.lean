import FileNaming.Toml.Node

/-! A settings file is a list of sections, each with the path of the table that it
is about and keys for it. A table is put together from its own section and those
that are about tables inside it. A repeated header starts the next table of a
list. A table that stands for a moment takes in no section but its own. -/

namespace FileNaming.Toml

structure Section where
  path : List Text
  repeated : Bool
  body : Tree

namespace Section

def under (k : Text) (ss : List Section) : List Section :=
  ss.filterMap fun s =>
    match s.path with
    | k' :: path => if k' = k then some { s with path } else none
    | [] => none

def keys (ss : List Section) : List Text :=
  (ss.filterMap fun s => s.path.head?).eraseDups

def first? : List Section → Option (Text × Node)
  | ⟨k :: _, _, _⟩ :: _ => some (k, .table false [])
  | ⟨[], _, e :: _⟩ :: _ => some e
  | ⟨[], _, []⟩ :: ⟨k :: _, _, _⟩ :: _ => some (k, .table false [])
  | _ => none

def own? (ss : List Section) : Option Tree :=
  match ss.filter fun s => s.path = [] with
  | [] => some []
  | [s] => if s.repeated then none else some s.body
  | _ => none

def startsTable (s : Section) : Bool :=
  s.repeated && s.path = []

def items? (read? : List Section → Option (Value × List Section)) :
    List Section → List (List Section) → Option (List Value)
  | [], [] => some []
  | _ :: _, [] => none
  | left, run :: runs =>
    match run with
    | [] => none
    | s :: ss => do
      let (v, left) ← read? ({ s with repeated := false } :: left ++ ss)
      let vs ← items? read? left runs
      return v :: vs

def value? (read? : List Section → Option (Value × List Section)) (ss : List Section) :
    Option Value :=
  if ss.head?.any startsTable then
    (items? read? [] (ss.splitBy fun _ s => !s.startsTable)).map .list
  else
    match read? ss with
    | some (v, []) => some v
    | _ => none

/-- A table from its sections, and the sections that it leaves. Every step into a
table takes the first part off the paths. -/
def read? : Nat → List Section → Option (Value × List Section)
  | 0, _ => none
  | fuel + 1, ss =>
    match Node.marked? (first? ss) with
    | some n => n.spelled?.map fun v => (v, ss.tail)
    | none => do
      let body ← own? ss
      let es ← Tree.read? body
      let inner ← (keys ss).mapM fun k => do
        let v ← value? (read? fuel) (under k ss)
        return (k, v)
      let es ← inner.foldrM (fun e es => withEntry? e.1 e.2 es) es
      return (.table es, [])

def depth (ss : List Section) : Nat :=
  ss.foldl (fun n s => max n s.path.length) 0

def entries? (ss : List Section) : Option (List (Text × Value)) :=
  (read? (depth ss + 1) ss).map fun r => r.1.entries

end Section
end FileNaming.Toml
