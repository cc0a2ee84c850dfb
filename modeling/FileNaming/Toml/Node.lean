import FileNaming.Settings.Value
import FileNaming.Toml.Moment

/-! What a settings file writes, as it is written: a table keeps its keys in their
order, with those that are given twice, and a moment is the word that spells it.
Reading a node refuses what is unsound in it. A table whose first key is the
moment key stands for a moment, and what follows that key is not read. -/

namespace FileNaming.Toml

inductive Node
  | value (v : Value)
  | moment (word : Text)
  | list (items : List Node)
  | table (dotted : Bool) (entries : List (Text × Node))

abbrev Tree := List (Text × Node)

def momentKey : Text := "$__toml_private_datetime".toList

def moment? (word : Text) : Option Value :=
  (Moment.ofText? word).map fun m => .text m.text

namespace Node

def spelled? : Node → Option Value
  | .value (.text t) => moment? t
  | _ => none

def marked? : Option (Text × Node) → Option Node
  | some (k, n) => if k = momentKey then some n else none
  | none => none

end Node

def withEntry? (k : Text) (v : Value) (rest : List (Text × Value)) : Option (List (Text × Value)) :=
  if (rest.lookup k).isSome then none else some ((k, v) :: rest)

mutual

def Node.read? : Node → Option Value
  | .value v => some v
  | .moment word => moment? word
  | .list items => (Node.readItems? items).map .list
  | .table _ entries =>
    match Node.marked? entries.head? with
    | some n => n.spelled?
    | none => (Tree.read? entries).map .table

def Node.readItems? : List Node → Option (List Value)
  | [] => some []
  | n :: ns => do
    let v ← n.read?
    let vs ← Node.readItems? ns
    return v :: vs

def Tree.read? : List (Text × Node) → Option (List (Text × Value))
  | [] => some []
  | (k, n) :: rest => do
    let v ← n.read?
    let es ← Tree.read? rest
    withEntry? k v es

end

def Tree.assign? : List Text → Node → Tree → Option Tree
  | [], _, _ => none
  | [k], n, t => some (t ++ [(k, n)])
  | k :: k' :: ks, n, t =>
    match t.lookup k with
    | none => do
      let sub ← Tree.assign? (k' :: ks) n []
      return t ++ [(k, .table true sub)]
    | some (.table true sub) => do
      let sub ← Tree.assign? (k' :: ks) n sub
      return Entries.alter k (fun _ => .table true sub) t
    | some _ => none

end FileNaming.Toml
