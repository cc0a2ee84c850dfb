import FileNaming.Settings.KeyPath
import FileNaming.Settings.Value

/-! Laying a value over settings at a path. A table is merged into what is there
key by key; any other value takes its place. What stands in the way of a path is
replaced by a table or a list, and a list grows to hold an index. -/

namespace FileNaming.Value

mutual

/-- A value laid over an old one, if there is one. A table without entries
leaves what is there alone. -/
def merge : Value → Option Value → Value
  | .table es, old => mergeEntries es (old.getD (.table []))
  | .missing, _ => .missing
  | .text t, _ => .text t
  | .integer n, _ => .integer n
  | .real x, _ => .real x
  | .truth b, _ => .truth b
  | .list xs, _ => .list xs

def mergeEntries : List (Text × Value) → Value → Value
  | [], old => old
  | (k, v) :: rest, old =>
    mergeEntries rest (.table (Entries.alter k (merge v) old.entries))

end

def position (i : Int) (length : Nat) : Nat :=
  if 0 ≤ i then i.toNat else length - i.natAbs

def grow (xs : List Value) (n : Nat) : List Value :=
  xs ++ List.replicate (n - xs.length) .missing

def setItem (xs : List Value) (i : Int) (f : Value → Value) : List Value :=
  let n := position i xs.length
  (grow xs (n + 1)).modify n f

def setAt : KeyPath → Value → Option Value → Value
  | [], v, old => v.merge old
  | .field k :: path, v, old =>
    .table (Entries.alter k (setAt path v) ((old.getD .missing).entries))
  | [.index i], v, old => .list (setItem (old.getD .missing).items i fun _ => v)
  | .index i :: path, v, old =>
    .list (setItem (old.getD .missing).items i fun x => setAt path v (some x))

def overlay (settings : Value) (layer : List (Text × Value)) : Value :=
  layer.foldl (fun s e => setAt (KeyPath.ofKey e.1) e.2 (some s)) settings

end FileNaming.Value
