import FileNaming.Number.Shortest
import FileNaming.Settings.Basic

/-! Values are converted to what a setting asks for. A text can be had from a
number or a truth value, and a count from a text or a truth value; a table or a
list is neither. -/

namespace FileNaming.Value

def asText? : Value → Option Text
  | .text t => some t
  | .integer n => some (Binary64.sign (n < 0) ++ Text.numeral n.natAbs)
  | .real x => some x.text
  | .truth b => some (if b then "true".toList else "false".toList)
  | _ => none

def countLimit : Nat := Nat.pow 2 64

def switches : List (Text × Nat) :=
  [("true".toList, 1), ("on".toList, 1), ("yes".toList, 1),
   ("false".toList, 0), ("off".toList, 0), ("no".toList, 0)]

def countOfText? (t : Text) : Option Nat :=
  match switches.lookup (t.map Char.toLower) with
  | some n => some n
  | none => (Text.valueBelow? countLimit t).map Fin.val

def asCount? : Value → Option Nat
  | .text t => countOfText? t
  | .integer n => if 0 ≤ n then some n.toNat else none
  | .real x => some (x.toNatBelow (countLimit - 1))
  | .truth b => some (if b then 1 else 0)
  | _ => none

def asVariant? : Value → Option Text
  | .text t => some t
  | .table [(k, _)] => some k
  | _ => none

def asScope (v : Value) : Except LoadFault Scope :=
  match v.asText? with
  | none => .error .scopeNotText
  | some t =>
    match Scope.ofText t with
    | .ok scope => .ok scope
    | .error _ => .error (.badScope t)

def asKind (v : Value) : Except LoadFault CacheKind :=
  (v.asVariant?.bind CacheKind.ofText?).elim (.error .badKind) .ok

def asMaxEntries : Value → Except LoadFault (Option Nat)
  | .missing => .ok none
  | v => v.asCount?.elim (.error .badMaxEntries) fun n => .ok (some n)

def cacheOf (kind maxEntries : Option Value) : Except LoadFault (CacheKind × Option Nat) :=
  match kind with
  | none => .error .missingKind
  | some k =>
    match k.asKind with
    | .error e => .error e
    | .ok k =>
      match (maxEntries.getD .missing).asMaxEntries with
      | .error e => .error e
      | .ok m => .ok (k, m)

def asCache : Value → Except LoadFault (CacheKind × Option Nat)
  | .table es => cacheOf (es.lookup "kind".toList) (es.lookup "max_entries".toList)
  | .list xs => cacheOf xs[0]? xs[1]?
  | _ => .error .cacheNotTable

end FileNaming.Value
