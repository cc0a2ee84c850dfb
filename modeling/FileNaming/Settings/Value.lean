import FileNaming.Number.Binary64
import FileNaming.Text.Cut

/-! The values that settings are made of. A table lists its keys in the order in
which they came. -/

namespace FileNaming

namespace Entries

def alter {α : Type} (key : Text) (f : Option α → α) : List (Text × α) → List (Text × α)
  | [] => [(key, f none)]
  | (k, x) :: rest => if k = key then (k, f (some x)) :: rest else (k, x) :: alter key f rest

theorem lookup_alter {α : Type} (key k : Text) (f : Option α → α) (es : List (Text × α)) :
    (alter key f es).lookup k = if k = key then some (f (es.lookup key)) else es.lookup k := by
  induction es with
  | nil =>
    by_cases h : k = key
    · simp [alter, h]
    · have hb : (k == key) = false := by simpa using h
      simp [alter, List.lookup_cons, h, hb]
  | cons e es ih =>
    obtain ⟨k', x⟩ := e
    by_cases h' : k' = key
    · subst h'
      by_cases h : k = k'
      · simp [alter, h]
      · have hb : (k == k') = false := by simpa using h
        simp [alter, List.lookup_cons, h, hb]
    · have hb' : (key == k') = false := by simpa using Ne.symm h'
      by_cases h : k = key
      · subst h
        simpa [alter, h', List.lookup_cons, hb'] using ih
      · simp [alter, h', List.lookup_cons, h, ih]

end Entries

inductive Value
  | missing
  | text (t : Text)
  | integer (n : Int)
  | real (x : Binary64)
  | truth (b : Bool)
  | list (items : List Value)
  | table (entries : List (Text × Value))
deriving Repr

namespace Value

def entries : Value → List (Text × Value)
  | table es => es
  | _ => []

def items : Value → List Value
  | list xs => xs
  | _ => []

end Value
end FileNaming
