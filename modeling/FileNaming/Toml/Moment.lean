import FileNaming.Text.Numeral

/-! Moments: a date, a time of day, or a date and a time, these with an optional
offset from UTC. A moment is read from its digits and written in one
form, with `T` between date and time and without final zeros in the fraction. -/

namespace FileNaming.Toml

structure Date where
  year : Nat
  month : Nat
  day : Nat
deriving DecidableEq, Repr

/-- The nanosecond is kept; further digits of a second are not. -/
structure Time where
  hour : Nat
  minute : Nat
  second : Nat
  nanosecond : Nat
deriving DecidableEq, Repr

inductive Offset
  | utc
  | hours (negative : Bool) (hour minute : Nat)
deriving DecidableEq, Repr

inductive Moment
  | date (d : Date)
  | time (t : Time)
  | dateTime (d : Date) (t : Time) (offset : Option Offset)
deriving DecidableEq, Repr

namespace Moment

def number? (digits : Nat) (t : Text) : Option (Nat × Text) :=
  let d := t.take digits
  if d.length = digits ∧ d.all Char.isDigit then some (Nat.ofDigitChars 10 d 0, t.drop digits)
  else none

def mark? (c : Char) : Text → Option Text
  | x :: t => if x = c then some t else none
  | [] => none

def date? (t : Text) : Option (Date × Text) := do
  let (year, t) ← number? 4 t
  let t ← mark? '-' t
  let (month, t) ← number? 2 t
  let t ← mark? '-' t
  let (day, t) ← number? 2 t
  if 1 ≤ month ∧ month ≤ 12 ∧ 1 ≤ day ∧ day ≤ 31 then return (⟨year, month, day⟩, t) else none

def fraction? : Text → Option (Nat × Text)
  | '.' :: t =>
    match t.takeWhile Char.isDigit with
    | [] => none
    | ds =>
      some (Nat.ofDigitChars 10 ((ds ++ List.replicate 9 '0').take 9) 0, t.dropWhile Char.isDigit)
  | t => some (0, t)

def time? (t : Text) : Option (Time × Text) := do
  let (hour, t) ← number? 2 t
  let t ← mark? ':' t
  let (minute, t) ← number? 2 t
  let t ← mark? ':' t
  let (second, t) ← number? 2 t
  let (nanosecond, t) ← fraction? t
  if hour ≤ 24 ∧ minute ≤ 59 ∧ second ≤ 59 then return (⟨hour, minute, second, nanosecond⟩, t)
  else none

def offset? : Text → Option (Option Offset)
  | [] => some none
  | ['Z'] => some (some .utc)
  | ['z'] => some (some .utc)
  | c :: t => do
    if c ≠ '+' ∧ c ≠ '-' then none
    let (hour, t) ← number? 2 t
    let t ← mark? ':' t
    let (minute, t) ← number? 2 t
    if t = [] then return some (.hours (c = '-') hour minute) else none

def isTimeMark (c : Char) : Bool :=
  c = 'T' || c = 't' || c = ' '

def ofText? (t : Text) : Option Moment := do
  if t[2]? = some ':' then
    let (clock, rest) ← time? t
    if rest = [] then return .time clock else none
  else
    let (day, rest) ← date? t
    match rest with
    | [] => return .date day
    | c :: rest =>
      if isTimeMark c then
        let (clock, rest) ← time? rest
        return .dateTime day clock (← offset? rest)
      else none

def padded (width n : Nat) : Text :=
  let t := Text.numeral n
  List.replicate (width - t.length) '0' ++ t

def dateText (d : Date) : Text :=
  padded 4 d.year ++ '-' :: padded 2 d.month ++ '-' :: padded 2 d.day

def fractionText (nanosecond : Nat) : Text :=
  if nanosecond = 0 then []
  else '.' :: ((padded 9 nanosecond).reverse.dropWhile (· = '0')).reverse

def timeText (t : Time) : Text :=
  padded 2 t.hour ++ ':' :: padded 2 t.minute ++ ':' :: padded 2 t.second
    ++ fractionText t.nanosecond

def offsetText : Offset → Text
  | .utc => ['Z']
  | .hours negative hour minute =>
    (if negative ∧ hour ≠ 0 then '-' else '+') :: padded 2 hour ++ ':' :: padded 2 minute

def text : Moment → Text
  | .date d => dateText d
  | .time t => timeText t
  | .dateTime d t offset =>
    dateText d ++ 'T' :: timeText t ++ (offset.map offsetText).getD []

end Moment
end FileNaming.Toml
