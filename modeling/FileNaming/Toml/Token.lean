import FileNaming.Toml.Quoted

/-! The tokens of the settings format. Words are letters, digits, `-` and `_`;
keys and the plain values are written with them. A comment runs to the end of
its line, and a carriage return counts only as part of a line end. -/

namespace FileNaming.Toml

inductive Token
  | blank (t : Text)
  | newline
  | comment
  | equals
  | period
  | comma
  | colon
  | plus
  | leftBrace
  | rightBrace
  | leftBracket
  | rightBracket
  | word (t : Text)
  | quoted (t : Text) (multiline : Bool)
deriving DecidableEq, Repr

def isWordChar (c : Char) : Bool :=
  c.isAlphanum || c = '-' || c = '_'

def isCommentChar (c : Char) : Bool :=
  c = '\t' || ' ' ≤ c

def marks : List (Char × Token) :=
  [('\n', .newline), ('=', .equals), ('.', .period), (',', .comma), (':', .colon),
   ('+', .plus), ('{', .leftBrace), ('}', .rightBrace), ('[', .leftBracket),
   (']', .rightBracket)]

namespace Token

def first? (c : Char) (t : Text) : Option (Token × Text) :=
  match marks.lookup c with
  | some k => some (k, t)
  | none =>
    if isSpace c then some (blank (c :: t.takeWhile isSpace), t.dropWhile isSpace)
    else if c = '#' then some (comment, t.dropWhile isCommentChar)
    else if c = '"' ∨ c = '\'' then (quoted? c t).map fun p => (quoted p.1 p.2.1, p.2.2)
    else if isWordChar c then some (word (c :: t.takeWhile isWordChar), t.dropWhile isWordChar)
    else none

theorem length_first? {c : Char} {t r : Text} {k : Token} (h : first? c t = some (k, r)) :
    r.length ≤ t.length := by
  have hd : ∀ q : Char → Bool, (t.dropWhile q).length ≤ t.length := fun q =>
    (List.dropWhile_sublist q).length_le
  unfold first? at h
  split at h
  · cases h
    exact Nat.le_refl _
  · split at h
    · cases h
      exact hd _
    · split at h
      · cases h
        exact hd _
      · split at h
        · obtain ⟨⟨u, m, v⟩, huv, he⟩ := Option.map_eq_some_iff.1 h
          cases he
          exact length_quoted? huv
        · split at h
          · cases h
            exact hd _
          · cases h

def scan : Text → Option (List Token)
  | [] => some []
  | c :: t =>
    match _h : first? c t with
    | none => none
    | some (k, r) => (scan r).map (k :: ·)
termination_by t => t.length
decreasing_by
  have := length_first? _h
  rw [List.length_cons]
  omega

theorem scan_nil : scan [] = some [] := by
  rw [scan]

theorem scan_cons {c : Char} {t r : Text} {k : Token} {ks : List Token}
    (h : first? c t = some (k, r)) (hr : scan r = some ks) : scan (c :: t) = some (k :: ks) := by
  rw [scan]
  split
  · rename_i hn
    rw [h] at hn
    cases hn
  · rename_i hk
    rw [h] at hk
    cases hk
    rw [hr]
    rfl

def foldLineEnds : Text → Text
  | '\r' :: '\n' :: t => '\n' :: foldLineEnds t
  | c :: t => c :: foldLineEnds t
  | [] => []

def dropMark : Text → Text
  | '\uFEFF' :: t => t
  | t => t

def ofText? (t : Text) : Option (List Token) :=
  scan (foldLineEnds (dropMark t))

end Token
end FileNaming.Toml
