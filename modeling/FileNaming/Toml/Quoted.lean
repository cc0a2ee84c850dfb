import FileNaming.Text.Cut

/-! Quoted texts of the settings format. A basic text stands in `"` and knows
escapes, a literal text stands in `'` and knows none. Three quotes open a text
over several lines; it may end in one or two quotes of its own before the three
that close it. -/

namespace FileNaming.Toml

def isAllowed (c : Char) : Bool :=
  c = '\t' || (' ' ≤ c && c ≠ '\x7f')

def isHexDigit (c : Char) : Bool :=
  c.isDigit || ('a' ≤ c && c ≤ 'f') || ('A' ≤ c && c ≤ 'F')

def hexDigitValue (c : Char) : Nat :=
  if c.isDigit then c.toNat - 48 else c.toLower.toNat - 87

def hexValue (t : Text) : Nat :=
  t.foldl (fun n c => 16 * n + hexDigitValue c) 0

def codePoint? (digits : Nat) (t : Text) : Option (Text × Text) :=
  let d := t.take digits
  if d.length = digits ∧ d.all isHexDigit ∧ (hexValue d).isValidChar then
    some ([Char.ofNat (hexValue d)], t.drop digits)
  else none

def isSpace (c : Char) : Bool :=
  c = ' ' || c = '\t'

def joinLines? (t : Text) : Option (Text × Text) :=
  match t.dropWhile isSpace with
  | '\n' :: r => some ([], r.dropWhile fun c => isSpace c || c = '\n')
  | _ => none

def escapes : List (Char × Char) :=
  [('"', '"'), ('\\', '\\'), ('b', '\x08'), ('f', '\x0c'), ('n', '\n'), ('r', '\r'), ('t', '\t')]

def escaped? (multiline : Bool) : Text → Option (Text × Text)
  | [] => none
  | c :: t =>
    match escapes.lookup c with
    | some e => some ([e], t)
    | none =>
      if c = 'u' then codePoint? 4 t
      else if c = 'U' then codePoint? 8 t
      else if multiline then joinLines? (c :: t)
      else none

theorem length_codePoint? {n : Nat} {t p r : Text} (h : codePoint? n t = some (p, r)) :
    r.length ≤ t.length := by
  simp only [codePoint?] at h
  split at h
  · cases h
    rw [List.length_drop]
    omega
  · cases h

theorem length_joinLines? {t p r : Text} (h : joinLines? t = some (p, r)) :
    r.length < t.length := by
  have h₁ : (t.dropWhile isSpace).length ≤ t.length := (List.dropWhile_sublist _).length_le
  unfold joinLines? at h
  split at h
  · rename_i u hu
    cases h
    rw [hu, List.length_cons] at h₁
    have h₂ : (u.dropWhile fun c => isSpace c || c = '\n').length ≤ u.length :=
      (List.dropWhile_sublist _).length_le
    omega
  · cases h

theorem length_escaped? {multiline : Bool} {t p r : Text}
    (h : escaped? multiline t = some (p, r)) : r.length < t.length := by
  cases t with
  | nil => cases h
  | cons c t =>
    rw [List.length_cons]
    simp only [escaped?] at h
    split at h
    · cases h
      exact Nat.lt_succ_self _
    · split at h
      · exact Nat.lt_succ_of_le (length_codePoint? h)
      · split at h
        · exact Nat.lt_succ_of_le (length_codePoint? h)
        · split at h
          · exact length_joinLines? h
          · cases h

def quotes (quote : Char) (t : Text) : Nat :=
  (t.takeWhile (· = quote)).length

def body? (quote : Char) (multiline : Bool) : Text → Option (Text × Text)
  | [] => none
  | c :: t =>
    if c = quote then
      if multiline then
        if quotes quote t < 2 then
          (body? quote multiline (t.drop (quotes quote t))).map fun p =>
            (List.replicate (quotes quote t + 1) quote ++ p.1, p.2)
        else
          some (List.replicate (min (quotes quote t - 2) 2) quote,
            t.drop (2 + min (quotes quote t - 2) 2))
      else some ([], t)
    else if c = '\n' then
      if multiline then (body? quote multiline t).map fun p => (c :: p.1, p.2) else none
    else if c = '\\' ∧ quote = '"' then
      match _he : escaped? multiline t with
      | none => none
      | some (e, r) => (body? quote multiline r).map fun p => (e ++ p.1, p.2)
    else if isAllowed c then (body? quote multiline t).map fun p => (c :: p.1, p.2)
    else none
termination_by t => t.length
decreasing_by
  · rw [List.length_drop, List.length_cons]
    omega
  · exact Nat.lt_succ_self _
  · have := length_escaped? _he
    rw [List.length_cons]
    omega
  · exact Nat.lt_succ_self _

def dropNewline : Text → Text
  | '\n' :: t => t
  | t => t

def quoted? (quote : Char) (t : Text) : Option (Text × Bool × Text) :=
  match t.takeWhile (· = quote) with
  | [] => (body? quote false t).map fun p => (p.1, false, p.2)
  | [_] => some ([], false, t.drop 1)
  | _ :: _ :: _ => (body? quote true (dropNewline (t.drop 2))).map fun p => (p.1, true, p.2)

theorem length_body? {quote : Char} {multiline : Bool} {t p r : Text}
    (h : body? quote multiline t = some (p, r)) : r.length < t.length := by
  fun_induction body? quote multiline t generalizing p r with
  | case1 => cases h
  | case2 t hm hn ih =>
    obtain ⟨⟨u, v⟩, huv, he⟩ := Option.map_eq_some_iff.1 h
    cases he
    have := ih huv
    rw [List.length_drop] at this
    simp only [List.length_cons]
    omega
  | case3 t hm hn =>
    cases h
    rw [List.length_drop, List.length_cons]
    omega
  | case4 t hm =>
    cases h
    exact Nat.lt_succ_self _
  | case5 t hm hne ih =>
    obtain ⟨⟨u, v⟩, huv, he⟩ := Option.map_eq_some_iff.1 h
    cases he
    have := ih huv
    simp only [List.length_cons]
    omega
  | case6 => cases h
  | case7 => simp_all
  | case8 c t hq hc hb e u he ih =>
    obtain ⟨⟨u', v⟩, huv, he'⟩ := Option.map_eq_some_iff.1 h
    cases he'
    have h₁ := ih huv
    have h₂ := length_escaped? he
    simp only [List.length_cons]
    omega
  | case9 c t hq hc hb ha ih =>
    obtain ⟨⟨u, v⟩, huv, he⟩ := Option.map_eq_some_iff.1 h
    cases he
    have := ih huv
    simp only [List.length_cons]
    omega
  | case10 => cases h

theorem length_quoted? {quote : Char} {t p r : Text} {m : Bool}
    (h : quoted? quote t = some (p, m, r)) : r.length ≤ t.length := by
  unfold quoted? at h
  split at h
  · obtain ⟨⟨u, v⟩, huv, he⟩ := Option.map_eq_some_iff.1 h
    cases he
    exact Nat.le_of_lt (length_body? huv)
  · cases h
    rw [List.length_drop]
    omega
  · obtain ⟨⟨u, v⟩, huv, he⟩ := Option.map_eq_some_iff.1 h
    cases he
    have h₁ : v.length < _ := length_body? huv
    have h₂ : (dropNewline (t.drop 2)).length ≤ (t.drop 2).length := by
      unfold dropNewline
      split
      · rename_i hs
        rw [hs]
        exact Nat.le_succ _
      · exact Nat.le_refl _
    rw [List.length_drop] at h₂
    change v.length ≤ t.length
    omega

end FileNaming.Toml
