import FileNaming.Proofs.Settings.Lawful
import FileNaming.Settings.KeyPath

/-! A key is read as the path that it joins, be it a single plain name or names of letters,
digits and `_`. -/

namespace FileNaming

namespace Layer

theorem Name.isNameChar {name : Text} (h : Name name) :
    ∀ c ∈ name, KeyPath.isNameChar c = true := by
  intro c hc
  simp only [KeyPath.isNameChar, Bool.or_eq_true, decide_eq_true_eq]
  exact (h.2 c hc).imp (fun ha => .inl (.inl ha)) id

theorem Name.plainKey {name : Text} (h : Name name) : PlainKey name := by
  refine ⟨fun hc => ?_, fun hc => ?_⟩
  · exact absurd (h.2 _ hc) (by decide)
  · exact absurd (h.2 _ hc) (by decide)

end Layer

namespace KeyPath

theorem step?_cons_of_ne {c : Char} {t : Text} (hd : c ≠ '.') (hb : c ≠ '[') :
    step? (c :: t) = none := by
  unfold step?
  split
  · rename_i h
    cases h
    exact absurd rfl hd
  · rename_i h
    cases h
    exact absurd rfl hb
  · rfl

theorem ofKey_of_plain {key : Text} (h : Layer.PlainKey key) : ofKey key = [.field key] := by
  have hkey : key.takeWhile isNameChar ++ key.dropWhile isNameChar = key :=
    List.takeWhile_append_dropWhile
  unfold ofKey parsed? name?
  cases ht : key.takeWhile isNameChar with
  | nil => rfl
  | cons c t =>
    cases hr : key.dropWhile isNameChar with
    | nil =>
      rw [ht, hr, List.append_nil] at hkey
      subst hkey
      rfl
    | cons d rest =>
      have hmem : d ∈ key := by
        rw [← hkey, hr]
        simp
      have hstep : step? (d :: rest) = none :=
        step?_cons_of_ne (fun hd => h.1 (hd ▸ hmem)) (fun hb => h.2 (hb ▸ hmem))
      simp [steps?, hstep]

def dotted (names : List Text) : Text :=
  names.flatMap fun n => '.' :: n

theorem join_cons_eq (n : Text) (names : List Text) :
    Text.join '.' (n :: names) = n ++ dotted names := by
  induction names generalizing n with
  | nil => exact (List.append_nil n).symm
  | cons m names ih =>
    rw [Text.join, ih]
    rfl

theorem length_le_length_dotted (names : List Text) : names.length ≤ (dotted names).length := by
  induction names with
  | nil => exact Nat.le_refl 0
  | cons n names ih =>
    have hcons : dotted (n :: names) = '.' :: (n ++ dotted names) := rfl
    rw [hcons, List.length_cons, List.length_cons, List.length_append]
    omega

theorem name?_append_dotted {n : Text} (h : Layer.Name n) (names : List Text) :
    name? (n ++ dotted names) = some (.field n, dotted names) := by
  have htake : (dotted names).takeWhile isNameChar = [] := by
    cases names <;> rfl
  have hdrop : (dotted names).dropWhile isNameChar = dotted names := by
    cases names <;> rfl
  unfold name?
  rw [List.takeWhile_append_of_pos h.isNameChar, List.dropWhile_append_of_pos h.isNameChar,
    htake, hdrop, List.append_nil]
  cases n with
  | nil => exact absurd rfl h.1
  | cons c n => rfl

theorem steps?_dotted {names : List Text} (h : ∀ n ∈ names, Layer.Name n) {fuel : Nat}
    (hf : names.length ≤ fuel) : steps? fuel (dotted names) = some (names.map .field) := by
  induction names generalizing fuel with
  | nil => cases fuel <;> rfl
  | cons n names ih =>
    obtain ⟨hn, h⟩ := List.forall_mem_cons.1 h
    cases fuel with
    | zero => cases hf
    | succ fuel =>
      have hstep : step? (dotted (n :: names)) = some (.field n, dotted names) :=
        name?_append_dotted hn names
      have hcons : dotted (n :: names) = '.' :: (n ++ dotted names) := rfl
      rw [hcons] at hstep ⊢
      simp only [steps?, hstep, Option.bind_eq_bind, Option.bind_some]
      rw [ih h (Nat.le_of_succ_le_succ hf)]
      rfl

theorem ofKey_join {path : List Text} (h : Layer.Path path) :
    ofKey (Text.join '.' path) = path.map .field := by
  obtain ⟨key, rfl, hkey⟩ | ⟨hne, hnames⟩ := h
  · exact ofKey_of_plain hkey
  · cases path with
    | nil => exact absurd rfl hne
    | cons n names =>
      obtain ⟨hn, hnames⟩ := List.forall_mem_cons.1 hnames
      rw [join_cons_eq, ofKey, parsed?]
      simp only [name?_append_dotted hn, Option.bind_eq_bind, Option.bind_some]
      rw [steps?_dotted hnames (length_le_length_dotted names)]
      rfl

end KeyPath
end FileNaming
