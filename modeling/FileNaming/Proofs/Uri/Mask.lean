import FileNaming.Proofs.Text.Pieces
import FileNaming.Proofs.Uri.Grammar
import FileNaming.Uri.Mask

/-! What the mask changes in a text. It goes over the pieces between separators and can only
replace a password in a piece that stands behind two of them. Where such a piece is an
authority, its password is replaced whatever stands before it, so the outcome does not
depend on the password. -/

namespace FileNaming.Uri

/-- What stands between the first colon of a piece and its last `@` is replaced. -/
def Veiled (piece veiled : Text) : Prop :=
  ∃ user password host, piece = user ++ ':' :: (password ++ '@' :: host) ∧ ':' ∉ user ∧
    '@' ∉ host ∧ veiled = user ++ ':' :: placeholder ++ '@' :: host

/-! One piece. -/

theorem piece_cases (piece : Text) :
    '@' ∉ piece ∨
      (∃ user host, piece = user ++ '@' :: host ∧ ':' ∉ user ∧ '@' ∉ host) ∨
      ∃ user password host, piece = user ++ ':' :: (password ++ '@' :: host) ∧ ':' ∉ user ∧
        '@' ∉ host := by
  obtain ⟨c, -, hpiece, hat, hc⟩ := Authority.exists_splitUser piece
  rcases c with _ | ⟨user, _ | password⟩
  · exact .inl (hpiece ▸ hat)
  · have htext : piece = user ++ '@' :: Authority.hostPort piece := by
      simpa [Authority.userPart, Credentials.text] using hpiece
    exact .inr (.inl ⟨user, _, htext, hc _ rfl, hat⟩)
  · have htext : piece = user ++ ':' :: (password ++ '@' :: Authority.hostPort piece) := by
      simpa [Authority.userPart, Credentials.text] using hpiece
    exact .inr (.inr ⟨user, password, _, htext, hc _ rfl, hat⟩)

theorem veil_of_notMem {piece : Text} (h : '@' ∉ piece) : veil piece = piece := by
  rw [veil, Text.cutLast_eq_none_iff.2 h]

section Authority
variable {user host : Text} (hu : ':' ∉ user)
include hu

theorem veil_user (hh : '@' ∉ host) : veil (user ++ '@' :: host) = user ++ '@' :: host := by
  rw [veil, Text.cutLast_append hh]
  dsimp only
  rw [Text.cutFirst_eq_none_iff.2 hu]

theorem veil_password (password : Text) (hh : '@' ∉ host) :
    veil (user ++ ':' :: (password ++ '@' :: host)) =
      user ++ ':' :: placeholder ++ '@' :: host := by
  have hcut : Text.cutLast '@' (user ++ ':' :: (password ++ '@' :: host)) =
      some (user ++ ':' :: password, host) := by
    have h := Text.cutLast_append (a := user ++ ':' :: password) hh
    rwa [List.append_assoc, List.cons_append] at h
  rw [veil, hcut]
  dsimp only
  rw [Text.cutFirst_append hu]

theorem veil_password_eq (w w' t : Text) :
    veil (user ++ ':' :: (w ++ '@' :: t)) = veil (user ++ ':' :: (w' ++ '@' :: t)) := by
  obtain ⟨a, b, h⟩ := Text.exists_cutLast_cons '@' t
  obtain ⟨ht, hb⟩ := Text.cutLast_eq_some_iff.1 h
  have hveil (w : Text) :
      veil (user ++ ':' :: (w ++ '@' :: t)) = user ++ ':' :: placeholder ++ '@' :: b := by
    rw [ht, ← List.append_assoc w]
    exact veil_password hu (w ++ a) hb
  rw [hveil w, hveil w']

end Authority

theorem veil_cases (piece : Text) : veil piece = piece ∨ Veiled piece (veil piece) := by
  rcases piece_cases piece with h | ⟨user, host, rfl, hu, hh⟩ | ⟨user, password, host, rfl, hu, hh⟩
  · exact .inl (veil_of_notMem h)
  · exact .inl (veil_user hu hh)
  · exact .inr ⟨user, password, host, rfl, hu, hh, veil_password hu password hh⟩

theorem veil_veil (piece : Text) : veil (veil piece) = veil piece := by
  rcases veil_cases piece with h | ⟨user, password, host, -, hu, hh, h⟩
  · rw [h, h]
  · have hagain := veil_password hu placeholder hh
    rw [h, List.append_assoc]
    exact hagain.trans (List.append_assoc _ _ _)

theorem slash_notMem_veil {piece : Text} (h : '/' ∉ piece) : '/' ∉ veil piece := by
  rcases veil_cases piece with hv | ⟨user, password, host, rfl, -, -, hv⟩
  · rwa [hv]
  · rw [hv]
    simp_all [placeholder]

theorem veil_concat {c : Char} (hat : c ≠ '@') (piece : Text) :
    veil (piece ++ [c]) = veil piece ++ [c] := by
  rcases piece_cases piece with h | ⟨user, host, rfl, hu, hh⟩ | ⟨user, password, host, rfl, hu, hh⟩
  · rw [veil_of_notMem h, veil_of_notMem (by simp [h, Ne.symm hat])]
  · have hc : '@' ∉ host ++ [c] := by simp [hh, Ne.symm hat]
    rw [veil_user hu hh, List.append_assoc, List.cons_append, veil_user hu hc]
  · have hc : '@' ∉ host ++ [c] := by simp [hh, Ne.symm hat]
    have hv := veil_password hu password hc
    rw [veil_password hu password hh]
    simpa using hv

/-! The pieces of a text. -/

theorem veilPieces_cons_of_ne_nil {piece : Text} (h : piece ≠ []) (rest : List Text) :
    veilPieces (piece :: rest) = piece :: veilPieces rest := by
  cases piece with
  | nil => exact absurd rfl h
  | cons c piece => cases rest <;> rfl

theorem veilPieces_of_ne_nil {ps : List Text} (h : ∀ p ∈ ps, p ≠ []) : veilPieces ps = ps := by
  induction ps with
  | nil => rfl
  | cons p ps ih =>
    rw [veilPieces_cons_of_ne_nil (h p (by simp)), ih fun q hq => h q (List.mem_cons_of_mem p hq)]

theorem veilPieces_singleton (piece : Text) : veilPieces [piece] = [piece] := by
  cases piece <;> rfl

/-- An empty piece is read together with the piece behind it, and any other piece alone. So
the pieces can be parted behind a piece that is not empty. -/
theorem veilPieces_append {ps : List Text} (h : ps.getLast? ≠ some []) (qs : List Text) :
    veilPieces (ps ++ qs) = veilPieces ps ++ veilPieces qs := by
  fun_induction veilPieces ps with
  | case1 => rfl
  | case2 piece rest ih =>
    have hrest : rest.getLast? ≠ some [] := by
      intro hr
      exact h (by simp [List.getLast?_cons, hr])
    simp only [List.cons_append, veilPieces, ih hrest]
  | case3 piece rest hne ih =>
    have hpiece : piece ≠ [] := by
      rintro rfl
      cases rest with
      | nil => exact h rfl
      | cons q rest => exact hne q rest rfl rfl
    have hrest : rest.getLast? ≠ some [] := by
      intro hr
      exact h (by simp [List.getLast?_cons, hr])
    rw [List.cons_append, veilPieces_cons_of_ne_nil hpiece, ih hrest, List.cons_append]

theorem veilPieces_veilPieces (ps : List Text) : veilPieces (veilPieces ps) = veilPieces ps := by
  fun_induction veilPieces ps with
  | case1 => rfl
  | case2 piece rest ih => simp only [veilPieces, veil_veil, ih]
  | case3 piece rest hne ih =>
    by_cases hpiece : piece = []
    · cases rest with
      | nil => exact veilPieces_singleton piece
      | cons q rest => exact absurd rfl (hne q rest hpiece)
    · rw [veilPieces_cons_of_ne_nil hpiece, ih]

theorem slash_notMem_of_mem_veilPieces {ps : List Text} (h : ∀ p ∈ ps, '/' ∉ p) :
    ∀ p ∈ veilPieces ps, '/' ∉ p := by
  fun_induction veilPieces ps with
  | case1 => simp
  | case2 piece rest ih =>
    simp only [List.forall_mem_cons] at h ⊢
    exact ⟨h.1, slash_notMem_veil h.2.1, ih h.2.2⟩
  | case3 piece rest hne ih =>
    simp only [List.forall_mem_cons] at h ⊢
    exact ⟨h.1, ih h.2⟩

theorem length_veilPieces (ps : List Text) : (veilPieces ps).length = ps.length := by
  fun_induction veilPieces ps with
  | case1 => rfl
  | case2 piece rest ih => simp [ih]
  | case3 piece rest hne ih => simp [ih]

theorem veilPieces_getElem? {ps : List Text} {i : Nat} {p q : Text} (hp : ps[i]? = some p)
    (hq : (veilPieces ps)[i]? = some q) :
    q = p ∨ (∃ j, i = j + 1 ∧ ps[j]? = some []) ∧ Veiled p q := by
  fun_induction veilPieces ps generalizing i with
  | case1 => cases hp
  | case2 piece rest ih =>
    match i with
    | 0 =>
      cases hp
      cases hq
      exact .inl rfl
    | 1 =>
      cases hp
      cases hq
      rcases veil_cases p with hv | hv
      · exact .inl hv
      · exact .inr ⟨⟨0, rfl, rfl⟩, hv⟩
    | i + 2 =>
      rcases ih hp hq with h | ⟨⟨j, rfl, hj⟩, hv⟩
      · exact .inl h
      · exact .inr ⟨⟨j + 2, rfl, hj⟩, hv⟩
  | case3 piece rest hne ih =>
    cases i with
    | zero =>
      cases hp
      cases hq
      exact .inl rfl
    | succ i =>
      rcases ih hp hq with h | ⟨⟨j, rfl, hj⟩, hv⟩
      · exact .inl h
      · exact .inr ⟨⟨j + 1, rfl, hj⟩, hv⟩

theorem veilPieces_concat {c : Char} (hat : c ≠ '@') (ps : List Text) (p : Text) :
    ∃ qs q, veilPieces (ps ++ [p]) = qs ++ [q] ∧
      veilPieces (ps ++ [p ++ [c]]) = qs ++ [q ++ [c]] := by
  fun_induction veilPieces ps with
  | case1 => exact ⟨[], p, veilPieces_singleton p, veilPieces_singleton (p ++ [c])⟩
  | case2 piece rest ih =>
    obtain ⟨qs, q, hp, hc⟩ := ih
    refine ⟨[] :: veil piece :: qs, q, ?_, ?_⟩
    · simp only [List.cons_append, veilPieces, hp]
    · simp only [List.cons_append, veilPieces, hc]
  | case3 piece rest hne ih =>
    by_cases hpiece : piece = []
    · cases rest with
      | nil =>
        rw [hpiece]
        exact ⟨[[]], veil p, rfl, congrArg (fun v => [[], v]) (veil_concat hat p)⟩
      | cons q rest => exact absurd rfl (hne q rest hpiece)
    · obtain ⟨qs, q, hp, hc⟩ := ih
      refine ⟨piece :: qs, q, ?_, ?_⟩
      · rw [List.cons_append, veilPieces_cons_of_ne_nil hpiece, hp, List.cons_append]
      · rw [List.cons_append, veilPieces_cons_of_ne_nil hpiece, hc, List.cons_append]

/-! The text. -/

section Split
variable {t first : Text} {rest : List Text} (h : Text.split '/' t = first :: rest)
include h

theorem mask_of_split : mask t = Text.join '/' (first :: veilPieces rest) := by
  rw [mask, h]

theorem split_mask : Text.split '/' (mask t) = first :: veilPieces rest := by
  have hpieces : ∀ p ∈ first :: rest, '/' ∉ p := by
    intro p hp
    rw [← h] at hp
    exact Text.notMem_of_mem_split hp
  rw [List.forall_mem_cons] at hpieces
  have hveiled : ∀ p ∈ first :: veilPieces rest, '/' ∉ p :=
    List.forall_mem_cons.2 ⟨hpieces.1, slash_notMem_of_mem_veilPieces hpieces.2⟩
  rw [mask_of_split h, Text.split_join (by simp) hveiled]

theorem mask_slash_slash :
    mask ('/' :: '/' :: t) = '/' :: '/' :: Text.join '/' (veil first :: veilPieces rest) := by
  have hsplit : Text.split '/' ('/' :: '/' :: t) = [] :: [] :: first :: rest := by
    rw [Text.split_cons_self, Text.split_cons_self, h]
  rw [mask_of_split hsplit]
  rfl

end Split

theorem exists_split (t : Text) : ∃ first rest, Text.split '/' t = first :: rest :=
  List.exists_cons_of_ne_nil (Text.split_ne_nil '/' t)

theorem mask_mask (t : Text) : mask (mask t) = mask t := by
  obtain ⟨first, rest, h⟩ := exists_split t
  have hm := split_mask h
  rw [mask_of_split hm, veilPieces_veilPieces, ← mask_of_split h]

theorem mask_append_left {u : Text} (hu : '/' ∉ u) (t : Text) : mask (u ++ t) = u ++ mask t := by
  obtain ⟨first, rest, h⟩ := exists_split t
  have happ : Text.split '/' (u ++ t) = (u ++ first) :: rest := Text.split_append_of_notMem hu h
  rw [mask_of_split happ, mask_of_split h]
  cases veilPieces rest with
  | nil => rfl
  | cons p ps => exact List.append_assoc _ _ _

theorem veilPieces_split_ne_nil (t : Text) : veilPieces (Text.split '/' t) ≠ [] := by
  intro hnil
  have hlength := length_veilPieces (Text.split '/' t)
  rw [hnil] at hlength
  exact Text.split_ne_nil '/' t (List.length_eq_zero_iff.1 hlength.symm)

theorem mask_slash_cons (t : Text) :
    mask ('/' :: t) = '/' :: Text.join '/' (veilPieces (Text.split '/' t)) := by
  rw [mask_of_split (Text.split_cons_self '/' t), Text.join_cons [] (veilPieces_split_ne_nil t)]
  rfl

theorem mask_append_slash {before : Text} (hb : before.getLast? ≠ some '/') (t : Text) :
    mask (before ++ '/' :: t) = mask before ++ mask ('/' :: t) := by
  obtain ⟨first, rest, h⟩ := exists_split before
  have hlast : rest.getLast? ≠ some [] := fun hl => hb (Text.getLast?_of_split h hl)
  have happ : Text.split '/' (before ++ '/' :: t) = first :: (rest ++ Text.split '/' t) := by
    rw [Text.split_append_cons, h, List.cons_append]
  rw [mask_of_split happ, mask_of_split h, mask_slash_cons, veilPieces_append hlast,
    ← List.cons_append]
  exact Text.join_append (by simp) (veilPieces_split_ne_nil t)

theorem mask_concat {c : Char} (hslash : c ≠ '/') (hat : c ≠ '@') (t : Text) :
    mask (t ++ [c]) = mask t ++ [c] := by
  obtain ⟨init, last, h⟩ : ∃ init last, Text.split '/' t = init ++ [last] := by
    rcases List.eq_nil_or_concat (Text.split '/' t) with hnil | ⟨init, last, h⟩
    · exact absurd hnil (Text.split_ne_nil '/' t)
    · exact ⟨init, last, h.trans List.concat_eq_append⟩
  have hc := Text.split_concat h hslash
  cases init with
  | nil =>
    rw [mask_of_split hc, mask_of_split h]
    rfl
  | cons first ps =>
    obtain ⟨qs, q, hq, hqc⟩ := veilPieces_concat hat ps last
    have hend (v : Text) :
        Text.join '/' (first :: (qs ++ [v])) = Text.join '/' (first :: qs) ++ '/' :: v :=
      @Text.join_append '/' (first :: qs) [v] (List.cons_ne_nil _ _) (List.cons_ne_nil _ _)
    rw [List.cons_append] at h hc
    rw [mask_of_split hc, mask_of_split h, hq, hqc, hend, hend, List.append_assoc]
    rfl

theorem mask_authority {a : Text} (ha : '/' ∉ a) {t : Text} (ht : t = [] ∨ t.head? = some '/') :
    mask ('/' :: '/' :: (a ++ t)) = '/' :: '/' :: (veil a ++ mask t) := by
  rcases ht with rfl | ht
  · have hsplit : Text.split '/' (a ++ []) = [a] := by
      rw [List.append_nil, Text.split_of_notMem ha]
    rw [mask_slash_slash hsplit]
    exact congrArg (fun v => '/' :: '/' :: v) (List.append_nil _).symm
  · obtain ⟨r, rfl⟩ := List.head?_eq_some_iff.1 ht
    have hsplit : Text.split '/' (a ++ '/' :: r) = a :: Text.split '/' r := Text.split_append ha r
    rw [mask_slash_slash hsplit, mask_slash_cons, Text.join_cons _ (veilPieces_split_ne_nil r)]

theorem mask_password_eq {before user w w' : Text} (hb : before.getLast? ≠ some '/')
    (hcolon : ':' ∉ user) (hslash : '/' ∉ user) (hw : '/' ∉ w) (hw' : '/' ∉ w') (t : Text) :
    mask (before ++ '/' :: '/' :: (user ++ ':' :: (w ++ '@' :: t))) =
      mask (before ++ '/' :: '/' :: (user ++ ':' :: (w' ++ '@' :: t))) := by
  obtain ⟨p, ps, h⟩ := exists_split t
  have hmask (w : Text) (hw : '/' ∉ w) :
      mask ('/' :: '/' :: (user ++ ':' :: (w ++ '@' :: t))) =
        '/' :: '/' :: Text.join '/' (veil (user ++ ':' :: (w ++ '@' :: p)) :: veilPieces ps) := by
    have hlogin : '/' ∉ user ++ ':' :: (w ++ ['@']) := by simp [hslash, hw]
    have hsplit := Text.split_append_of_notMem hlogin h
    simp only [List.append_assoc, List.cons_append, List.nil_append] at hsplit
    exact mask_slash_slash hsplit
  rw [mask_append_slash hb, mask_append_slash hb, hmask w hw, hmask w' hw',
    veil_password_eq hcolon w w' p]

/-- The mask keeps the pieces of a text, but what stands between the first colon and the last
`@` of a piece behind two separators may be replaced, and masking again changes nothing. A
password behind a user is replaced wherever two separators, and no more, are put before it:
the outcome is the same for every password. -/
theorem mask_hides_passwords :
    (∀ t : Text,
      (Text.split '/' (mask t)).length = (Text.split '/' t).length ∧
      (∀ (i : Nat) (p q : Text), (Text.split '/' t)[i]? = some p →
        (Text.split '/' (mask t))[i]? = some q →
        q = p ∨ (∃ j, i = j + 2 ∧ (Text.split '/' t)[j + 1]? = some []) ∧ Veiled p q) ∧
      mask (mask t) = mask t) ∧
    ∀ before user w w' t : Text, before.getLast? ≠ some '/' → ':' ∉ user → '/' ∉ user →
      '/' ∉ w → '/' ∉ w' →
      mask (before ++ '/' :: '/' :: (user ++ ':' :: (w ++ '@' :: t))) =
        mask (before ++ '/' :: '/' :: (user ++ ':' :: (w' ++ '@' :: t))) := by
  constructor
  · intro t
    obtain ⟨first, rest, h⟩ := exists_split t
    have hm := split_mask h
    refine ⟨?_, ?_, mask_mask t⟩
    · rw [hm, h, List.length_cons, List.length_cons, length_veilPieces]
    · intro i p q hp hq
      rw [h] at hp
      rw [hm] at hq
      cases i with
      | zero =>
        cases hp
        cases hq
        exact .inl rfl
      | succ i =>
        rw [List.getElem?_cons_succ] at hp hq
        rcases veilPieces_getElem? hp hq with heq | ⟨⟨j, rfl, hj⟩, hv⟩
        · exact .inl heq
        · rw [h]
          exact .inr ⟨⟨j, rfl, hj⟩, hv⟩
  · intro before user w w' t hb hcolon hslash hw hw'
    exact mask_password_eq hb hcolon hslash hw hw' t

theorem mask_hides_passwords_adjacent :
    "a//b".toList.getLast? ≠ some '/' ∧ ':' ∉ "u@v".toList ∧ '/' ∉ "u@v".toList ∧
      '/' ∉ "x:@y".toList ∧
      mask "a//b//u@v:x:@y@h@k//::@".toList = mask "a//b//u@v:@h@k//::@".toList ∧
      mask "a//b//u@v:@h@k//::@".toList = "a//b//u@v:***@k//:***@".toList ∧
      mask "a//b//u@v:***@k//:***@".toList = "a//b//u@v:***@k//:***@".toList ∧
      Veiled "::@".toList ":***@".toList ∧
      mask "///u:w@h".toList = "///u:w@h".toList := by
  obtain ⟨texts, passwords⟩ := mask_hides_passwords
  obtain ⟨-, pieces, again⟩ := texts "a//b//u@v:@h@k//::@".toList
  have hb : "a//b".toList.getLast? ≠ some '/' := by decide
  have hcolon : ':' ∉ "u@v".toList := by decide
  have hslash : '/' ∉ "u@v".toList := by decide
  have hw : '/' ∉ "x:@y".toList := by decide
  have hsame := passwords _ _ _ [] "h@k//::@".toList hb hcolon hslash hw (by decide)
  have hmask : mask "a//b//u@v:@h@k//::@".toList = "a//b//u@v:***@k//:***@".toList := rfl
  rw [hmask] at again
  refine ⟨hb, hcolon, hslash, hw, hsame, hmask, again, ?_, rfl⟩
  rcases pieces 6 "::@".toList ":***@".toList rfl rfl with heq | ⟨-, hv⟩
  · exact absurd heq (by decide)
  · exact hv

end FileNaming.Uri
