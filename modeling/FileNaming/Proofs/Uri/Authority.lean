import FileNaming.Proofs.Text.Case
import FileNaming.Proofs.Text.Numeral
import FileNaming.Uri.Authority

/-! Where an authority is cut: at the last `@`, at the first `:` before it and at the
last `:` behind it. Each cut is given for a text that is put together around the
mark, and what the parts of any authority hold follows from the cuts. -/

namespace FileNaming.Authority

theorem credentialsOf_of_notMem {info : Text} (h : ':' ∉ info) :
    credentialsOf info = ⟨info, none⟩ := by
  rw [credentialsOf, Text.cutFirst_eq_none_iff.2 h]

theorem credentialsOf_append {user : Text} (h : ':' ∉ user) (password : Text) :
    credentialsOf (user ++ ':' :: password) = ⟨user, some password⟩ := by
  rw [credentialsOf, Text.cutFirst_append h]

theorem splitUser_of_notMem {hostPort : Text} (h : '@' ∉ hostPort) :
    splitUser hostPort = (none, hostPort) := by
  rw [splitUser, Text.cutLast_eq_none_iff.2 h]

theorem splitUser_append {hostPort : Text} (h : '@' ∉ hostPort) (info : Text) :
    splitUser (info ++ '@' :: hostPort) = (some (credentialsOf info), hostPort) := by
  rw [splitUser, Text.cutLast_append h]

theorem splitPort_of_notMem {host : Text} (h : ':' ∉ host) : splitPort host = .ok (host, none) := by
  rw [splitPort, Text.cutLast_eq_none_iff.2 h]

theorem notMem_numeral {c : Char} (hc : c.isDigit = false) (n : Nat) : c ∉ Text.numeral n := by
  intro hm
  have hd := Nat.isDigit_of_mem_toDigits (by decide) (by decide) hm
  rw [hc] at hd
  cases hd

theorem splitPort_of_spells {s : Text} {port : Port} (hs : Text.Spells s port.val) (host : Text) :
    splitPort (host ++ ':' :: s) = .ok (host, some port) := by
  have hcolon : ':' ∉ s := hs.notMem (by decide) (by decide)
  rw [splitPort, Text.cutLast_append hcolon]
  dsimp only
  rw [Text.valueBelow?_eq_some_iff.2 hs]

theorem splitPort_of_not_spells {s : Text} (hcolon : ':' ∉ s)
    (hport : ∀ port : Port, ¬ Text.Spells s port.val) (host : Text) :
    splitPort (host ++ ':' :: s) = .error (.invalidUri (.badPort (host ++ ':' :: s))) := by
  rw [splitPort, Text.cutLast_append hcolon]
  dsimp only
  rw [Text.valueBelow?_eq_none_iff.2 hport]

theorem colon_notMem_credentialsOf (info : Text) : ':' ∉ (credentialsOf info).user := by
  unfold credentialsOf
  split
  · rename_i h
    exact Text.cutFirst_eq_none_iff.1 h
  · rename_i user password h
    exact (Text.cutFirst_eq_some_iff.1 h).2

theorem credentialsOf_subset (info : Text) : (credentialsOf info).user ⊆ info := by
  unfold credentialsOf
  split
  · exact List.Subset.refl info
  · rename_i user password h
    rw [(Text.cutFirst_eq_some_iff.1 h).1]
    exact List.subset_append_left user _

theorem splitUser_cases (a : Text) :
    '@' ∉ a ∧ splitUser a = (none, a) ∨
      ∃ info hostPort, a = info ++ '@' :: hostPort ∧ '@' ∉ hostPort ∧
        splitUser a = (some (credentialsOf info), hostPort) := by
  cases h : Text.cutLast '@' a with
  | none =>
    have ha := Text.cutLast_eq_none_iff.1 h
    exact .inl ⟨ha, splitUser_of_notMem ha⟩
  | some q =>
    obtain ⟨rfl, hb⟩ := Text.cutLast_eq_some_iff.1 h
    exact .inr ⟨q.1, q.2, rfl, hb, splitUser_append hb q.1⟩

theorem at_notMem_splitUser (a : Text) : '@' ∉ (splitUser a).2 := by
  obtain ⟨ha, hs⟩ | ⟨info, hostPort, -, hb, hs⟩ := splitUser_cases a
  · rwa [hs]
  · rwa [hs]

theorem splitUser_subset (a : Text) : (splitUser a).2 ⊆ a := by
  obtain ⟨-, hs⟩ | ⟨info, hostPort, rfl, -, hs⟩ := splitUser_cases a
  · rw [hs]
    exact List.Subset.refl a
  · rw [hs]
    exact fun c hc => by simp [show c ∈ hostPort from hc]

theorem user_of_splitUser {a : Text} {c : Credentials} (h : (splitUser a).1 = some c) :
    ':' ∉ c.user ∧ c.user ⊆ a := by
  obtain ⟨-, hs⟩ | ⟨info, hostPort, rfl, -, hs⟩ := splitUser_cases a
  · rw [hs] at h
    cases h
  · rw [hs] at h
    cases h
    refine ⟨colon_notMem_credentialsOf info, fun x hx => ?_⟩
    exact List.mem_append_left _ (credentialsOf_subset info hx)

theorem splitPort_cases (hp : Text) :
    ':' ∉ hp ∧ splitPort hp = .ok (hp, none) ∨
      (∃ host s port, hp = host ++ ':' :: s ∧ Text.Spells s port.val ∧
        splitPort hp = .ok (host, some port)) ∨
      ∃ host s, hp = host ++ ':' :: s ∧ ':' ∉ s ∧ (∀ port : Port, ¬ Text.Spells s port.val) ∧
        splitPort hp = .error (.invalidUri (.badPort hp)) := by
  cases hcut : Text.cutLast ':' hp with
  | none =>
    have hcolon := Text.cutLast_eq_none_iff.1 hcut
    exact .inl ⟨hcolon, splitPort_of_notMem hcolon⟩
  | some q =>
    obtain ⟨host, s⟩ := q
    obtain ⟨rfl, hcolon⟩ := Text.cutLast_eq_some_iff.1 hcut
    cases hv : Text.valueBelow? 65536 s with
    | some port =>
      have hs := Text.valueBelow?_eq_some_iff.1 hv
      exact .inr (.inl ⟨host, s, port, rfl, hs, splitPort_of_spells hs host⟩)
    | none =>
      have hport := Text.valueBelow?_eq_none_iff.1 hv
      exact .inr (.inr ⟨host, s, rfl, hcolon, hport, splitPort_of_not_spells hcolon hport host⟩)

theorem splitPort_eq_ok_iff {hp host : Text} {port : Option Port} :
    splitPort hp = .ok (host, port) ↔
      hp = host ∧ ':' ∉ host ∧ port = none ∨
        ∃ s p, hp = host ++ ':' :: s ∧ Text.Spells s p.val ∧ port = some p := by
  constructor
  · intro h
    obtain ⟨hcolon, hs⟩ | ⟨host', s, p, hhp, hp', hs⟩ | ⟨host', s, -, -, -, hs⟩ :=
      splitPort_cases hp
    · rw [hs] at h
      cases h
      exact .inl ⟨rfl, hcolon, rfl⟩
    · rw [hs] at h
      cases h
      exact .inr ⟨s, p, hhp, hp', rfl⟩
    · rw [hs] at h
      cases h
  · rintro (⟨rfl, hcolon, rfl⟩ | ⟨s, p, rfl, hs, rfl⟩)
    · exact splitPort_of_notMem hcolon
    · exact splitPort_of_spells hs host

theorem host_of_splitPort {hostPort host : Text} {port : Option Port}
    (h : splitPort hostPort = .ok (host, port)) :
    host ⊆ hostPort ∧ (':' ∈ hostPort → host.length < hostPort.length) := by
  rcases splitPort_eq_ok_iff.1 h with ⟨rfl, hcolon, -⟩ | ⟨s, p, rfl, -, -⟩
  · exact ⟨List.Subset.refl _, fun hm => absurd hm hcolon⟩
  · refine ⟨List.subset_append_left host _, fun _ => ?_⟩
    rw [List.length_append, List.length_cons]
    omega

theorem ofText_eq_ok_iff {t : Text} {a : Authority} :
    ofText t = .ok a ↔
      ∃ host port, splitPort (splitUser t).2 = .ok (host, port) ∧ host ≠ [] ∧
        a = ⟨(splitUser t).1, host.map Char.toLower, port⟩ := by
  unfold ofText
  cases splitPort (splitUser t).2 with
  | error e => simp
  | ok q =>
    obtain ⟨host, port⟩ := q
    by_cases hh : host = []
    · simp [hh]
    · simp only [hh, if_false, Except.ok.injEq, Prod.mk.injEq]
      constructor
      · rintro rfl
        exact ⟨host, port, ⟨rfl, rfl⟩, hh, rfl⟩
      · rintro ⟨_, _, ⟨rfl, rfl⟩, -, ha⟩
        exact ha.symm

theorem cut_eq_some {rest a path : Text} (h : cut rest = some (a, path)) :
    '/' ∉ a ∧ path.head? = some '/' := by
  unfold cut at h
  split at h
  · rename_i r
    split at h
    · rename_i a' path' hc
      cases h
      exact ⟨(Text.cutFirst_eq_some_iff.1 hc).2, rfl⟩
    · rename_i hc
      cases h
      exact ⟨Text.cutFirst_eq_none_iff.1 hc, rfl⟩
  · cases h

theorem cut_append {a : Text} (h : '/' ∉ a) (path : Text) :
    cut ('/' :: '/' :: (a ++ '/' :: path)) = some (a, '/' :: path) := by
  simp only [cut, Text.cutFirst_append h]

end FileNaming.Authority
