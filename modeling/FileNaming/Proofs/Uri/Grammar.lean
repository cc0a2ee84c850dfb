import FileNaming.Proofs.Uri.Authority
import Mathlib.Data.List.DropRight

/-! The grammar of authorities, `[user[:password]@]host[:port]`. Reading accepts the texts of
the grammar and no others, and gives the parts that a text spells. Where it fails, the text
behind the last `@` alone says why. -/

namespace FileNaming

def Credentials.text (c : Credentials) : Text :=
  match c.password with
  | none => c.user ++ ['@']
  | some password => c.user ++ ':' :: (password ++ ['@'])

namespace Authority

def hostPort (t : Text) : Text :=
  t.rtakeWhile (· ≠ '@')

def userPart : Option Credentials → Text
  | none => []
  | some c => c.text

def portPart : Option Port → Text
  | none => []
  | some port => ':' :: Text.numeral port.val

def text (a : Authority) : Text :=
  userPart a.credentials ++ (a.host ++ portPart a.port)

def UserFits (c : Option Credentials) : Prop :=
  ∀ x ∈ c, ':' ∉ x.user

/-- What can be written and read back, up to the case of the host. Without a port behind it, a
colon in the host would start one. -/
structure Writable (a : Authority) : Prop where
  user : UserFits a.credentials
  host : a.host ≠ []
  at_notMem : '@' ∉ a.host
  colon_notMem : a.port = none → ':' ∉ a.host

inductive Spells : Text → Authority → Prop
  | host {c : Option Credentials} {host : Text} (hc : UserFits c) (hne : host ≠ [])
    (hat : '@' ∉ host) (hcolon : ':' ∉ host) :
    Spells (userPart c ++ host) ⟨c, host.map Char.toLower, none⟩
  | hostPort {c : Option Credentials} {host s : Text} {port : Port} (hc : UserFits c)
    (hne : host ≠ []) (hat : '@' ∉ host) (hs : Text.Spells s port.val) :
    Spells (userPart c ++ (host ++ ':' :: s)) ⟨c, host.map Char.toLower, some port⟩

/-- What is wrong with a host and its port. A port that is no numeral is found first. -/
inductive Faulty (hp : Text) : NameError → Prop
  | badPort {host s : Text} (h : hp = host ++ ':' :: s) (hs : ':' ∉ s)
    (hport : ∀ port : Port, ¬ Text.Spells s port.val) : Faulty hp (.invalidUri (.badPort hp))
  | noText (h : hp = []) : Faulty hp (.invalidUri .missingHost)
  | noHost {s : Text} {port : Port} (h : hp = ':' :: s) (hs : Text.Spells s port.val) :
    Faulty hp (.invalidUri .missingHost)

/-! The cuts. -/

theorem text_credentialsOf (info : Text) : (credentialsOf info).text = info ++ ['@'] := by
  unfold credentialsOf
  split
  · rfl
  · rename_i user password h
    obtain ⟨hinfo, -⟩ := Text.cutFirst_eq_some_iff.1 h
    rw [hinfo, List.append_assoc, List.cons_append]
    rfl

theorem splitUser_eq_iff {t hp : Text} {c : Option Credentials} :
    splitUser t = (c, hp) ↔ t = userPart c ++ hp ∧ '@' ∉ hp ∧ UserFits c := by
  constructor
  · intro h
    obtain ⟨ht, hs⟩ | ⟨info, hp', ht, hat, hs⟩ := splitUser_cases t
    · rw [hs, Prod.mk.injEq] at h
      obtain ⟨rfl, rfl⟩ := h
      exact ⟨rfl, ht, fun x hx => by cases hx⟩
    · rw [hs, Prod.mk.injEq] at h
      obtain ⟨rfl, rfl⟩ := h
      refine ⟨?_, hat, fun x hx => ?_⟩
      · rw [userPart, text_credentialsOf, ht, List.append_assoc, List.singleton_append]
      · cases hx
        exact colon_notMem_credentialsOf info
  · rintro ⟨rfl, hat, hc⟩
    match c with
    | none => exact splitUser_of_notMem hat
    | some ⟨user, none⟩ =>
      have hu : ':' ∉ user := hc _ rfl
      have h := splitUser_append hat user
      rw [credentialsOf_of_notMem hu] at h
      rwa [userPart, Credentials.text, List.append_assoc, List.singleton_append]
    | some ⟨user, some password⟩ =>
      have hu : ':' ∉ user := hc _ rfl
      have h := splitUser_append hat (user ++ ':' :: password)
      rw [credentialsOf_append hu password] at h
      simpa [userPart, Credentials.text] using h

theorem hostPort_append {hp : Text} (hat : '@' ∉ hp) (c : Option Credentials) :
    hostPort (userPart c ++ hp) = hp := by
  have hall : ∀ x ∈ hp.reverse, decide (x ≠ '@') = true := by
    intro x hx
    rw [decide_eq_true_iff]
    exact fun h => hat (h ▸ List.mem_reverse.1 hx)
  have hstop : (userPart c).reverse.takeWhile (· ≠ '@') = [] := by
    match c with
    | none => rfl
    | some ⟨user, none⟩ => simp [userPart, Credentials.text]
    | some ⟨user, some password⟩ => simp [userPart, Credentials.text]
  rw [hostPort, List.rtakeWhile, List.reverse_append, List.takeWhile_append_of_pos hall, hstop,
    List.append_nil, List.reverse_reverse]

theorem exists_splitUser (t : Text) :
    ∃ c, splitUser t = (c, hostPort t) ∧ t = userPart c ++ hostPort t ∧ '@' ∉ hostPort t ∧
      UserFits c := by
  rcases hs : splitUser t with ⟨c, hp⟩
  obtain ⟨ht, hat, hc⟩ := splitUser_eq_iff.1 hs
  have hhp : hostPort t = hp := by rw [ht, hostPort_append hat]
  rw [hhp]
  exact ⟨c, rfl, ht, hat, hc⟩

/-! Reading. -/

theorem at_notMem_of_spells {host s : Text} {n : Nat} (hat : '@' ∉ host) (hs : Text.Spells s n) :
    '@' ∉ host ++ ':' :: s := by
  have hs' : '@' ∉ s := hs.notMem (by decide) (by decide)
  rw [List.mem_append, List.mem_cons, not_or, not_or]
  exact ⟨hat, by decide, hs'⟩

theorem ofText_eq_ok_iff_spells {t : Text} {a : Authority} : ofText t = .ok a ↔ Spells t a := by
  rw [ofText_eq_ok_iff]
  constructor
  · obtain ⟨c, hs, ht, hat, hc⟩ := exists_splitUser t
    rw [hs]
    rintro ⟨host, port, hsplit, hne, rfl⟩
    dsimp only at hsplit ⊢
    rw [ht]
    rcases splitPort_eq_ok_iff.1 hsplit with ⟨hhp, hcolon, rfl⟩ | ⟨s, p, hhp, hport, rfl⟩
    · rw [hhp] at hat ⊢
      exact .host hc hne hat hcolon
    · rw [hhp] at hat ⊢
      have hhost : '@' ∉ host := fun hm => hat (List.mem_append_left _ hm)
      exact .hostPort hc hne hhost hport
  · rintro (⟨hc, hne, hat, hcolon⟩ | ⟨hc, hne, hat, hport⟩)
    · rename_i c host
      have hs : splitUser (userPart c ++ host) = (c, host) := splitUser_eq_iff.2 ⟨rfl, hat, hc⟩
      rw [hs]
      exact ⟨host, none, splitPort_of_notMem hcolon, hne, rfl⟩
    · rename_i c host s port
      have hs : splitUser (userPart c ++ (host ++ ':' :: s)) = (c, host ++ ':' :: s) :=
        splitUser_eq_iff.2 ⟨rfl, at_notMem_of_spells hat hport, hc⟩
      rw [hs]
      exact ⟨host, some port, splitPort_of_spells hport host, hne, rfl⟩

theorem exists_ofText_iff {t : Text} :
    (∃ a, ofText t = .ok a) ↔
      hostPort t ≠ [] ∧ ':' ∉ hostPort t ∨
        ∃ host s n, hostPort t = host ++ ':' :: s ∧ host ≠ [] ∧ Text.Spells s n ∧ n ≤ 65535 := by
  simp only [ofText_eq_ok_iff_spells]
  constructor
  · rintro ⟨a, ⟨-, hne, hat, hcolon⟩ | ⟨-, hne, hat, hs⟩⟩
    · rw [hostPort_append hat]
      exact .inl ⟨hne, hcolon⟩
    · rename_i host s port
      rw [hostPort_append (at_notMem_of_spells hat hs)]
      exact .inr ⟨host, s, port.val, rfl, hne, hs, Nat.le_of_lt_succ port.isLt⟩
  · obtain ⟨c, -, ht, hat, hc⟩ := exists_splitUser t
    rintro (⟨hne, hcolon⟩ | ⟨host, s, n, hhp, hne, hs, hn⟩)
    · rw [ht]
      exact ⟨_, .host hc hne hat hcolon⟩
    · rw [hhp] at ht hat
      have hhost : '@' ∉ host := fun hm => hat (List.mem_append_left _ hm)
      have hport : Text.Spells s (⟨n, Nat.lt_succ_of_le hn⟩ : Port).val := hs
      rw [ht]
      exact ⟨_, .hostPort hc hne hhost hport⟩

theorem ofText_eq_error_iff {t : Text} {e : NameError} :
    ofText t = .error e ↔ Faulty (hostPort t) e := by
  obtain ⟨c, hs, -⟩ := exists_splitUser t
  unfold ofText
  rw [hs]
  dsimp only
  constructor
  · intro h
    obtain ⟨hcolon, hok⟩ | ⟨host, s, port, hhp, hport, hok⟩ | ⟨host, s, hhp, hcolon, hport, herr⟩ :=
      splitPort_cases (hostPort t)
    · rw [hok] at h
      dsimp only at h
      split at h
      · rename_i hnil
        cases h
        exact .noText hnil
      · cases h
    · rw [hok] at h
      dsimp only at h
      split at h
      · rename_i hnil
        cases h
        rw [hnil] at hhp
        exact .noHost hhp hport
      · cases h
    · rw [herr] at h
      cases h
      exact .badPort hhp hcolon hport
  · rintro (⟨hhp, hcolon, hport⟩ | hnil | ⟨hhp, hport⟩)
    · rw [hhp, splitPort_of_not_spells hcolon hport]
    · rw [hnil, splitPort_of_notMem List.not_mem_nil]
      rfl
    · have hok := splitPort_of_spells hport []
      rw [List.nil_append] at hok
      rw [hhp, hok]
      rfl

/-! Writing. -/

theorem spells_text {a : Authority} (h : a.Writable) :
    Spells a.text { a with host := a.host.map Char.toLower } := by
  obtain ⟨c, host, port⟩ := a
  obtain ⟨hc, hne, hat, hcolon⟩ := h
  rw [text]
  cases port with
  | none =>
    rw [portPart, List.append_nil]
    exact .host hc hne hat (hcolon rfl)
  | some port => exact .hostPort hc hne hat (Text.spells_numeral port.val)

theorem Spells.writable {t : Text} {a : Authority} (h : Spells t a) : a.Writable := by
  rcases h with ⟨hc, hne, hat, hcolon⟩ | ⟨hc, hne, hat, -⟩
  · refine ⟨hc, mt List.map_eq_nil_iff.1 hne, Text.notMem_map_toLower (by decide) hat, fun _ => ?_⟩
    exact Text.notMem_map_toLower (by decide) hcolon
  · exact ⟨hc, mt List.map_eq_nil_iff.1 hne, Text.notMem_map_toLower (by decide) hat, nofun⟩

theorem Spells.host_lower {t : Text} {a : Authority} (h : Spells t a) :
    a.host.map Char.toLower = a.host := by
  rcases h with ⟨-, -, -, -⟩ | ⟨-, -, -, -⟩
  all_goals
    rw [List.map_map]
    exact List.map_congr_left fun x _ => Text.toLower_toLower x

theorem Spells.text {t : Text} {a : Authority} (h : Spells t a) : Spells a.text a := by
  have htext := spells_text h.writable
  rwa [h.host_lower] at htext

/-- Reading accepts the texts of the grammar and no others and keeps all they hold but the case
of the host and the spelling of the port. A failure depends on what stands behind the last `@`
alone. -/
theorem ofText_reads_grammar :
    (∀ t, (∃ a, ofText t = .ok a) ↔
      hostPort t ≠ [] ∧ ':' ∉ hostPort t ∨
        ∃ host s n, hostPort t = host ++ ':' :: s ∧ host ≠ [] ∧ Text.Spells s n ∧ n ≤ 65535) ∧
    (∀ t a, ofText t = .ok a ↔ Spells t a) ∧
    (∀ t a, ofText t = .ok a → Spells a.text a) ∧
    (∀ a : Authority, a.Writable →
      ofText a.text = .ok { a with host := a.host.map Char.toLower }) ∧
    ∀ t e, ofText t = .error e ↔ Faulty (hostPort t) e := by
  refine ⟨fun t => exists_ofText_iff, fun t a => ofText_eq_ok_iff_spells, fun t a h => ?_,
    fun a h => ?_, fun t e => ofText_eq_error_iff⟩
  · exact (ofText_eq_ok_iff_spells.1 h).text
  · exact ofText_eq_ok_iff_spells.2 (spells_text h)

theorem ofText_reads_grammar_marks :
    Text.Spells "+0021".toList 21 ∧
      ofText "a@b:p:w@[::A]:+0021".toList =
        .ok ⟨some ⟨"a@b".toList, some "p:w".toList⟩, "[::a]".toList, some 21⟩ ∧
      Writable ⟨some ⟨"a@b".toList, some "p:w".toList⟩, "[::a]".toList, some 21⟩ ∧
      ofText "a@b:p:w@[::a]:21".toList =
        .ok ⟨some ⟨"a@b".toList, some "p:w".toList⟩, "[::a]".toList, some 21⟩ ∧
      (∃ a, ofText ":@h:65535".toList = .ok a) ∧
      ofText "u:w@:x".toList = .error (.invalidUri (.badPort ":x".toList)) := by
  obtain ⟨accepted, spelled, -, written, failed⟩ := ofText_reads_grammar
  let a : Authority := ⟨some ⟨"a@b".toList, some "p:w".toList⟩, "[::a]".toList, some 21⟩
  have hdigits : ∀ c ∈ "0021".toList, c.isDigit = true := List.all_eq_true.1 rfl
  have hport : Text.Spells "+0021".toList 21 := ⟨_, .inr rfl, List.cons_ne_nil _ _, hdigits, rfl⟩
  have hfits : UserFits a.credentials := by
    rintro c ⟨⟩
    decide
  have hspelled : Spells "a@b:p:w@[::A]:+0021".toList a :=
    @Spells.hostPort a.credentials "[::A]".toList "+0021".toList 21 hfits (by decide) (by decide)
      hport
  have ha : a.Writable := ⟨hfits, by decide, by decide, nofun⟩
  have hnumeral : Text.Spells "65535".toList 65535 := Text.spells_numeral 65535
  have hlast : ∃ a, ofText ":@h:65535".toList = .ok a :=
    (accepted _).2 (.inr ⟨"h".toList, _, _, rfl, by decide, hnumeral, le_rfl⟩)
  have hx : ∀ port : Port, ¬ Text.Spells "x".toList port.val := fun port h =>
    h.notMem (by decide) (by decide) List.mem_cons_self
  have hbad : Faulty ":x".toList (.invalidUri (.badPort ":x".toList)) :=
    @Faulty.badPort _ [] "x".toList rfl (by decide) hx
  exact ⟨hport, (spelled _ a).2 hspelled, ha, written a ha, hlast, (failed _ _).2 hbad⟩

end Authority
end FileNaming
