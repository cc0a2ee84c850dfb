import FileNaming.Proofs.Uri.Mask
import FileNaming.Uri.Authority

/-! A URI text with a gap for a password, and where the readers of its parts cut
it. Every cut falls outside of the gap or takes the whole password with it, so
neither the mask nor the host depends on what is filled in. -/

namespace FileNaming

namespace Scheme

theorem slash_notMem {c : Char} {s : Text} (h : (c.isAlpha && s.all isSchemeChar) = true) :
    '/' ∉ c :: s := by
  rw [Bool.and_eq_true, List.all_eq_true] at h
  intro hm
  rcases List.mem_cons.1 hm with rfl | hm
  · exact absurd h.1 (by decide)
  · exact absurd (h.2 '/' hm) (by decide)

theorem cut_append_slash (u t : Text) :
    cut (u ++ '/' :: t) = (cut u).map fun q => (q.1, q.2 ++ '/' :: t) := by
  cases hu : Text.cutFirst ':' u with
  | some q =>
    unfold cut
    rw [Text.cutFirst_append_right hu, hu]
    rcases q with ⟨_ | ⟨c, s⟩, b⟩
    · rfl
    · dsimp only
      split <;> rfl
  | none =>
    unfold cut
    rw [Text.cutFirst_append_of_notMem (Text.cutFirst_eq_none_iff.1 hu), hu, Text.cutFirst,
      if_neg (by decide)]
    -- a colon behind the separator ends a text that is no scheme
    cases Text.cutFirst ':' t with
    | none => rfl
    | some q =>
      have hm : '/' ∈ u ++ '/' :: q.1 := by simp
      cases hs : u ++ '/' :: q.1 with
      | nil => simp at hs
      | cons c s =>
        rw [hs] at hm
        simp only [Option.map_some, hs]
        exact if_neg fun h => slash_notMem h hm

end Scheme

namespace Uri

/-- A URI text with a user whose password is left out: `before//user:` and, behind
the password, `@after`. -/
structure Gap where
  before : Text
  user : Text
  after : Text
  no_slash_before : '/' ∉ before
  no_mark_before : '!' ∉ before
  no_colon_in_user : ':' ∉ user
  no_slash_in_user : '/' ∉ user

/-- Passwords that end neither an authority nor an outer URI. -/
def Password : Type :=
  { w : Text // '/' ∉ w ∧ '!' ∉ w }

namespace Gap

def login (g : Gap) (w : Password) (after : Text) : Text :=
  g.user ++ ':' :: (w.val ++ '@' :: after)

def fill (g : Gap) (w : Password) : Text :=
  g.before ++ '/' :: '/' :: g.login w g.after

def part (g : Gap) (before after : Text) (h : before ⊆ g.before) : Gap where
  before := before
  user := g.user
  after := after
  no_slash_before hm := g.no_slash_before (h hm)
  no_mark_before hm := g.no_mark_before (h hm)
  no_colon_in_user := g.no_colon_in_user
  no_slash_in_user := g.no_slash_in_user

variable (g : Gap) (w : Password)

theorem cutLast_login {after a b : Text} (h : Text.cutLast '@' ('@' :: after) = some (a, b)) :
    Text.cutLast '@' (g.login w after) = some (g.user ++ ':' :: (w.val ++ a), b) := by
  have hl := Text.cutLast_append_left h (g.user ++ ':' :: w.val)
  simpa [login] using hl

theorem login_eq_append (after : Text) : g.login w after = g.login w [] ++ after := by
  simp [login]

theorem slash_notMem_login : '/' ∉ g.login w [] := by
  simp [login, g.no_slash_in_user, w.property.1]

theorem cutFirst_login (after : Text) :
    Text.cutFirst '/' (g.login w after) =
      (Text.cutFirst '/' after).map fun q => (g.login w q.1, q.2) := by
  rw [login_eq_append, Text.cutFirst_append_of_notMem (g.slash_notMem_login w)]
  simp only [← login_eq_append]

theorem fill_injective {w w' : Password} (h : g.fill w = g.fill w') : w = w' := by
  have hw : w.val = w'.val := by simpa [fill, login] using h
  exact Subtype.ext hw

theorem mask_fill (w' : Password) : mask (g.fill w) = mask (g.fill w') := by
  have hb : g.before.getLast? ≠ some '/' := fun h => g.no_slash_before (List.mem_of_getLast? h)
  exact mask_password_eq hb g.no_colon_in_user g.no_slash_in_user w.property.1 w'.property.1 g.after

theorem cut_fill :
    Scheme.cut (g.fill w) =
      (Scheme.cut g.before).map fun q => (q.1, q.2 ++ '/' :: '/' :: g.login w g.after) :=
  Scheme.cut_append_slash g.before ('/' :: g.login w g.after)

theorem exists_cut_fill {s before : Text} (h : Scheme.cut g.before = some (s, before)) :
    ∃ g' : Gap, g'.before.length < g.before.length ∧
      ∀ w, Scheme.cut (g.fill w) = some (s, g'.fill w) := by
  have hb := Scheme.eq_append_of_cut h
  have hsub : before ⊆ g.before := fun c hc => by simp [hb, hc]
  refine ⟨g.part before g.after hsub, ?_, fun w => ?_⟩
  · rw [hb, List.length_append, List.length_cons]
    exact Nat.lt_of_lt_of_le (Nat.lt_succ_self _) (Nat.le_add_left _ _)
  · rw [cut_fill, h]
    rfl

theorem splitUser_login (after : Text) :
    ∃ v, Authority.splitUser (g.login w after) =
      (some ⟨g.user, some v⟩, (Authority.splitUser ('@' :: after)).2) := by
  obtain ⟨a, b, h⟩ := Text.exists_cutLast_cons '@' after
  refine ⟨w.val ++ a, ?_⟩
  unfold Authority.splitUser
  rw [g.cutLast_login w h, h]
  simp [Authority.credentialsOf, Text.cutFirst_append g.no_colon_in_user]

theorem ofText_login (after : Text) :
    ∃ v, Authority.ofText (g.login w after) =
      (Authority.ofText ('@' :: after)).map fun a =>
        { a with credentials := some ⟨g.user, some v⟩ } := by
  obtain ⟨v, hv⟩ := g.splitUser_login w after
  refine ⟨v, ?_⟩
  unfold Authority.ofText
  rw [hv]
  cases Authority.splitPort (Authority.splitUser ('@' :: after)).2 with
  | error e => rfl
  | ok q =>
    dsimp only
    split <;> rfl

theorem cut_fill_of_before {c : Char} {before : Text} (h : g.before = c :: before) :
    Authority.cut (g.fill w) = none := by
  have hc := g.no_slash_before
  rw [h, List.mem_cons, not_or] at hc
  unfold fill Authority.cut
  rw [h, List.cons_append]
  split
  · simp_all
  · rfl

theorem exists_cut_login (after : Text) :
    ∃ a path, ∀ w, Authority.cut ('/' :: '/' :: g.login w after) = some (g.login w a, path) := by
  cases h : Text.cutFirst '/' after with
  | none => exact ⟨after, ['/'], fun w => by simp [Authority.cut, cutFirst_login, h]⟩
  | some q => exact ⟨q.1, '/' :: q.2, fun w => by simp [Authority.cut, cutFirst_login, h]⟩

end Gap
end Uri
end FileNaming
