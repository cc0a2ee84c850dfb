import FileNaming.Path.Scope
import FileNaming.Proofs.Text.Case
import Mathlib.Data.List.Forall2
import Mathlib.Data.List.TakeWhile

/-! Which texts name a scope: one of the spellings of the scope, in any letter case, with
`-` or `_` between its words and blanks around it. No other text does. -/

namespace FileNaming

namespace Text

theorem exists_trim (t : Text) :
    ∃ before after, t = before ++ (trim t ++ after) ∧ (∀ c ∈ before, isBlank c = true) ∧
      ∀ c ∈ after, isBlank c = true := by
  let u := t.dropWhile isBlank
  refine ⟨t.takeWhile isBlank, (u.reverse.takeWhile isBlank).reverse, ?_,
    fun c hc => List.mem_takeWhile_imp hc,
    fun c hc => List.mem_takeWhile_imp (List.mem_reverse.1 hc)⟩
  have hu : trim t ++ (u.reverse.takeWhile isBlank).reverse = u := by
    rw [trim, ← List.reverse_append, List.takeWhile_append_dropWhile, List.reverse_reverse]
  rw [hu, List.takeWhile_append_dropWhile]

theorem dropWhile_isBlank {before word after : Text} (hb : ∀ c ∈ before, isBlank c = true)
    (hw : ∀ c ∈ word, isBlank c = false) (hne : word ≠ []) :
    (before ++ (word ++ after)).dropWhile isBlank = word ++ after := by
  rw [List.dropWhile_append_of_pos hb]
  cases word with
  | nil => exact absurd rfl hne
  | cons c word =>
    have hc : isBlank c = false := hw c List.mem_cons_self
    simp [hc]

theorem trim_append {before word after : Text} (hb : ∀ c ∈ before, isBlank c = true)
    (hw : ∀ c ∈ word, isBlank c = false) (hne : word ≠ []) (ha : ∀ c ∈ after, isBlank c = true) :
    trim (before ++ (word ++ after)) = word := by
  have hrev : (word ++ after).reverse = after.reverse ++ (word.reverse ++ []) := by simp
  have hdrop : (after.reverse ++ (word.reverse ++ [])).dropWhile isBlank = word.reverse ++ [] :=
    dropWhile_isBlank (fun c hc => ha c (List.mem_reverse.1 hc))
      (fun c hc => hw c (List.mem_reverse.1 hc)) fun h => hne (List.reverse_eq_nil_iff.1 h)
  rw [trim, dropWhile_isBlank hb hw hne, hrev, hdrop, List.append_nil, List.reverse_reverse]

end Text

namespace Scope

def Stands (c d : Char) : Prop :=
  c.toLower = d ∨ c = '-' ∧ d = '_'

def Spells (s : Scope) (t : Text) : Prop :=
  ∃ before word after name, t = before ++ (word ++ after) ∧
    (∀ c ∈ before, Text.isBlank c = true) ∧ (∀ c ∈ after, Text.isBlank c = true) ∧
    (name, s) ∈ spellings ∧ List.Forall₂ Stands word name

def fold (c : Char) : Char :=
  if c = '-' then '_' else c.toLower

theorem stands_fold (c : Char) : Stands c (fold c) := by
  unfold fold
  split
  · exact .inr ⟨‹_›, rfl⟩
  · exact .inl rfl

theorem fold_eq_of_stands {c d : Char} (h : Stands c d) (hd : d ≠ '-') : fold c = d := by
  unfold fold
  obtain rfl | ⟨rfl, rfl⟩ := h
  · split
    · rename_i hc
      subst hc
      exact absurd rfl hd
    · rfl
  · rfl

theorem isBlank_fold {c : Char} (h : Text.isBlank c = true) : Text.isBlank (fold c) = true := by
  have hdash : c ≠ '-' := by
    rintro rfl
    cases h
  have hupper : ¬ c.isUpper = true := by
    intro hu
    have hn := Text.isUpper_iff.1 hu
    simp only [Text.isBlank, Bool.or_eq_true, Bool.and_eq_true, decide_eq_true_eq] at h
    omega
  rwa [fold, if_neg hdash, Text.toLower_of_not_isUpper hupper]

theorem plain_of_mem_spellings {name : Text} {s : Scope} (h : (name, s) ∈ spellings) :
    name ≠ [] ∧ ∀ d ∈ name, d ≠ '-' ∧ Text.isBlank d = false := by
  have hall : ∀ e ∈ spellings,
      e.1 ≠ [] ∧ e.1.all (fun d => d ≠ '-' && !Text.isBlank d) = true := by decide
  simpa using hall _ h

theorem lookup_of_mem_spellings {name : Text} {s : Scope} (h : (name, s) ∈ spellings) :
    spellings.lookup name = some s := by
  have hall : ∀ e ∈ spellings, spellings.lookup e.1 = some e.2 := by decide
  exact hall _ h

theorem map_fold_of_stands {word name : Text} (h : List.Forall₂ Stands word name)
    (hn : ∀ d ∈ name, d ≠ '-') : word.map fold = name := by
  induction h with
  | nil => rfl
  | cons hc _ ih =>
    obtain ⟨hd, hn⟩ := List.forall_mem_cons.1 hn
    rw [List.map_cons, fold_eq_of_stands hc hd, ih hn]

theorem ofText_eq_ok_iff {s : Scope} {t : Text} : ofText t = .ok s ↔ s.Spells t := by
  have hlook : ofText t = .ok s ↔ spellings.lookup ((Text.trim t).map fold) = some s := by
    have hmap : ∀ u : Text, u.map (fun c => if c = '-' then '_' else c.toLower) = u.map fold :=
      fun u => rfl
    rw [ofText, hmap]
    cases spellings.lookup ((Text.trim t).map fold) <;> simp
  rw [hlook]
  constructor
  · intro h
    obtain ⟨before, after, ht, hb, ha⟩ := Text.exists_trim t
    obtain ⟨l, r, hl, -⟩ := List.lookup_eq_some_iff.1 h
    have hmem : ((Text.trim t).map fold, s) ∈ spellings := by
      rw [hl]
      simp
    refine ⟨before, Text.trim t, after, _, ht, hb, ha, hmem, ?_⟩
    exact List.forall₂_map_right_iff.2 (List.forall₂_same.2 fun c _ => stands_fold c)
  · rintro ⟨before, word, after, name, rfl, hb, ha, hname, hword⟩
    obtain ⟨hne, hplain⟩ := plain_of_mem_spellings hname
    have hfold : word.map fold = name := map_fold_of_stands hword fun d hd => (hplain d hd).1
    have hblank : ∀ c ∈ word, Text.isBlank c = false := by
      intro c hc
      refine Bool.eq_false_iff.2 fun hbc => ?_
      have hmem : fold c ∈ name := hfold ▸ List.mem_map_of_mem hc
      have hnot := (hplain _ hmem).2
      rw [isBlank_fold hbc] at hnot
      cases hnot
    have hwne : word ≠ [] := by
      rintro rfl
      exact hne hfold.symm
    rw [Text.trim_append hb hblank hwne ha, hfold, lookup_of_mem_spellings hname]

end Scope
end FileNaming
