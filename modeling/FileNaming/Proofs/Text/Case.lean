import FileNaming.Text.Cut

/-! Lower case moves the capital letters of ASCII and nothing else, so a text keeps
the marks it holds and gets no new ones, and lower case is reached in one step. -/

namespace FileNaming.Text

theorem isUpper_iff {c : Char} : c.isUpper = true ↔ 65 ≤ c.toNat ∧ c.toNat ≤ 90 := by
  have hv : c.isUpper = true ↔ 65 ≤ c.val ∧ c.val ≤ 90 := decide_eq_true_iff
  rw [hv, UInt32.le_iff_toNat_le, UInt32.le_iff_toNat_le, ← Char.toNat_val]
  rfl

theorem isLower_iff {c : Char} : c.isLower = true ↔ 97 ≤ c.toNat ∧ c.toNat ≤ 122 := by
  have hb : c.isLower = (decide (97 ≤ c.val) && decide (c.val ≤ 122)) := rfl
  have hv : c.isLower = true ↔ 97 ≤ c.val ∧ c.val ≤ 122 := by
    rw [hb, Bool.and_eq_true, decide_eq_true_iff, decide_eq_true_iff]
  rw [hv, UInt32.le_iff_toNat_le, UInt32.le_iff_toNat_le, ← Char.toNat_val]
  rfl

theorem toLower_of_not_isUpper {c : Char} (h : ¬ c.isUpper = true) : c.toLower = c :=
  dif_neg fun hc => h (decide_eq_true hc)

theorem toNat_toLower_of_isUpper {c : Char} (h : c.isUpper = true) :
    c.toLower.toNat = c.toNat + 32 := by
  have hn := isUpper_iff.1 h
  have hl : c.toLower.val = c.val + 32 := by
    unfold Char.toLower
    rw [dif_pos (of_decide_eq_true h)]
    rfl
  rw [← Char.toNat_val, ← Char.toNat_val, hl, UInt32.toNat_add]
  rw [← Char.toNat_val] at hn
  simp only [UInt32.reduceToNat]
  omega

theorem isLower_toLower_or (c : Char) : c.toLower.isLower = true ∨ c.toLower = c := by
  by_cases h : c.isUpper = true
  · have hn := isUpper_iff.1 h
    refine .inl (isLower_iff.2 ?_)
    rw [toNat_toLower_of_isUpper h]
    omega
  · exact .inr (toLower_of_not_isUpper h)

theorem toLower_of_isLower {c : Char} (h : c.isLower = true) : c.toLower = c := by
  refine toLower_of_not_isUpper fun hu => ?_
  have hl := isLower_iff.1 h
  have hn := isUpper_iff.1 hu
  omega

theorem toLower_of_isDigit {c : Char} (h : c.isDigit = true) : c.toLower = c := by
  refine toLower_of_not_isUpper fun hu => ?_
  have hn := isUpper_iff.1 hu
  have hb : c.isDigit = (decide (48 ≤ c.val) && decide (c.val ≤ 57)) := rfl
  rw [hb, Bool.and_eq_true, decide_eq_true_iff, decide_eq_true_iff, UInt32.le_iff_toNat_le,
    UInt32.le_iff_toNat_le] at h
  have hd : c.toNat ≤ 57 := h.2
  omega

theorem toLower_toLower (c : Char) : c.toLower.toLower = c.toLower := by
  obtain h | h := isLower_toLower_or c
  · exact toLower_of_isLower h
  · rw [h, h]

theorem isUpper_toLower (c : Char) : c.toLower.isUpper = false := by
  refine Bool.eq_false_iff.2 fun hu => ?_
  have hn := isUpper_iff.1 hu
  obtain h | h := isLower_toLower_or c
  · have hl := isLower_iff.1 h
    omega
  · rw [h] at hu hn
    have hc := toNat_toLower_of_isUpper hu
    rw [h] at hc
    omega

theorem notMem_map_toLower {c : Char} {t : Text} (hc : c.isLower = false) (h : c ∉ t) :
    c ∉ t.map Char.toLower := by
  intro hm
  obtain ⟨d, hd, rfl⟩ := List.mem_map.1 hm
  obtain hl | he := isLower_toLower_or d
  · rw [hl] at hc
    cases hc
  · rw [he] at h
    exact h hd

theorem map_toLower_of_forall {t : Text} (h : ∀ c ∈ t, c.toLower = c) :
    t.map Char.toLower = t :=
  (List.map_congr_left h).trans (List.map_id t)

end FileNaming.Text
