import FileNaming.Proofs.Path.Walk

/-! Which segments of a walk are left in the end. A `..` takes back the nearest segment
before it that was not taken back yet, so what lies between the two is a loop. A walk
that goes back more often than it went on needs as many segments above its start; the
rest of its way is made of the segments that no `..` takes back. -/

namespace FileNaming.Path

def Plain (s : Text) : Prop :=
  s ≠ [] ∧ s ≠ here ∧ s ≠ up

instance : DecidablePred Plain := fun s =>
  inferInstanceAs (Decidable (s ≠ [] ∧ s ≠ here ∧ s ≠ up))

/-- How many segments above its start a walk needs. -/
def climb : List Text → Nat
  | [] => 0
  | s :: segs => if s = up then climb segs + 1 else if Plain s then climb segs - 1 else climb segs

/-- A walk that ends where it starts and goes nowhere above. -/
inductive Loop : List Text → Prop
  | nil : Loop []
  | stay {s : Text} {rest : List Text} (hs : s = [] ∨ s = here) (h : Loop rest) : Loop (s :: rest)
  | visit {s : Text} {inner rest : List Text} (hs : Plain s) (hi : Loop inner) (h : Loop rest) :
      Loop (s :: (inner ++ up :: rest))

def TakenBack (after : List Text) : Prop :=
  ∃ inner later, after = inner ++ up :: later ∧ Loop inner

theorem Ordinary.plain {s : Text} (h : Ordinary s) : Plain s :=
  ⟨h.ne_nil, h.ne_here, h.ne_up⟩

theorem not_plain_up : ¬ Plain up := fun h => h.2.2 rfl

theorem segment_cases (s : Text) : (s = [] ∨ s = here) ∨ s = up ∨ Plain s := by
  by_cases hb : s = [] ∨ s = here
  · exact .inl hb
  · rw [not_or] at hb
    by_cases hu : s = up
    · exact .inr (.inl hu)
    · exact .inr (.inr ⟨hb.1, hb.2, hu⟩)

section Climb
variable {s : Text} (segs : List Text)

theorem climb_blank (hs : s = [] ∨ s = here) : climb (s :: segs) = climb segs := by
  rcases hs with rfl | rfl <;> rfl

theorem climb_up : climb (up :: segs) = climb segs + 1 :=
  if_pos rfl

theorem climb_plain (hs : Plain s) : climb (s :: segs) = climb segs - 1 := by
  rw [climb, if_neg hs.2.2, if_pos hs]

end Climb

theorem lt_climb_iff {k : Nat} {segs : List Text} :
    k < climb segs ↔ ∃ q, q <+: segs ∧ q.countP Plain + k < q.count up := by
  induction segs generalizing k with
  | nil => simp [climb]
  | cons s segs ih =>
    -- The empty beginning has no excess, so one step is always made.
    have hfirst : (∃ q, q <+: s :: segs ∧ q.countP Plain + k < q.count up) ↔
        ∃ q, q <+: segs ∧ (s :: q).countP Plain + k < (s :: q).count up := by
      constructor
      · rintro ⟨q, hq, hlt⟩
        obtain rfl | ⟨r, rfl, hr⟩ := List.prefix_cons_iff.1 hq
        · simp at hlt
        · exact ⟨r, hr, hlt⟩
      · rintro ⟨q, hq, hlt⟩
        exact ⟨s :: q, List.cons_prefix_cons.2 ⟨rfl, hq⟩, hlt⟩
    rw [hfirst]
    obtain hs | rfl | hs := segment_cases s
    · have hp : ¬ Plain s := fun h => hs.elim h.1 h.2.1
      have hu : s ≠ up := by rcases hs with rfl | rfl <;> decide
      simp only [climb_blank segs hs, ih, List.countP_cons, hp, List.count_cons, hu, beq_iff_eq,
        decide_false, Bool.false_eq_true, if_false, Nat.add_zero]
    · simp only [climb_up, List.countP_cons, not_plain_up, List.count_cons_self, decide_false,
        Bool.false_eq_true, if_false, Nat.add_zero]
      cases k with
      | zero =>
        exact iff_of_true (Nat.succ_pos _) ⟨[], List.nil_prefix, Nat.succ_pos _⟩
      | succ k =>
        rw [Nat.add_lt_add_iff_right, ih]
        simp only [← Nat.add_assoc, Nat.add_lt_add_iff_right]
    · have hu : s ≠ up := hs.2.2
      have hk : k < climb segs - 1 ↔ k + 1 < climb segs := Nat.lt_sub_iff_add_lt
      rw [climb_plain segs hs, hk, ih]
      simp only [List.countP_cons, hs, List.count_cons, hu, beq_iff_eq, decide_true, if_true,
        if_false, Nat.add_zero, Nat.add_right_comm, ← Nat.add_assoc]

theorem climb_pos_iff {segs : List Text} :
    0 < climb segs ↔ ∃ q, q <+: segs ∧ q.countP Plain < q.count up :=
  lt_climb_iff

theorem climb_eq_zero_iff {segs : List Text} :
    climb segs = 0 ↔ ∀ q, q <+: segs → q.count up ≤ q.countP Plain := by
  rw [← Nat.le_zero, ← Nat.not_lt]
  simp only [climb_pos_iff, not_exists, not_and, Nat.not_lt]

theorem Loop.climb_append {inner : List Text} (h : Loop inner) (rest : List Text) :
    climb (inner ++ rest) = climb rest := by
  induction h generalizing rest with
  | nil => rfl
  | stay hs _ ih => rw [List.cons_append, climb_blank _ hs, ih]
  | visit hs _ _ ihi ih =>
    rw [List.cons_append, List.append_assoc, List.cons_append, climb_plain _ hs, ihi, climb_up, ih,
      Nat.add_sub_cancel]

theorem exists_loop_of_climb {k : Nat} (segs : List Text) (h : climb segs = k + 1) :
    ∃ inner later, segs = inner ++ up :: later ∧ Loop inner ∧ climb later = k := by
  match segs with
  | [] => cases h
  | s :: segs =>
    obtain hs | rfl | hs := segment_cases s
    · rw [climb_blank segs hs] at h
      obtain ⟨inner, later, rfl, hi, hl⟩ := exists_loop_of_climb segs h
      exact ⟨s :: inner, later, rfl, hi.stay hs, hl⟩
    · rw [climb_up] at h
      exact ⟨[], segs, rfl, .nil, Nat.succ.inj h⟩
    · rw [climb_plain segs hs] at h
      -- the first `..` takes this segment back, the second one is looked for
      obtain ⟨inner, rest, rfl, hi, hr⟩ := exists_loop_of_climb (k := k + 1) segs (by omega)
      obtain ⟨outer, later, rfl, ho, hl⟩ := exists_loop_of_climb rest hr
      exact ⟨s :: (inner ++ up :: outer), later, by simp, .visit hs hi ho, hl⟩
termination_by segs.length

theorem takenBack_iff {after : List Text} : TakenBack after ↔ 0 < climb after := by
  constructor
  · rintro ⟨inner, later, rfl, hi⟩
    rw [hi.climb_append, climb_up]
    exact Nat.succ_pos _
  · intro h
    obtain ⟨inner, later, rfl, hi, -⟩ := exists_loop_of_climb after (Nat.succ_pred_eq_of_pos h).symm
    exact ⟨inner, later, rfl, hi⟩

instance : DecidablePred TakenBack := fun _ => decidable_of_iff _ takenBack_iff.symm

def survivors : List Text → List Text
  | [] => []
  | s :: after => if Plain s ∧ ¬ TakenBack after then s :: survivors after else survivors after

theorem foldlM_advance_eq (stack segs : List Text) :
    segs.foldlM advance stack =
      if climb segs ≤ stack.length then
        some ((survivors segs).reverse ++ stack.drop (climb segs))
      else none := by
  induction segs generalizing stack with
  | nil => rfl
  | cons s segs ih =>
    rw [List.foldlM_cons]
    obtain hs | rfl | hs := segment_cases s
    · have hp : ¬ (Plain s ∧ ¬ TakenBack segs) := fun h => hs.elim h.1.1 h.1.2.1
      rw [advance_blank stack hs, climb_blank segs hs, survivors, if_neg hp]
      exact ih stack
    · have hp : ¬ (Plain up ∧ ¬ TakenBack segs) := fun h => not_plain_up h.1
      rw [advance_up, climb_up, survivors, if_neg hp]
      cases stack with
      | nil => rfl
      | cons r stack => simpa using ih stack
    · have ha : advance stack s = some (s :: stack) := by
        simp [advance, hs.1, hs.2.1, hs.2.2]
      rw [ha, climb_plain segs hs, survivors]
      refine (ih (s :: stack)).trans ?_
      cases hc : climb segs with
      | zero =>
        have hk : Plain s ∧ ¬ TakenBack segs := ⟨hs, by simp [takenBack_iff, hc]⟩
        simp [hk]
      | succ k =>
        have hk : ¬ (Plain s ∧ ¬ TakenBack segs) := fun h => h.2 (takenBack_iff.2 (by omega))
        simp [hk]

theorem walk_eq (segs : List Text) :
    walk segs = if climb segs = 0 then some (survivors segs) else none := by
  rw [walk, foldlM_advance_eq]
  by_cases h : climb segs = 0 <;> simp [h]

theorem walk_append_of_ordinary {above : List Text} (ha : ∀ s ∈ above, Ordinary s)
    (segs : List Text) :
    walk (above ++ segs) =
      if climb segs ≤ above.length then
        some (above.take (above.length - climb segs) ++ survivors segs)
      else none := by
  rw [walk, List.foldlM_append, foldlM_advance_ordinary [] ha, List.append_nil]
  refine (congrArg _ (foldlM_advance_eq above.reverse segs)).trans ?_
  rw [List.length_reverse]
  split
  · simp [List.drop_reverse]
  · rfl

end FileNaming.Path
