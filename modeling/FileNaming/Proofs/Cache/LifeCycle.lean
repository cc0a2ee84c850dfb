import FileNaming.Proofs.Cache.Step

/-! The life of a configuration. One cache after the other may be attached until the
configuration is put in use, which happens once; the cache attached by then stays. What
is refused from then on changes nothing, and closing empties the attached cache without
opening the configuration again. -/

namespace FileNaming.Session
variable {s : Session}

def lastAttached (first : Handle) : List Step → Handle
  | [] => first
  | .attach h :: steps => lastAttached h steps
  | _ :: steps => lastAttached first steps

def trace (s : Session) : List Step → List (Step × Outcome)
  | [] => []
  | st :: steps => (st, (s.step st).1) :: (s.step st).2.trace steps

structure SameSettings (s t : Session) : Prop where
  attached : t.attached = s.attached
  inUse : t.inUse = s.inUse
  defaultScope : t.defaultScope = s.defaultScope

structure Emptied (h : Handle) (s t : Session) : Prop where
  emptied : (t.cacheAt h).instances = []
  capacity : (t.cacheAt h).capacity = (s.cacheAt h).capacity
  others : ∀ k, k ≠ h → t.cacheAt k = s.cacheAt k
  settings : s.SameSettings t
  created : t.created = s.created

theorem lastAttached_cons (first : Handle) (st : Step) (steps : List Step) :
    lastAttached first (st :: steps) = lastAttached (lastAttached first [st]) steps := by
  cases st <;> rfl

theorem step_attach (s : Session) (h : Handle) :
    s.step (.attach h) =
      if s.inUse then (.refused .inUse, s) else (.done, { s with attached := h }) := rfl

theorem step_init (s : Session) :
    s.step .init = if s.inUse then (.refused .inUse, s) else (.done, { s with inUse := true }) :=
  rfl

theorem sameSettings_step {st : Step} (hi : st ≠ .init) (ha : ∀ h, st ≠ .attach h) :
    s.SameSettings (s.step st).2 := by
  cases st with
  | attach h => exact absurd rfl (ha h)
  | init => exact absurd rfl hi
  | resolve base name scope =>
    show s.SameSettings (s.resolve base name scope).2
    cases hr : base.resolve name (scope.getD s.defaultScope) with
    | error e =>
      rw [resolve_of_error hr]
      exact ⟨rfl, rfl, rfl⟩
    | ok n =>
      rw [resolve_of_ok hr]
      exact ⟨rfl, rfl, rfl⟩
  | _ => exact ⟨rfl, rfl, rfl⟩

theorem settings_step (s : Session) (st : Step) :
    (s.step st).2.defaultScope = s.defaultScope ∧
      ((s.step st).2.inUse = true ↔ s.inUse = true ∨ st = .init) ∧
      (s.step st).2.attached = if s.inUse then s.attached else lastAttached s.attached [st] := by
  by_cases hi : st = .init
  · subst hi
    rw [step_init]
    cases hu : s.inUse <;> simp [hu, lastAttached]
  · by_cases ha : ∃ h, st = .attach h
    · obtain ⟨h, rfl⟩ := ha
      rw [step_attach]
      cases hu : s.inUse <;> simp [hu, lastAttached]
    · have hs := sameSettings_step (s := s) hi fun h hst => ha ⟨h, hst⟩
      have hlast : lastAttached s.attached [st] = s.attached := by
        cases st with
        | attach h => exact absurd ⟨h, rfl⟩ ha
        | _ => rfl
      refine ⟨hs.defaultScope, ?_, ?_⟩
      · rw [hs.inUse, or_iff_left hi]
      · rw [hs.attached, hlast, ite_self]

theorem refused_step_iff {st : Step} {e : ConfigError} :
    (s.step st).1 = .refused e ↔
      e = .inUse ∧ s.inUse = true ∧ (st = .init ∨ ∃ h, st = .attach h) := by
  cases st with
  | attach h =>
    rw [step_attach]
    cases hu : s.inUse <;> simp [eq_comm]
  | init =>
    rw [step_init]
    cases hu : s.inUse <;> simp [eq_comm]
  | resolve base name scope =>
    show (s.resolve base name scope).1 = _ ↔ _
    cases hr : base.resolve name (scope.getD s.defaultScope) with
    | error e => simp [resolve_of_error hr]
    | ok n => simp [resolve_of_ok hr, putAt]
  | get h n =>
    show s.getAt (s.handle h) n = _ ↔ _
    unfold getAt
    split <;> simp
  | put h n => simp [step, putAt]
  | _ => simp [step]

theorem step_of_refused {st : Step} {e : ConfigError} (h : (s.step st).1 = .refused e) :
    (s.step st).2 = s := by
  obtain ⟨-, hu, rfl | ⟨k, rfl⟩⟩ := refused_step_iff.1 h
  · rw [step_init, if_pos hu]
  · rw [step_attach, if_pos hu]

theorem init_done_iff : (s.step .init).1 = .done ↔ s.inUse = false := by
  rw [step_init]
  cases s.inUse <;> simp

theorem emptied_clearAt (s : Session) (h : Handle) : s.Emptied h (s.clearAt h) := by
  have hclear : (s.clearAt h).cacheAt h = (s.cacheAt h).clear := by
    by_cases hh : h < s.caches.length
    · exact cacheAt_setCache hh _
    · have hle : s.caches.length ≤ h := Nat.le_of_not_lt hh
      have hle' : (s.clearAt h).caches.length ≤ h := Nat.le_trans (Nat.le_of_eq List.length_set) hle
      rw [cacheAt_of_length_le hle, cacheAt_of_length_le hle']
      rfl
  refine ⟨?_, ?_, fun k hk => cacheAt_setCache_of_ne hk s _, ⟨rfl, rfl, rfl⟩, rfl⟩
  · rw [hclear]
    rfl
  · rw [hclear]
    rfl

theorem defaultScope_run (s : Session) (steps : List Step) :
    (s.run steps).defaultScope = s.defaultScope := by
  induction steps generalizing s with
  | nil => rfl
  | cons st steps ih => exact (ih _).trans (s.settings_step st).1

theorem inUse_run_iff {steps : List Step} :
    (s.run steps).inUse = true ↔ s.inUse = true ∨ .init ∈ steps := by
  induction steps generalizing s with
  | nil => simp [run]
  | cons st steps ih =>
    rw [run_cons, ih, (s.settings_step st).2.1, List.mem_cons, or_assoc, eq_comm (a := st)]

theorem attached_run_of_inUse (h : s.inUse = true) (steps : List Step) :
    (s.run steps).attached = s.attached := by
  induction steps generalizing s with
  | nil => rfl
  | cons st steps ih =>
    obtain ⟨-, hu, ha⟩ := s.settings_step st
    rw [run_cons, ih (hu.2 (.inl h)), ha, if_pos h]

theorem attached_run (h : s.inUse = false) (steps : List Step) :
    (s.run steps).attached = lastAttached s.attached (steps.takeWhile (· ≠ .init)) := by
  induction steps generalizing s with
  | nil => rfl
  | cons st steps ih =>
    obtain ⟨-, hu, ha⟩ := s.settings_step st
    rw [h, if_neg Bool.false_ne_true] at ha
    rw [run_cons]
    by_cases hi : st = .init
    · subst hi
      rw [attached_run_of_inUse (hu.2 (.inr rfl)), ha]
      rfl
    · have hfree : (s.step st).2.inUse = false := by
        rw [← Bool.not_eq_true, hu, h]
        simp [hi]
      rw [ih hfree, ha, List.takeWhile_cons_of_pos (by simp [hi]), ← lastAttached_cons]

theorem count_init_trace (s : Session) (steps : List Step) :
    (s.trace steps).count (.init, .done) = if s.inUse = false ∧ .init ∈ steps then 1 else 0 := by
  induction steps generalizing s with
  | nil => simp [trace]
  | cons st steps ih =>
    rw [trace, List.count_cons, ih]
    have hu := (s.settings_step st).2.1
    by_cases hi : st = .init
    · subst hi
      rw [hu.2 (.inr rfl)]
      cases h : s.inUse <;> simp [init_done_iff, h]
    · have hsame : (s.step st).2.inUse = s.inUse := by
        rw [Bool.eq_iff_iff, hu, or_iff_left hi]
      simp [hsame, hi, Ne.symm hi]

/-- A configuration is put in use once, by the first initializing, and stays in use. The
attached cache is the one attached last before that. What is refused changes nothing,
closing changes nothing but the contents of the attached cache, and the default scope is
the one it started with. -/
theorem attached_until_init (first : FilesCache) (scope : Scope) (steps : List Step) :
    let s := (start first scope).run steps
    (s.inUse = true → ∀ more, (s.run more).inUse = true ∧ (s.run more).attached = s.attached) ∧
    (s.inUse = true ↔ .init ∈ steps) ∧
    ((start first scope).trace steps).count (.init, .done) = (if s.inUse then 1 else 0) ∧
    s.attached = lastAttached 0 (steps.takeWhile (· ≠ .init)) ∧
    (∀ st, ((s.step st).1 = .refused .inUse ↔
        s.inUse = true ∧ (st = .init ∨ ∃ h, st = .attach h)) ∧
      ((s.step st).1 = .refused .inUse → (s.step st).2 = s)) ∧
    (s.step .close).1 = .done ∧ s.Emptied s.attached (s.step .close).2 ∧
    s.defaultScope = scope := by
  intro s
  have hu : s.inUse = true ↔ .init ∈ steps := by
    rw [inUse_run_iff]
    exact or_iff_right Bool.false_ne_true
  refine ⟨fun h more => ⟨inUse_run_iff.2 (.inl h), attached_run_of_inUse h more⟩, hu, ?_,
    attached_run rfl steps, fun st => ⟨?_, step_of_refused⟩, rfl,
    s.emptied_clearAt s.attached, defaultScope_run _ steps⟩
  · have hfree : (start first scope).inUse = false := rfl
    simp only [count_init_trace, hfree, hu, true_and]
  · rw [refused_step_iff]
    exact and_iff_right rfl

theorem attached_until_init_again :
    let a : FileName := ⟨"file".toList, "/a".toList, .rooted ['/']⟩
    let steps : List Step := [.newCache (some 1), .attach 1, .put none a, .attach 0, .put none a,
      .attach 1, .init, .attach 0]
    let s := (start (.empty none) .child).run steps
    s.attached = 1 ∧ ((start (.empty none) .child).trace steps).count (.init, .done) = 1 ∧
      (s.run [.close, .attach 0, .init]).inUse = true ∧
      (s.run [.close, .attach 0, .init]).attached = 1 ∧
      (s.step .init).2 = s ∧ ((s.step .close).2.cacheAt 1).instances = [] ∧
      (s.step .close).2.cacheAt 0 = ⟨none, [⟨1, a⟩]⟩ := by
  intro a steps s
  obtain ⟨stays, inUse_iff, once, attached, refused, -, closed, -⟩ :=
    attached_until_init (.empty none) .child steps
  have hu : s.inUse = true := inUse_iff.2 (by simp [steps])
  rw [if_pos hu] at once
  have hinit : (s.step .init).1 = .refused .inUse := (refused .init).1.2 ⟨hu, .inl rfl⟩
  exact ⟨attached, once, (stays hu _).1, (stays hu _).2.trans attached, (refused .init).2 hinit,
    closed.emptied, (closed.others 0 (by decide)).trans (by decide)⟩

end FileNaming.Session
