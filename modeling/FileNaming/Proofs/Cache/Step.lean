import FileNaming.Proofs.Cache.Transparency

/-! What a step of a session does to one cache: it puts a name into it, empties it, or
leaves it alone. Instances are numbered as they are made, so a serial that was given out
is not given out again. -/

namespace FileNaming

namespace FilesCache

structure Numbered (c : FilesCache) (next : Nat) : Prop where
  below : ∀ i ∈ c.instances, i.serial < next
  ascending : c.instances.Pairwise fun i j => i.serial < j.serial

theorem Numbered.of_nil {c : FilesCache} (h : c.instances = []) (next : Nat) :
    c.Numbered next := by
  constructor <;> simp [h]

theorem Numbered.mono {c : FilesCache} {k l : Nat} (h : c.Numbered k) (hkl : k ≤ l) :
    c.Numbered l :=
  ⟨fun i hi => Nat.lt_of_lt_of_le (h.below i hi) hkl, h.ascending⟩

theorem put_of_find?_eq_none {c : FilesCache} {n : FileName} (h : c.find? n = none)
    (serial : Nat) : c.put serial n = (⟨serial, n⟩, c.add ⟨serial, n⟩) := by
  rw [put, h]

theorem instances_add (c : FilesCache) (i : Instance) :
    (c.add i).instances = if c.hasRoom then c.instances ++ [i] else c.instances := by
  unfold add
  split <;> rfl

theorem mem_add {c : FilesCache} {i j : Instance} (hi : i ∈ (c.add j).instances) :
    i ∈ c.instances ∨ i = j := by
  rw [instances_add] at hi
  split at hi
  · exact (List.mem_append.1 hi).imp_right List.mem_singleton.1
  · exact .inl hi

theorem Numbered.add {c : FilesCache} {next : Nat} (h : c.Numbered next) (n : FileName) :
    (c.add ⟨next, n⟩).Numbered (next + 1) := by
  have hc : c.Numbered (next + 1) := h.mono (Nat.le_succ next)
  constructor
  · intro i hi
    rcases mem_add hi with hi | rfl
    · exact hc.below i hi
    · exact Nat.lt_succ_self next
  · rw [instances_add]
    split
    · refine List.pairwise_append.2 ⟨h.ascending, List.pairwise_singleton _ _, fun i hi j hj => ?_⟩
      rw [List.mem_singleton.1 hj]
      exact h.below i hi
    · exact h.ascending

end FilesCache

namespace Session
variable {s : Session} {h k : Handle}

def puts? (s : Session) (h : Handle) : Step → Option FileName
  | .put k n => if s.handle k = h then some n else none
  | .resolve base name scope =>
    if s.attached = h then (base.resolve name (scope.getD s.defaultScope)).toOption else none
  | _ => none

def empties (s : Session) (h : Handle) : Step → Bool
  | .clear k => s.handle k = h
  | .closeCache k => s.handle k = h
  | .close => s.attached = h
  | _ => false

/-! One cache. -/

theorem puts?_resolve_eq_some_iff {base n : FileName} {name : Text} {scope : Option Scope} :
    s.puts? h (.resolve base name scope) = some n ↔
      s.attached = h ∧ base.resolve name (scope.getD s.defaultScope) = .ok n := by
  cases hr : base.resolve name (scope.getD s.defaultScope) with
  | error e => simp [puts?, hr, Except.toOption]
  | ok m => simp [puts?, hr, Except.toOption]

theorem step_of_puts? {st : Step} {n : FileName} (hp : s.puts? h st = some n) :
    s.step st = s.putAt h n := by
  cases st with
  | put k m =>
    obtain ⟨rfl, hm⟩ := Option.ite_none_right_eq_some.1 hp
    cases hm
    rfl
  | resolve base name scope =>
    obtain ⟨rfl, hr⟩ := puts?_resolve_eq_some_iff.1 hp
    exact resolve_of_ok hr
  | _ => cases hp

theorem step_of_empties {st : Step} (he : s.empties h st = true) :
    s.step st = (.done, s.clearAt h) := by
  cases st with
  | clear k =>
    obtain rfl : s.handle k = h := of_decide_eq_true he
    rfl
  | closeCache k =>
    obtain rfl : s.handle k = h := of_decide_eq_true he
    rfl
  | close =>
    obtain rfl : s.attached = h := of_decide_eq_true he
    rfl
  | _ => cases he

theorem cacheAt_whenFree {s s' : Session} (hs : s'.caches = s.caches) (h : Handle) :
    (s.whenFree s').2.cacheAt h = s.cacheAt h := by
  unfold whenFree
  split
  · rfl
  · exact congrArg (fun cs => cs.getD h .null) hs

theorem cacheAt_step_of_neither (hh : h < s.caches.length) {st : Step}
    (hp : s.puts? h st = none) (he : s.empties h st = false) :
    (s.step st).2.cacheAt h = s.cacheAt h := by
  cases st with
  | newCache capacity =>
    show (s.caches ++ [FilesCache.empty capacity]).getD h .null = s.caches.getD h .null
    simp [List.getElem?_append_left hh]
  | attach k =>
    have hc : ({ s with attached := k } : Session).caches = s.caches := rfl
    exact cacheAt_whenFree hc h
  | init =>
    have hc : ({ s with inUse := true } : Session).caches = s.caches := rfl
    exact cacheAt_whenFree hc h
  | close => exact cacheAt_setCache_of_ne (Ne.symm (of_decide_eq_false he)) s _
  | resolve base name scope =>
    show (s.resolve base name scope).2.cacheAt h = _
    cases hr : base.resolve name (scope.getD s.defaultScope) with
    | error e => rw [resolve_of_error hr]
    | ok n =>
      have hne : s.attached ≠ h := by
        intro ha
        rw [puts?_resolve_eq_some_iff.2 ⟨ha, hr⟩] at hp
        cases hp
      rw [resolve_of_ok hr, cacheAt_putAt_of_ne (Ne.symm hne)]
  | put k n =>
    have hne : s.handle k ≠ h := by
      rintro rfl
      simp [puts?] at hp
    exact cacheAt_putAt_of_ne (Ne.symm hne) s n
  | get k n => rfl
  | initCache k => rfl
  | clear k => exact cacheAt_setCache_of_ne (Ne.symm (of_decide_eq_false he)) s _
  | closeCache k => exact cacheAt_setCache_of_ne (Ne.symm (of_decide_eq_false he)) s _

theorem cacheAt_setCache (hh : h < s.caches.length) (c : FilesCache) :
    (s.setCache h c).cacheAt h = c := by
  simp [cacheAt, setCache, hh]

theorem cacheAt_of_length_le (hle : s.caches.length ≤ h) : s.cacheAt h = .null := by
  simp [cacheAt, List.getElem?_eq_none hle]

theorem cacheAt_step_cases (hh : h < s.caches.length) (st : Step) :
    (s.empties h st = true ∧ (s.step st).2.cacheAt h = (s.cacheAt h).clear) ∨
      (s.empties h st = false ∧ ∃ n, s.puts? h st = some n ∧ s.step st = s.putAt h n ∧
        (s.step st).2.cacheAt h = ((s.cacheAt h).put s.created n).2) ∨
      (s.empties h st = false ∧ s.puts? h st = none ∧
        (s.step st).2.cacheAt h = s.cacheAt h) := by
  cases he : s.empties h st with
  | true =>
    refine .inl ⟨rfl, ?_⟩
    rw [step_of_empties he]
    exact cacheAt_setCache hh _
  | false =>
    cases hp : s.puts? h st with
    | none => exact .inr (.inr ⟨rfl, rfl, cacheAt_step_of_neither hh hp he⟩)
    | some n =>
      refine .inr (.inl ⟨rfl, n, rfl, step_of_puts? hp, ?_⟩)
      rw [step_of_puts? hp]
      exact cacheAt_setCache hh _

/-! All caches, and the serials. -/

structure Quiet (s : Session) (r : Outcome × Session) : Prop where
  nothing_shown : ∀ i, r.1 ≠ .shown i
  nothing_made : r.2.created = s.created
  caches : ∃ cs : List FilesCache, (∀ c ∈ cs, c.instances = []) ∧ r.2.caches = s.caches ++ cs

theorem Quiet.of_caches {s s' : Session} {o : Outcome} (ho : ∀ i, o ≠ .shown i)
    (hn : s'.created = s.created) (hc : s'.caches = s.caches) : s.Quiet (o, s') :=
  ⟨ho, hn, [], nofun, hc.trans (List.append_nil s.caches).symm⟩

theorem quiet_whenFree {s s' : Session} (hn : s'.created = s.created)
    (hc : s'.caches = s.caches) : s.Quiet (s.whenFree s') := by
  unfold whenFree
  split
  · exact .of_caches nofun rfl rfl
  · exact .of_caches nofun hn hc

theorem step_cases (s : Session) (st : Step) :
    (∃ h n, s.puts? h st = some n ∧ s.step st = s.putAt h n) ∨
      (∃ h, s.step st = (.done, s.clearAt h)) ∨
      (∃ h n, s.step st = (s.getAt h n, s)) ∨ s.Quiet (s.step st) := by
  cases st with
  | newCache capacity =>
    refine .inr (.inr (.inr ⟨nofun, rfl, [.empty capacity], ?_, rfl⟩))
    intro c hc
    rw [List.mem_singleton.1 hc]
    rfl
  | attach k => exact .inr (.inr (.inr (quiet_whenFree rfl rfl)))
  | init => exact .inr (.inr (.inr (quiet_whenFree rfl rfl)))
  | close => exact .inr (.inl ⟨s.attached, rfl⟩)
  | resolve base name scope =>
    cases hr : base.resolve name (scope.getD s.defaultScope) with
    | error e =>
      have hs : s.step (.resolve base name scope) = (.failed e, s) := resolve_of_error hr
      rw [hs]
      exact .inr (.inr (.inr (.of_caches nofun rfl rfl)))
    | ok n =>
      have hp : s.puts? s.attached (.resolve base name scope) = some n :=
        puts?_resolve_eq_some_iff.2 ⟨rfl, hr⟩
      exact .inl ⟨s.attached, n, hp, step_of_puts? hp⟩
  | put k n => exact .inl ⟨s.handle k, n, if_pos rfl, rfl⟩
  | get k n => exact .inr (.inr (.inl ⟨s.handle k, n, rfl⟩))
  | initCache k => exact .inr (.inr (.inr (.of_caches nofun rfl rfl)))
  | clear k => exact .inr (.inl ⟨s.handle k, rfl⟩)
  | closeCache k => exact .inr (.inl ⟨s.handle k, rfl⟩)

theorem length_caches_le_step (s : Session) (st : Step) :
    s.caches.length ≤ (s.step st).2.caches.length := by
  obtain ⟨h, n, -, he⟩ | ⟨h, he⟩ | ⟨h, n, he⟩ | hq := s.step_cases st
  · rw [he]
    exact Nat.le_of_eq List.length_set.symm
  · rw [he]
    exact Nat.le_of_eq List.length_set.symm
  · exact he ▸ Nat.le_refl _
  · obtain ⟨cs, -, hc⟩ := hq.caches
    rw [hc, List.length_append]
    exact Nat.le_add_right _ _

theorem putAt_cases (s : Session) (h : Handle) (n : FileName) :
    (∃ i ∈ (s.cacheAt h).instances, (s.cacheAt h).find? n = some i ∧
        s.putAt h n = (.shown i, s)) ∨
      (s.cacheAt h).find? n = none ∧ s.putAt h n = (.shown ⟨s.created, n⟩,
        { s.setCache h ((s.cacheAt h).add ⟨s.created, n⟩) with created := s.created + 1 }) := by
  cases hf : (s.cacheAt h).find? n with
  | some i => exact .inl ⟨i, List.mem_of_find?_eq_some hf, rfl, putAt_of_find? hf⟩
  | none =>
    refine .inr ⟨rfl, ?_⟩
    simp only [putAt, FilesCache.put_of_find?_eq_none hf, createdBy, hf]
    rfl

/-- A property of a cache and the next serial that lasts while names with `P` are put. -/
structure Carried (P : FileName → Prop) (Q : Nat → FilesCache → Prop) : Prop where
  of_nil : ∀ next c, c.instances = [] → Q next c
  mono : ∀ next c, Q next c → Q (next + 1) c
  add : ∀ next c n, P n → Q next c → Q (next + 1) (c.add ⟨next, n⟩)

def Every (s : Session) (Q : Nat → FilesCache → Prop) : Prop :=
  ∀ c ∈ s.caches, Q s.created c

section Carried
variable {P : FileName → Prop} {Q : Nat → FilesCache → Prop} (hQ : Carried P Q)
include hQ

theorem Carried.start (capacity : Option Nat) (scope : Scope) :
    (start (.empty capacity) scope).Every Q := by
  intro c hc
  rw [List.mem_singleton.1 hc]
  exact hQ.of_nil _ _ rfl

theorem Carried.cacheAt (hs : s.Every Q) (h : Handle) : Q s.created (s.cacheAt h) := by
  by_cases hh : h < s.caches.length
  · rw [Session.cacheAt, ← List.getElem_eq_getD (h := hh)]
    exact hs _ (List.getElem_mem hh)
  · rw [cacheAt_of_length_le (Nat.le_of_not_lt hh)]
    exact hQ.of_nil _ _ rfl

theorem Carried.putAt (hs : s.Every Q) (h : Handle) {n : FileName} (hn : P n) :
    (s.putAt h n).2.Every Q := by
  obtain ⟨i, -, -, hp⟩ | ⟨-, hp⟩ := s.putAt_cases h n
  · rw [hp]
    exact hs
  · rw [hp]
    intro c hc
    rcases List.mem_or_eq_of_mem_set hc with hc | rfl
    · exact hQ.mono _ c (hs c hc)
    · exact hQ.add _ _ n hn (hQ.cacheAt hs h)

theorem Carried.step (hs : s.Every Q) {st : Step} (hst : ∀ h n, s.puts? h st = some n → P n) :
    (s.step st).2.Every Q := by
  obtain ⟨h, n, hp, he⟩ | ⟨h, he⟩ | ⟨h, n, he⟩ | hq := s.step_cases st
  · rw [he]
    exact hQ.putAt hs h (hst h n hp)
  · rw [he]
    intro c hc
    rcases List.mem_or_eq_of_mem_set hc with hc | rfl
    · exact hs c hc
    · exact hQ.of_nil _ _ rfl
  · rw [he]
    exact hs
  · obtain ⟨cs, hcs, hc⟩ := hq.caches
    intro c hm
    rw [hq.nothing_made]
    rw [hc, List.mem_append] at hm
    rcases hm with hm | hm
    · exact hs c hm
    · exact hQ.of_nil _ _ (hcs c hm)

theorem Carried.run (hs : s.Every Q) {steps : List Step}
    (hsteps : ∀ st ∈ steps, ∀ (t : Session) h n, t.puts? h st = some n → P n) :
    (s.run steps).Every Q := by
  induction steps generalizing s with
  | nil => exact hs
  | cons st steps ih =>
    rw [List.forall_mem_cons] at hsteps
    exact ih (hQ.step hs (hsteps.1 s)) hsteps.2

end Carried

def Numbered (s : Session) : Prop :=
  s.Every fun next c => c.Numbered next

theorem carried_numbered : Carried (fun _ => True) fun next c => c.Numbered next :=
  ⟨fun next _ hc => .of_nil hc next, fun next _ hc => hc.mono (Nat.le_succ next),
    fun _ _ n _ hc => hc.add n⟩

theorem numbered_start (capacity : Option Nat) (scope : Scope) :
    (start (.empty capacity) scope).Numbered :=
  carried_numbered.start capacity scope

theorem Numbered.cacheAt (hs : s.Numbered) (h : Handle) : (s.cacheAt h).Numbered s.created :=
  carried_numbered.cacheAt hs h

theorem Numbered.step (hs : s.Numbered) (st : Step) : (s.step st).2.Numbered :=
  carried_numbered.step hs fun _ _ _ => trivial

theorem Numbered.run (hs : s.Numbered) (steps : List Step) : (s.run steps).Numbered :=
  carried_numbered.run hs fun _ _ _ _ _ _ => trivial

theorem created_le_step (s : Session) (st : Step) : s.created ≤ (s.step st).2.created := by
  obtain ⟨h, n, -, he⟩ | ⟨h, he⟩ | ⟨h, n, he⟩ | hq := s.step_cases st
  · rw [he]
    obtain ⟨i, -, -, hp⟩ | ⟨-, hp⟩ := s.putAt_cases h n
    · exact hp ▸ Nat.le_refl _
    · exact hp ▸ Nat.le_succ _
  · exact he ▸ Nat.le_refl _
  · exact he ▸ Nat.le_refl _
  · exact Nat.le_of_eq hq.nothing_made.symm

theorem Numbered.serial_lt (hs : s.Numbered) {st : Step} {i : Instance}
    (hi : (s.step st).1 = .shown i) : i.serial < (s.step st).2.created := by
  obtain ⟨h, n, -, he⟩ | ⟨h, he⟩ | ⟨h, n, he⟩ | hq := s.step_cases st
  · rw [he] at hi ⊢
    obtain ⟨j, hj, -, hp⟩ | ⟨-, hp⟩ := s.putAt_cases h n
    · rw [hp] at hi ⊢
      obtain rfl : j = i := Outcome.shown.inj hi
      exact (hs.cacheAt h).below j hj
    · rw [hp] at hi ⊢
      obtain rfl : ⟨s.created, n⟩ = i := Outcome.shown.inj hi
      exact Nat.lt_succ_self _
  · rw [he] at hi
    cases hi
  · rw [he] at hi ⊢
    unfold getAt at hi
    split at hi
    · rename_i j hj
      obtain rfl : j = i := Outcome.shown.inj hi
      exact (hs.cacheAt h).below j (List.mem_of_find?_eq_some hj)
    · cases hi
  · exact absurd hi (hq.nothing_shown i)

theorem run_cons (s : Session) (st : Step) (steps : List Step) :
    s.run (st :: steps) = (s.step st).2.run steps := rfl

theorem run_append (s : Session) (before after : List Step) :
    s.run (before ++ after) = (s.run before).run after :=
  List.foldl_append

theorem created_le_run (s : Session) (steps : List Step) : s.created ≤ (s.run steps).created := by
  induction steps generalizing s with
  | nil => exact Nat.le_refl _
  | cons st steps ih => exact Nat.le_trans (s.created_le_step st) (ih _)

theorem length_caches_le_run (s : Session) (steps : List Step) :
    s.caches.length ≤ (s.run steps).caches.length := by
  induction steps generalizing s with
  | nil => exact Nat.le_refl _
  | cons st steps ih => exact Nat.le_trans (s.length_caches_le_step st) (ih _)

def shown (s : Session) : List Step → List Instance
  | [] => []
  | st :: steps =>
    match (s.step st).1 with
    | .shown i => i :: (s.step st).2.shown steps
    | _ => (s.step st).2.shown steps

theorem Numbered.serial_lt_run (hs : s.Numbered) {steps : List Step} {i : Instance}
    (hi : i ∈ s.shown steps) : i.serial < (s.run steps).created := by
  induction steps generalizing s with
  | nil => cases hi
  | cons st steps ih =>
    unfold shown at hi
    split at hi
    · rename_i j hj
      rcases List.mem_cons.1 hi with rfl | hi
      · exact Nat.lt_of_lt_of_le (hs.serial_lt hj) (created_le_run _ steps)
      · exact ih (hs.step st) hi
    · exact ih (hs.step st) hi

end Session
end FileNaming
