import Mathlib.Data.List.Induction
import Mathlib.Data.List.Pairwise
import FileNaming.Proofs.Cache.Step

/-! A cache is the list of the first unequal names that were put into it since it was
last emptied, as many as it has room for, each as the instance of its first put. -/

namespace FileNaming

def firsts (is : List Instance) : List Instance :=
  is.eraseDupsBy fun j i => FileName.Same i.name j.name

def kept (capacity : Option Nat) (is : List Instance) : List Instance :=
  match capacity with
  | none => is
  | some m => is.take m

theorem firsts_cons (i : Instance) (is : List Instance) :
    firsts (i :: is) = i :: firsts (is.filter fun j => ¬ i.name.Same j.name) := by
  simp [firsts, List.eraseDupsBy_cons]

theorem firsts_concat (is : List Instance) (j : Instance) :
    firsts (is ++ [j]) =
      if ∃ i ∈ is, i.name.Same j.name then firsts is else firsts is ++ [j] := by
  match is with
  | [] => simp [firsts, List.eraseDupsBy_cons]
  | i :: is =>
    rw [List.cons_append, firsts_cons, firsts_cons, List.filter_append]
    by_cases hij : i.name.Same j.name
    · simp [hij]
    · have hf : ([j].filter fun k => ¬ i.name.Same k.name) = [j] := by simp [hij]
      -- What is filtered out has the name of the head, and the new name is another one.
      have hex : (∃ k ∈ is.filter fun k => ¬ i.name.Same k.name, k.name.Same j.name) ↔
          ∃ k ∈ i :: is, k.name.Same j.name := by
        constructor
        · rintro ⟨k, hk, hs⟩
          exact ⟨k, List.mem_cons_of_mem i (List.mem_filter.1 hk).1, hs⟩
        · rintro ⟨k, hk, hs⟩
          rcases List.mem_cons.1 hk with rfl | hk
          · exact absurd hs hij
          · have hik : ¬ i.name.Same k.name := fun h => hij (h.trans hs)
            exact ⟨k, List.mem_filter.2 ⟨hk, decide_eq_true hik⟩, hs⟩
      rw [hf, firsts_concat]
      by_cases hx : ∃ k ∈ i :: is, k.name.Same j.name
      · rw [if_pos (hex.2 hx), if_pos hx]
      · rw [if_neg fun h => hx (hex.1 h), if_neg hx, List.cons_append]
termination_by is.length
decreasing_by exact Nat.lt_succ_of_le (List.length_filter_le _ _)

theorem exists_same_firsts_iff {is : List Instance} {n : FileName} :
    (∃ i ∈ firsts is, i.name.Same n) ↔ ∃ i ∈ is, i.name.Same n := by
  induction is using List.reverseRecOn with
  | nil => rfl
  | append_singleton is j ih =>
    rw [firsts_concat]
    split
    · rename_i hj
      rw [ih]
      constructor
      · rintro ⟨i, hi, hs⟩
        exact ⟨i, List.mem_append_left _ hi, hs⟩
      · rintro ⟨i, hi, hs⟩
        rcases List.mem_append.1 hi with hi | hi
        · exact ⟨i, hi, hs⟩
        · obtain ⟨k, hk, hkj⟩ := hj
          rw [List.mem_singleton.1 hi] at hs
          exact ⟨k, hk, hkj.trans hs⟩
    · simp only [List.mem_append, or_and_right, exists_or, ih]

theorem firsts_distinct (is : List Instance) :
    (firsts is).Pairwise fun i j => ¬ i.name.Same j.name := by
  induction is using List.reverseRecOn with
  | nil => exact .nil
  | append_singleton is j ih =>
    rw [firsts_concat]
    split
    · exact ih
    · rename_i hj
      refine List.pairwise_append.2 ⟨ih, List.pairwise_singleton _ _, ?_⟩
      intro i hi k hk hs
      rw [List.mem_singleton.1 hk] at hs
      exact hj (exists_same_firsts_iff.1 ⟨i, hi, hs⟩)

section Kept
variable {capacity : Option Nat} {is : List Instance}

theorem kept_nil (capacity : Option Nat) : kept capacity [] = [] := by
  cases capacity with
  | none => rfl
  | some m => exact List.take_nil

theorem kept_isPrefix (capacity : Option Nat) (is : List Instance) :
    kept capacity is <+: is := by
  cases capacity with
  | none => exact List.prefix_refl is
  | some m => exact List.take_prefix m is

theorem length_kept_le {m : Nat} (hm : capacity = some m) : (kept capacity is).length ≤ m := by
  subst hm
  exact List.length_take_le m is

theorem kept_of_hasRoom (h : (FilesCache.mk capacity (kept capacity is)).hasRoom = true) :
    kept capacity is = is := by
  cases capacity with
  | none => rfl
  | some m =>
    have hl : (is.take m).length < m := of_decide_eq_true h
    rw [List.length_take] at hl
    exact List.take_of_length_le (by omega)

theorem add_kept (capacity : Option Nat) (is : List Instance) (j : Instance) :
    (FilesCache.mk capacity (kept capacity is)).add j =
      ⟨capacity, kept capacity (is ++ [j])⟩ := by
  unfold FilesCache.add
  split
  · rename_i h
    rw [kept_of_hasRoom h]
    cases capacity with
    | none => rfl
    | some m =>
      have hl : (is.take m).length < m := of_decide_eq_true h
      rw [List.length_take] at hl
      have ht : (is ++ [j]).take m = is ++ [j] :=
        List.take_of_length_le (by rw [List.length_append, List.length_singleton]; omega)
      rw [kept, ht]
  · rename_i h
    cases capacity with
    | none => exact absurd rfl h
    | some m =>
      have hl : ¬ (is.take m).length < m := fun hl => h (decide_eq_true hl)
      rw [List.length_take] at hl
      rw [kept, kept, List.take_append_of_le_length (by omega)]

end Kept

namespace FilesCache
variable {c : FilesCache}

theorem find?_of_mem (hd : c.instances.Pairwise fun i j => ¬ i.name.Same j.name) {i : Instance}
    (hi : i ∈ c.instances) {n : FileName} (hs : i.name.Same n) : c.find? n = some i := by
  cases hf : c.find? n with
  | none =>
    have hne := List.find?_eq_none.1 hf i hi
    exact absurd (decide_eq_true hs) hne
  | some j =>
    by_contra hji
    have hne : i ≠ j := fun h => hji (congrArg some h.symm)
    have hsym : Std.Symm fun k l : Instance => ¬ k.name.Same l.name :=
      ⟨fun _ _ h hlk => h hlk.symm⟩
    have hij := hd.forall hi (List.mem_of_find?_eq_some hf) hne
    exact hij (hs.trans (same_of_find? hf).symm)

theorem find?_eq_none_iff {n : FileName} :
    c.find? n = none ↔ ∀ i ∈ c.instances, ¬ i.name.Same n := by
  simp [find?]

theorem put_kept (capacity : Option Nat) (past : List Instance) (serial : Nat) (n : FileName) :
    let r := (FilesCache.mk capacity (kept capacity (firsts past))).put serial n
    r.2 = ⟨capacity, kept capacity (firsts (past ++ [⟨r.1.serial, n⟩]))⟩ := by
  intro r
  cases hf : (FilesCache.mk capacity (kept capacity (firsts past))).find? n with
  | some i =>
    have hr : r = (i, _) := put_of_find? hf serial
    have hi := (kept_isPrefix capacity (firsts past)).mem (List.mem_of_find?_eq_some hf)
    rw [hr, firsts_concat, if_pos (exists_same_firsts_iff.1 ⟨i, hi, same_of_find? hf⟩)]
  | none =>
    have hr : r = (⟨serial, n⟩, _) := put_of_find?_eq_none hf serial
    rw [hr, firsts_concat]
    split
    · -- The name was put before and found no room then, so there is none now.
      rename_i hex
      have hfull : ¬ (FilesCache.mk capacity (kept capacity (firsts past))).hasRoom := by
        intro hroom
        obtain ⟨i, hi, hs⟩ := exists_same_firsts_iff.2 hex
        rw [← kept_of_hasRoom hroom] at hi
        exact find?_eq_none_iff.1 hf i hi hs
      exact if_neg hfull
    · exact add_kept capacity (firsts past) _

theorem mem_put {serial : Nat} {n : FileName} {i : Instance}
    (hi : i ∈ (c.put serial n).2.instances) : i ∈ c.instances ∨ i.serial = serial := by
  cases hf : c.find? n with
  | some j =>
    rw [put_of_find? hf] at hi
    exact .inl hi
  | none =>
    rw [put_of_find?_eq_none hf] at hi
    exact (mem_add hi).imp_right (congrArg Instance.serial)

theorem put_mem_put {serial : Nat} {n : FileName} (hroom : c.hasRoom = true) :
    (c.put serial n).1 ∈ (c.put serial n).2.instances := by
  cases hf : c.find? n with
  | some j =>
    rw [put_of_find? hf]
    exact List.mem_of_find?_eq_some hf
  | none =>
    rw [put_of_find?_eq_none hf, instances_add, if_pos hroom]
    exact List.mem_append_right _ (List.mem_singleton_self _)

theorem Numbered.eq_of_serial_eq {next : Nat} (hc : c.Numbered next) {i j : Instance}
    (hi : i ∈ c.instances) (hj : j ∈ c.instances) (he : i.serial = j.serial) : i = j := by
  have hsym : Std.Symm fun k l : Instance => k.serial ≠ l.serial := ⟨fun _ _ h => h.symm⟩
  have hne := hc.ascending.imp fun {k l} h => Nat.ne_of_lt h
  by_contra hij
  exact hne.forall hi hj hij he

theorem isPrefix_put (c : FilesCache) (serial : Nat) (n : FileName) :
    c.instances <+: (c.put serial n).2.instances := by
  cases hf : c.find? n with
  | some j =>
    exact put_of_find? hf serial ▸ List.prefix_refl _
  | none =>
    rw [put_of_find?_eq_none hf, instances_add]
    split
    · exact List.prefix_append _ _
    · exact List.prefix_refl _

end FilesCache

namespace Session
variable {s : Session} {h : Handle}

/-- A log of the names put into a cache since it was last emptied, each with the serial of
the instance that was the answer, after one more step. -/
def note (s : Session) (h : Handle) (past : List Instance) (st : Step) : List Instance :=
  if s.empties h st then []
  else
    match s.puts? h st, (s.step st).1 with
    | some n, .shown i => past ++ [⟨i.serial, n⟩]
    | _, _ => past

def given (s : Session) (h : Handle) (past : List Instance) : List Step → List Instance
  | [] => past
  | st :: steps => (s.step st).2.given h (s.note h past st) steps

def emptied (s : Session) (h : Handle) : List Step → Bool
  | [] => false
  | st :: steps => s.empties h st || (s.step st).2.emptied h steps

theorem cacheAt_step {capacity : Option Nat} {past : List Instance} (hh : h < s.caches.length)
    (hc : s.cacheAt h = ⟨capacity, kept capacity (firsts past)⟩) (st : Step) :
    (s.step st).2.cacheAt h = ⟨capacity, kept capacity (firsts (s.note h past st))⟩ := by
  obtain ⟨he, hst⟩ | ⟨he, n, hp, hput, hst⟩ | ⟨he, hp, hst⟩ := cacheAt_step_cases hh st
  · have hn : s.note h past st = [] := if_pos he
    rw [hst, hc, hn]
    exact congrArg (FilesCache.mk capacity) (kept_nil capacity).symm
  · have hn : s.note h past st = past ++ [⟨((s.cacheAt h).put s.created n).1.serial, n⟩] := by
      simp [note, he, hp, hput, putAt]
    rw [hst, hn, hc]
    exact FilesCache.put_kept capacity past s.created n
  · have hn : s.note h past st = past := by simp [note, he, hp]
    rw [hst, hn, hc]

theorem cacheAt_run {capacity : Option Nat} {past : List Instance} (hh : h < s.caches.length)
    (hc : s.cacheAt h = ⟨capacity, kept capacity (firsts past)⟩) (steps : List Step) :
    (s.run steps).cacheAt h = ⟨capacity, kept capacity (firsts (s.given h past steps))⟩ := by
  induction steps generalizing s past with
  | nil => exact hc
  | cons st steps ih =>
    exact ih (Nat.lt_of_lt_of_le hh (s.length_caches_le_step st)) (cacheAt_step hh hc st)

theorem mem_cacheAt_run (hh : h < s.caches.length) {steps : List Step} {i : Instance}
    (hi : i ∈ ((s.run steps).cacheAt h).instances) :
    (i ∈ (s.cacheAt h).instances ∧ s.emptied h steps = false) ∨ s.created ≤ i.serial := by
  induction steps generalizing s with
  | nil => exact .inl ⟨hi, rfl⟩
  | cons st steps ih =>
    rcases ih (Nat.lt_of_lt_of_le hh (s.length_caches_le_step st)) hi with ⟨hm, hrest⟩ | hle
    · obtain ⟨he, hst⟩ | ⟨he, n, -, -, hst⟩ | ⟨he, -, hst⟩ := cacheAt_step_cases hh st
      · rw [hst] at hm
        cases hm
      · rw [hst] at hm
        have hno : s.emptied h (st :: steps) = false := by simp [emptied, he, hrest]
        exact (FilesCache.mem_put hm).imp (fun hm => ⟨hm, hno⟩) (fun hs => Nat.le_of_eq hs.symm)
      · rw [hst] at hm
        exact .inl ⟨hm, by simp [emptied, he, hrest]⟩
    · exact .inr (Nat.le_trans (s.created_le_step st) hle)

theorem mem_cacheAt_run_of_not_emptied (hh : h < s.caches.length) {steps : List Step}
    (he : s.emptied h steps = false) {i : Instance} (hi : i ∈ (s.cacheAt h).instances) :
    i ∈ ((s.run steps).cacheAt h).instances := by
  induction steps generalizing s with
  | nil => exact hi
  | cons st steps ih =>
    obtain ⟨hst, hrest⟩ := Bool.or_eq_false_iff.1 he
    refine ih (Nat.lt_of_lt_of_le hh (s.length_caches_le_step st)) hrest ?_
    obtain ⟨he', -⟩ | ⟨-, n, -, -, hc⟩ | ⟨-, -, hc⟩ := cacheAt_step_cases hh st
    · rw [hst] at he'
      cases he'
    · rw [hc]
      exact (FilesCache.isPrefix_put _ _ _).mem hi
    · rw [hc]
      exact hi

/-- In this session a cache behaves as a list of instances. -/
structure Lists (s : Session) (h : Handle) (capacity : Option Nat) (l : List Instance) :
    Prop where
  size : (s.cacheAt h).size = l.length
  within : ∀ m, capacity = some m → l.length ≤ m
  distinct : l.Pairwise fun i j => ¬ i.name.Same j.name
  get_listed : ∀ i ∈ l, ∀ n, i.name.Same n → s.step (.get (some h) n) = (.shown i, s)
  get_unlisted : ∀ n, (∀ i ∈ l, ¬ i.name.Same n) → s.step (.get (some h) n) = (.absent, s)
  put_listed : ∀ i ∈ l, ∀ n, i.name.Same n → s.step (.put (some h) n) = (.shown i, s)
  put_unlisted : ∀ n, (∀ i ∈ l, ¬ i.name.Same n) →
    (s.step (.put (some h) n)).1 = .shown ⟨s.created, n⟩ ∧
      ((s.step (.put (some h) n)).2.cacheAt h).instances =
        if capacity.all (l.length < ·) then l ++ [⟨s.created, n⟩] else l

theorem getAt_of_find? {n : FileName} {o : Option Instance} (hf : (s.cacheAt h).find? n = o) :
    s.getAt h n = o.elim .absent .shown := by
  rw [getAt, hf]
  cases o <;> rfl

theorem lists_of_cacheAt (hh : h < s.caches.length) {capacity : Option Nat}
    {past : List Instance} (hc : s.cacheAt h = ⟨capacity, kept capacity (firsts past)⟩) :
    s.Lists h capacity (kept capacity (firsts past)) := by
  have hl : (s.cacheAt h).instances = kept capacity (firsts past) := by rw [hc]
  have hd : (s.cacheAt h).instances.Pairwise fun i j => ¬ i.name.Same j.name := by
    rw [hl]
    exact (firsts_distinct past).sublist (kept_isPrefix capacity _).sublist
  have hit : ∀ i ∈ kept capacity (firsts past), ∀ n, i.name.Same n →
      (s.cacheAt h).find? n = some i :=
    fun i hi n hs => FilesCache.find?_of_mem hd (hl ▸ hi) hs
  have miss : ∀ n, (∀ i ∈ kept capacity (firsts past), ¬ i.name.Same n) →
      (s.cacheAt h).find? n = none :=
    fun n hn => FilesCache.find?_eq_none_iff.2 (hl ▸ hn)
  refine ⟨congrArg List.length hl, fun m hm => length_kept_le hm, hl ▸ hd, ?_, ?_, ?_, ?_⟩
  · intro i hi n hs
    exact congrArg (·, s) (getAt_of_find? (hit i hi n hs))
  · intro n hn
    exact congrArg (·, s) (getAt_of_find? (miss n hn))
  · intro i hi n hs
    exact putAt_of_find? (hit i hi n hs)
  · intro n hn
    have hput := FilesCache.put_of_find?_eq_none (miss n hn) s.created
    have hroom : (s.cacheAt h).hasRoom =
        capacity.all ((kept capacity (firsts past)).length < ·) := by
      rw [hc]
      cases capacity <;> rfl
    constructor
    · exact congrArg (fun r => Outcome.shown r.1) hput
    · have hca : (s.step (.put (some h) n)).2.cacheAt h =
          ((s.cacheAt h).put s.created n).2 := cacheAt_setCache hh _
      rw [hca, hput, FilesCache.instances_add, hroom, hl]

theorem emptied_append (s : Session) (h : Handle) (before after : List Step) :
    s.emptied h (before ++ after) = (s.emptied h before || (s.run before).emptied h after) := by
  induction before generalizing s with
  | nil => rfl
  | cons st before ih => rw [List.cons_append, emptied, emptied, ih, run_cons, Bool.or_assoc]

theorem mem_cacheAt_putAt (hh : h < s.caches.length) (hroom : (s.cacheAt h).hasRoom = true)
    {n : FileName} {i : Instance} (hi : (s.putAt h n).1 = .shown i) :
    i ∈ ((s.putAt h n).2.cacheAt h).instances := by
  have hc : (s.putAt h n).2.cacheAt h = ((s.cacheAt h).put s.created n).2 := cacheAt_setCache hh _
  obtain rfl : ((s.cacheAt h).put s.created n).1 = i := Outcome.shown.inj hi
  rw [hc]
  exact FilesCache.put_mem_put hroom

theorem puts_share_iff (hs : s.Numbered) (hh : h < s.caches.length) {past : List Instance}
    (hc : s.cacheAt h = ⟨none, firsts past⟩) (between : List Step) (n m : FileName) :
    let p := s.step (.put (some h) n)
    let q := (p.2.run between).step (.put (some h) m)
    ∃ a b, p.1 = .shown a ∧ q.1 = .shown b ∧
      (a = b ↔ n.Same m ∧ p.2.emptied h between = false) ∧ (a.serial = b.serial → a = b) := by
  intro p q
  obtain ⟨a, ha, han⟩ := s.exists_shown_putAt h n
  obtain ⟨b, hb, hbm⟩ := (p.2.run between).exists_shown_putAt h m
  have hp : h < p.2.caches.length := Nat.lt_of_lt_of_le hh (s.length_caches_le_step _)
  have hpc : p.2.cacheAt h = ⟨none, kept none (firsts (s.note h past (.put (some h) n)))⟩ :=
    cacheAt_step hh hc _
  have ht : h < (p.2.run between).caches.length :=
    Nat.lt_of_lt_of_le hp (p.2.length_caches_le_run between)
  have htc := cacheAt_run hp hpc between
  have ham : a ∈ (p.2.cacheAt h).instances :=
    mem_cacheAt_putAt hh (by rw [hc]; rfl) ha
  -- The second put ends a longer run: hit or miss, what it shows is held there.
  have hbq : b ∈ ((p.2.run (between ++ [.put (some h) m])).cacheAt h).instances := by
    rw [run_append]
    exact mem_cacheAt_putAt ht (by rw [htc]; rfl) hb
  have shared : a.serial = b.serial → a = b ∧ p.2.emptied h between = false := by
    intro he
    have hlt : a.serial < p.2.created := hs.serial_lt ha
    obtain ⟨hbp, hno⟩ := (mem_cacheAt_run hp hbq).resolve_right
      (Nat.not_le_of_lt (he ▸ hlt))
    rw [emptied_append, Bool.or_eq_false_iff] at hno
    exact ⟨((hs.step _).cacheAt h).eq_of_serial_eq ham hbp he, hno.1⟩
  refine ⟨a, b, ha, hb, ⟨?_, ?_⟩, fun he => (shared he).1⟩
  · rintro rfl
    exact ⟨han.symm.trans hbm, (shared rfl).2⟩
  · rintro ⟨hnm, hno⟩
    have hat := mem_cacheAt_run_of_not_emptied hp hno ham
    rw [htc] at hat
    have hq := (lists_of_cacheAt ht htc).put_listed a hat m (han.trans hnm)
    exact Outcome.shown.inj ((congrArg Prod.fst hq).symm.trans hb)

/-- A cache of a session, made empty, is the list of the first unequal names put into it. -/
theorem lists_first_names (first : Option Nat) (scope : Scope) (earlier steps : List Step)
    (h : Handle) (capacity : Option Nat)
    (hc : ((start (.empty first) scope).run earlier).caches[h]? = some (.empty capacity)) :
    let s := (start (.empty first) scope).run earlier
    let t := s.run steps
    t.Lists h capacity (kept capacity (firsts (s.given h [] steps))) ∧
      (∀ i ∈ (start (.empty first) scope).shown (earlier ++ steps), i.serial ≠ t.created) ∧
      (capacity = none → ∀ (between : List Step) (n m : FileName),
        let p := t.step (.put (some h) n)
        let q := (p.2.run between).step (.put (some h) m)
        ∃ a b, p.1 = .shown a ∧ q.1 = .shown b ∧
          (a = b ↔ n.Same m ∧ p.2.emptied h between = false) ∧
          (a.serial = b.serial → a = b)) := by
  intro s t
  obtain ⟨hh, -⟩ := List.getElem?_eq_some_iff.1 hc
  have hempty : s.cacheAt h = ⟨capacity, kept capacity (firsts [])⟩ := by
    rw [cacheAt, List.getD_eq_getElem?_getD, hc]
    exact congrArg (FilesCache.mk capacity) (kept_nil capacity).symm
  have ht : h < t.caches.length := Nat.lt_of_lt_of_le hh (s.length_caches_le_run steps)
  have hn := numbered_start first scope
  have htc := cacheAt_run hh hempty steps
  refine ⟨lists_of_cacheAt ht htc, ?_, ?_⟩
  · intro i hi
    have hlt := hn.serial_lt_run hi
    rw [run_append] at hlt
    exact Nat.ne_of_lt hlt
  · rintro rfl between n m
    exact puts_share_iff ((hn.run earlier).run steps) ht htc between n m

theorem lists_first_names_after_clear :
    let file (path : String) : FileName := ⟨"file".toList, path.toList, .rooted ['/']⟩
    let opened (capacity : Option Nat) : Session :=
      (start (.empty none) .fileSystem).run [.newCache capacity]
    let puts : List Step := [.put (some 1) (file "/a"), .put (some 1) (file "/b"),
      .clear (some 1), .put (some 1) (file "/b"), .put (some 1) (file "/a")]
    ((opened (some 1)).run puts).Lists 1 (some 1) [⟨2, file "/b"⟩] ∧
      ((opened none).run puts).Lists 1 none [⟨2, file "/b"⟩, ⟨3, file "/a"⟩] := by
  intro file opened puts
  have limited : ((opened (some 1)).run puts).Lists 1 (some 1)
      (kept (some 1) (firsts ((opened (some 1)).given 1 [] puts))) :=
    (lists_first_names none .fileSystem [.newCache (some 1)] puts 1 (some 1) rfl).1
  have free : ((opened none).run puts).Lists 1 none
      (kept none (firsts ((opened none).given 1 [] puts))) :=
    (lists_first_names none .fileSystem [.newCache none] puts 1 none rfl).1
  have hlimited : kept (some 1) (firsts ((opened (some 1)).given 1 [] puts)) =
      [⟨2, file "/b"⟩] := by decide
  have hfree : kept none (firsts ((opened none).given 1 [] puts)) =
      [⟨2, file "/b"⟩, ⟨3, file "/a"⟩] := by decide
  rw [hlimited] at limited
  rw [hfree] at free
  exact ⟨limited, free⟩

end Session
end FileNaming
