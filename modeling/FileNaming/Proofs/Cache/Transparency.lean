import FileNaming.Cache.Session

/-! A cache answers with an instance of the name that was asked for, and resolving
through the attached cache is resolving without one and then putting the name into
it. No other cache is touched, and a name that is not resolved leaves no trace. -/

namespace FileNaming

namespace FilesCache

theorem same_of_find? {c : FilesCache} {n : FileName} {i : Instance} (h : c.find? n = some i) :
    i.name.Same n := by
  have hs := List.find?_some h
  exact of_decide_eq_true hs

theorem put_of_find? {c : FilesCache} {n : FileName} {i : Instance} (h : c.find? n = some i)
    (serial : Nat) : c.put serial n = (i, c) := by
  rw [put, h]

theorem same_of_put (c : FilesCache) (serial : Nat) (n : FileName) :
    (c.put serial n).1.name.Same n := by
  cases h : c.find? n with
  | some i =>
    rw [put_of_find? h]
    exact same_of_find? h
  | none =>
    rw [put, h]
    rfl

end FilesCache

namespace Session

theorem setCache_cacheAt (s : Session) (h : Handle) : s.setCache h (s.cacheAt h) = s := by
  have hset : s.caches.set h (s.cacheAt h) = s.caches := by
    by_cases hlt : h < s.caches.length
    · rw [cacheAt, ← List.getElem_eq_getD (h := hlt), List.set_getElem_self]
    · exact List.set_eq_of_length_le (Nat.le_of_not_lt hlt)
  rw [setCache, hset]

theorem cacheAt_setCache_of_ne {h k : Handle} (hne : k ≠ h) (s : Session) (c : FilesCache) :
    (s.setCache h c).cacheAt k = s.cacheAt k := by
  simp only [cacheAt, setCache, List.getD_eq_getElem?_getD, List.getElem?_set_ne (Ne.symm hne)]

theorem putAt_of_find? {s : Session} {h : Handle} {n : FileName} {i : Instance}
    (hi : (s.cacheAt h).find? n = some i) : s.putAt h n = (.shown i, s) := by
  simp only [putAt, FilesCache.put_of_find? hi, createdBy, hi, setCache_cacheAt,
    Option.isSome_some, if_true]

theorem exists_shown_putAt (s : Session) (h : Handle) (n : FileName) :
    ∃ i, (s.putAt h n).1 = .shown i ∧ i.name.Same n :=
  ⟨_, rfl, FilesCache.same_of_put (s.cacheAt h) s.created n⟩

theorem cacheAt_putAt_of_ne {h k : Handle} (hne : k ≠ h) (s : Session) (n : FileName) :
    (s.putAt h n).2.cacheAt k = s.cacheAt k :=
  cacheAt_setCache_of_ne hne s _

section Resolve
variable {s : Session} {base : FileName} {name : Text} {scope : Option Scope}

theorem resolve_of_error {e : NameError}
    (h : base.resolve name (scope.getD s.defaultScope) = .error e) :
    s.resolve base name scope = (.failed e, s) := by
  rw [resolve, h]

theorem resolve_of_ok {n : FileName}
    (h : base.resolve name (scope.getD s.defaultScope) = .ok n) :
    s.resolve base name scope = s.putAt s.attached n := by
  rw [resolve, h]
  dsimp only
  split
  · rename_i i hi
    exact (putAt_of_find? hi).symm
  · rfl

end Resolve
end Session
end FileNaming
