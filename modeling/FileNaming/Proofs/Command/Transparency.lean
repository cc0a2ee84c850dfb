import FileNaming.Command.Run
import FileNaming.Proofs.Cache.Transparency

/-! What a command gives depends on the session only through its default scope: names
are shown by their URIs, and equal names have the same one, whichever instance the
cache answers with. -/

namespace FileNaming.Command

theorem shownUri_resolve (s : Session) (b : FileName) (name : Text) (scope : Option Scope) :
    shownUri (s.resolve b name scope).1 =
      ((b.resolve name (scope.getD s.defaultScope)).map FileName.uri).mapError .name := by
  cases h : b.resolve name (scope.getD s.defaultScope) with
  | error e =>
    rw [Session.resolve_of_error h]
    rfl
  | ok n =>
    obtain ⟨i, hi, hs⟩ := s.exists_shown_putAt s.attached n
    rw [Session.resolve_of_ok h, hi]
    exact congrArg Except.ok hs.uri_eq

theorem run_eq_of_defaultScope {s s' : Session} (h : s.defaultScope = s'.defaultScope)
    (c : Command) : (c.run s).1 = (c.run s').1 := by
  cases c with
  | resolve base name scope =>
    show (runResolve s base name scope).1 = (runResolve s' base name scope).1
    unfold runResolve
    cases FileName.ofUri base with
    | error e => rfl
    | ok b =>
      dsimp only
      cases readScope scope with
      | error e => rfl
      | ok scope =>
        dsimp only
        rw [shownUri_resolve, shownUri_resolve, h]
  | relative start target => rfl
  | info uri => rfl
  | help => rfl
  | unknown line => rfl

/-- Caches cannot be seen. In a session with any caches in any state, a name that does
not resolve fails in the same way and changes nothing. One that does is shown as an
equal name, and the session goes on as if the resolved name had been put into the
attached cache, with the other caches as they were. So commands give the same in all
sessions of one default scope. -/
theorem resolve_transparent (s : Session) :
    (∀ (base : FileName) (name : Text) (scope : Option Scope),
      (∀ e, base.resolve name (scope.getD s.defaultScope) = .error e →
        s.step (.resolve base name scope) = (.failed e, s)) ∧
      ∀ n, base.resolve name (scope.getD s.defaultScope) = .ok n →
        s.step (.resolve base name scope) = s.step (.put none n) ∧
        (∃ i, (s.step (.resolve base name scope)).1 = .shown i ∧ i.name.Same n ∧
          i.name.uri = n.uri) ∧
        ∀ h, h ≠ s.attached →
          (s.step (.resolve base name scope)).2.cacheAt h = s.cacheAt h) ∧
    ∀ (s' : Session) (c : Command), s.defaultScope = s'.defaultScope →
      (c.run s).1 = (c.run s').1 := by
  refine ⟨fun base name scope => ⟨fun e h => Session.resolve_of_error h, fun n h => ?_⟩,
    fun s' c h => run_eq_of_defaultScope h c⟩
  have hput : s.step (.resolve base name scope) = s.putAt s.attached n := Session.resolve_of_ok h
  obtain ⟨i, hi, hs⟩ := s.exists_shown_putAt s.attached n
  rw [hput]
  exact ⟨rfl, ⟨i, hi, hs, hs.uri_eq⟩, fun h hne => Session.cacheAt_putAt_of_ne hne s n⟩

theorem resolve_transparent_full_cache :
    ∃ i, (Session.step ⟨[⟨some 1, [⟨0, ⟨"ftp".toList, "/a".toList,
        .hosted ⟨"h".toList, some 21, some 21, none⟩⟩⟩]⟩], 0, true, .fileSystem, 1⟩
        (.resolve ⟨"ftp".toList, "/".toList, .hosted ⟨"h".toList, none, some 21, none⟩⟩
          "x/../a".toList none)).1 = .shown i ∧
      i.name ≠ ⟨"ftp".toList, "/a".toList, .hosted ⟨"h".toList, none, some 21, none⟩⟩ ∧
      i.name.uri = "ftp://h/a".toList := by
  obtain ⟨-, ⟨i, hi, -, hu⟩, -⟩ := ((resolve_transparent ⟨[⟨some 1, [⟨0, ⟨"ftp".toList,
      "/a".toList, .hosted ⟨"h".toList, some 21, some 21, none⟩⟩⟩]⟩], 0, true, .fileSystem,
      1⟩).1 ⟨"ftp".toList, "/".toList, .hosted ⟨"h".toList, none, some 21, none⟩⟩
      "x/../a".toList none).2
    ⟨"ftp".toList, "/a".toList, .hosted ⟨"h".toList, none, some 21, none⟩⟩ rfl
  refine ⟨i, hi, ?_, hu⟩
  cases hi
  decide

end FileNaming.Command
