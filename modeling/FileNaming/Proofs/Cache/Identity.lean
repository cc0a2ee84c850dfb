import FileNaming.Proofs.Cache.Step
import FileNaming.Proofs.FileName.Identity

/-! Whose name a resolution answers with. The attached cache answers with the instance it
holds of an equal name, and equal names may differ in their passwords: the identity data
of the base is kept only while no equal name with other identity data came in before. -/

namespace FileNaming

def Step.Over (P : FileName → Prop) : Step → Prop
  | .resolve base _ _ => P base
  | .put _ n => P n
  | .get _ n => P n
  | _ => True

def FileName.Lasting (P : FileName → Prop) : Prop :=
  ∀ {n m : FileName} {name : Text} {scope : Scope}, P n → n.resolve name scope = .ok m → P m

namespace Session
variable {P : FileName → Prop} {s : Session} {base n : FileName} {name : Text} {scope : Scope}

def ReachedBy (P : FileName → Prop) (s : Session) : Prop :=
  ∃ first default history, (∀ st ∈ history, Step.Over P st) ∧
    (start (.empty first) default).run history = s

def Answers (s : Session) (base : FileName) (name : Text) (scope : Scope) (i : Instance) :
    Prop :=
  (s.step (.resolve base name (some scope))).1 = .shown i

theorem holds_of_puts? (hP : FileName.Lasting P) {st : Step} (hst : st.Over P) {h : Handle}
    (hp : s.puts? h st = some n) : P n := by
  cases st with
  | put k m =>
    obtain ⟨-, hm⟩ := Option.ite_none_right_eq_some.1 hp
    rw [← Option.some.inj hm]
    exact hst
  | resolve base name scope =>
    exact hP hst (puts?_resolve_eq_some_iff.1 hp).2
  | _ => cases hp

theorem carried_names (P : FileName → Prop) :
    Carried P fun _ c => ∀ i ∈ c.instances, P i.name := by
  refine ⟨fun _ c hc i hi => ?_, fun _ _ h => h, fun next c n hn hc i hi => ?_⟩
  · rw [hc] at hi
    cases hi
  · rcases FilesCache.mem_add hi with hi | rfl
    · exact hc i hi
    · exact hn

theorem ReachedBy.held (hs : s.ReachedBy P) (hP : FileName.Lasting P) {h : Handle} :
    ∀ i ∈ (s.cacheAt h).instances, P i.name := by
  obtain ⟨first, default, history, hover, rfl⟩ := hs
  have hstart := (carried_names P).start first default
  have hrun := (carried_names P).run hstart fun st hst _ _ _ hp =>
    holds_of_puts? hP (hover st hst) hp
  exact (carried_names P).cacheAt hrun h

theorem answers_cases (s : Session) (hn : base.resolve name scope = .ok n) :
    ∃ i, s.Answers base name scope i ∧
      ((i ∈ s.attachedCache.instances ∧ s.attachedCache.find? n = some i) ∨
        s.attachedCache.find? n = none ∧ i.name = n) := by
  have hr : s.step (.resolve base name (some scope)) = s.putAt s.attached n := resolve_of_ok hn
  obtain ⟨i, hi, hf, hp⟩ | ⟨hf, hp⟩ := s.putAt_cases s.attached n
  · exact ⟨i, congrArg Prod.fst (hr.trans hp), .inl ⟨hi, hf⟩⟩
  · exact ⟨⟨s.created, n⟩, congrArg Prod.fst (hr.trans hp), .inr ⟨hf, rfl⟩⟩

theorem Answers.inj {i j : Instance} (hi : s.Answers base name scope i)
    (hj : s.Answers base name scope j) : i = j :=
  Outcome.shown.inj (hi.symm.trans hj)

theorem exists_reachedBy_answers (hn : base.resolve name scope = .ok n) {m : FileName}
    (hm : P m) (hs : m.Same n) :
    ∃ s : Session, s.ReachedBy P ∧ s.Answers base name scope ⟨0, m⟩ := by
  let history : List Step := [.newCache none, .attach 1, .put none m]
  have hover : ∀ st ∈ history, st.Over P := by
    simp [history, Step.Over, hm]
  refine ⟨_, ⟨none, scope, history, hover, rfl⟩, ?_⟩
  have hheld : ((start (.empty none) scope).run history).attachedCache = ⟨none, [⟨0, m⟩]⟩ := rfl
  have hf : ((start (.empty none) scope).run history).attachedCache.find? n = some ⟨0, m⟩ := by
    rw [hheld]
    simp [FilesCache.find?, hs]
  have hr : ((start (.empty none) scope).run history).step (.resolve base name (some scope)) =
      ((start (.empty none) scope).run history).putAt _ n := resolve_of_ok hn
  rw [Answers, hr, putAt_of_find? hf]

theorem forall_answers_identity_iff (hP : FileName.Lasting P)
    (hn : base.resolve name scope = .ok n) :
    (∀ s : Session, s.ReachedBy P → ∃ i, s.Answers base name scope i ∧
        i.name.backend.identity = base.backend.identity) ↔
      ∀ m, P m → m.Same n → m.backend.identity = base.backend.identity := by
  constructor
  · intro h m hm hs
    obtain ⟨s, hreach, ha⟩ := exists_reachedBy_answers hn hm hs
    obtain ⟨i, hi, hid⟩ := h s hreach
    rw [hi.inj ha] at hid
    exact hid
  · intro h s hs
    obtain ⟨i, hi, ⟨hheld, hf⟩ | ⟨-, rfl⟩⟩ := s.answers_cases hn
    · exact ⟨i, hi, h i.name (hs.held hP i hheld) (FilesCache.same_of_find? hf)⟩
    · exact ⟨i, hi, congrArg Backend.identity (FileName.backend_of_resolve hn).1⟩

/-- A resolution is answered with a name that equals the resolved one. It has the identity
data of the base exactly if no equal name with other identity data is held. Among names
whose URIs can be read back the passwords alone can be those of another name, and they
are kept in every history exactly if the base has none. -/
theorem answers_identity_iff (hn : base.resolve name scope = .ok n) :
    (∀ s : Session, ∃ i, s.Answers base name scope i ∧ i.name.Same n ∧
      (i.name.backend.identity = base.backend.identity ↔
        ∀ j, s.attachedCache.find? n = some j →
          j.name.backend.identity = base.backend.identity)) ∧
    (∀ P : FileName → Prop, FileName.Lasting P →
      ((∀ s : Session, s.ReachedBy P → ∃ i, s.Answers base name scope i ∧
          i.name.backend.identity = base.backend.identity) ↔
        ∀ m, P m → m.Same n → m.backend.identity = base.backend.identity)) ∧
    (base.Readable →
      (∀ s : Session, s.ReachedBy FileName.Readable → ∃ i, s.Answers base name scope i ∧
        i.name.backend.identity.conceal = base.backend.identity.conceal) ∧
      ((∀ s : Session, s.ReachedBy FileName.Readable → ∃ i, s.Answers base name scope i ∧
          i.name.backend.identity = base.backend.identity) ↔
        base.backend.guarded = false)) := by
  have hb : n.backend = base.backend := (FileName.backend_of_resolve hn).1
  have hlast : FileName.Lasting FileName.Readable := fun h hm => h.resolve hm
  refine ⟨fun s => ?_, fun P hP => forall_answers_identity_iff hP hn, fun hbase => ⟨?_, ?_⟩⟩
  · obtain ⟨i, hi, ⟨-, hf⟩ | ⟨hf, rfl⟩⟩ := s.answers_cases hn
    · refine ⟨i, hi, FilesCache.same_of_find? hf, fun hid j hj => ?_, fun h => h i hf⟩
      rw [hf] at hj
      rw [← Option.some.inj hj]
      exact hid
    · refine ⟨i, hi, rfl, fun _ j hj => ?_, fun _ => congrArg Backend.identity hb⟩
      rw [hf] at hj
      cases hj
  · intro s hs
    have hread : n.Readable := hbase.resolve hn
    obtain ⟨i, hi, ⟨hheld, hf⟩ | ⟨-, rfl⟩⟩ := s.answers_cases hn
    · have hc := (hs.held hlast i hheld).identity_conceal_eq hread (FilesCache.same_of_find? hf)
      rw [hb] at hc
      exact ⟨i, hi, hc⟩
    · exact ⟨i, hi, by rw [hb]⟩
  · rw [forall_answers_identity_iff hlast hn, ← hb]
    exact (hbase.resolve hn).forall_same_identity_iff

theorem answers_identity_iff_other_password :
    ∃ base other n, FileName.ofUri "ftp://bob:two@h/".toList = .ok base ∧
      FileName.ofUri "ftp://bob:one@h/a".toList = .ok other ∧
      base.resolve "a".toList .fileSystem = .ok n ∧
      (∃ i, ((start (.empty (some 1)) .fileSystem).run [.put none other]).Answers base "a".toList
        .fileSystem i ∧ i.name.Same n ∧ i.name.backend.identity ≠ base.backend.identity) ∧
      ¬ ∀ s : Session, s.ReachedBy FileName.Readable → ∃ i,
        s.Answers base "a".toList .fileSystem i ∧
          i.name.backend.identity = base.backend.identity := by
  let host (password : String) : Backend :=
    .hosted ⟨"h".toList, none, some 21, some ⟨"bob".toList, some password.toList⟩⟩
  let base : FileName := ⟨"ftp".toList, "/".toList, host "two"⟩
  let other : FileName := ⟨"ftp".toList, "/a".toList, host "one"⟩
  have hport : Scheme.kind? "ftp".toList = some (.hosted 21) := rfl
  have hcut : Scheme.cut "ftp://bob:two@h/".toList = some ("ftp".toList, "//bob:two@h/".toList) :=
    rfl
  have hbase : FileName.ofUri "ftp://bob:two@h/".toList = .ok base :=
    FileName.ofUri_of_hosted hcut hport
  have hcut : Scheme.cut "ftp://bob:one@h/a".toList = some ("ftp".toList, "//bob:one@h/a".toList) :=
    rfl
  have hother : FileName.ofUri "ftp://bob:one@h/a".toList = .ok other :=
    FileName.ofUri_of_hosted hcut hport
  have hn : base.resolve "a".toList .fileSystem = .ok (base.withPath "/a".toList) := rfl
  have hread : base.Readable := ⟨FileName.valid_of_ofUri hbase, by decide⟩
  have hheld : ((start (.empty (some 1)) .fileSystem).run [.put none other]).attachedCache.find?
      (base.withPath "/a".toList) = some ⟨0, other⟩ := by decide
  have hne : other.backend.identity ≠ base.backend.identity := by decide
  have hiff := answers_identity_iff hn
  obtain ⟨i, hi, hs, hid⟩ := hiff.1 ((start (.empty (some 1)) .fileSystem).run [.put none other])
  exact ⟨base, other, _, hbase, hother, hn, ⟨i, hi, hs, fun h => hne (hid.1 h _ hheld)⟩,
    fun h => absurd ((hiff.2.2 hread).2.1 h) (by decide)⟩

end Session
end FileNaming
