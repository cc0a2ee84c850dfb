import FileNaming.Proofs.Settings.Effective
import FileNaming.Proofs.Settings.Reading
import FileNaming.Proofs.Settings.Standard

/-! Loading settings. The three values that count are read, each on its own, and
what they give is checked together, so a layer may repair or break what another one
has. -/

namespace FileNaming

namespace Settings

def Conflicting (s : Settings) : Prop :=
  s.maxEntries = some 0 ∨ s.kind = .null ∧ s.maxEntries ≠ none

instance (s : Settings) : Decidable s.Conflicting :=
  inferInstanceAs (Decidable (_ ∨ _))

theorem conflict?_eq_none_iff {s : Settings} : s.conflict? = none ↔ ¬ s.Conflicting := by
  unfold conflict? Conflicting
  split
  · simp [*]
  · split <;> simp_all [Option.isSome_iff_ne_none]

theorem check_cases (s : Settings) :
    s.Conflicting ∧ (∃ c, s.check = .error (.invalid c)) ∨
      ¬ s.Conflicting ∧ s.check = .ok s := by
  unfold check
  cases hc : s.conflict? with
  | none => exact .inr ⟨conflict?_eq_none_iff.1 hc, rfl⟩
  | some c =>
    have hs : s.Conflicting := Decidable.byContradiction fun hn => by
      rw [conflict?_eq_none_iff.2 hn] at hc
      cases hc
    exact .inl ⟨hs, c, rfl⟩

theorem session_keeps {s : Settings} (h : s.capacity ≠ some 0) (n : FileName) :
    ((s.session.step (.put none n)).2.step (.get none n)).1 = .shown ⟨0, n⟩ := by
  have hroom : (FilesCache.empty s.capacity).hasRoom = true := by
    unfold FilesCache.hasRoom
    split
    · rfl
    · rename_i m hm
      have hpos : 0 < m := Nat.pos_of_ne_zero fun h0 => h (h0 ▸ hm)
      exact decide_eq_true hpos
  have hput : (FilesCache.empty s.capacity).put 0 n = (⟨0, n⟩, ⟨s.capacity, [⟨0, n⟩]⟩) := by
    show (_, (FilesCache.empty s.capacity).add ⟨0, n⟩) = _
    rw [FilesCache.add, if_pos hroom]
    rfl
  have hfind : ((s.session.step (.put none n)).2.cacheAt 0).find? n = some ⟨0, n⟩ := by
    show ((FilesCache.empty s.capacity).put 0 n).2.find? n = _
    rw [hput]
    exact List.find?_cons_of_pos (decide_eq_true rfl)
  show (s.session.step (.put none n)).2.getAt 0 n = _
  rw [Session.getAt, hfind]

end Settings

namespace Loader

section Lawful
variable {l : Loader} {file : Option Text} {es : List (Text × Value)}
  {environment : List (Text × Text)} (hl : l.Lawful)
  (hfile : file.elim (some []) l.file? = some es) (hplain : ∀ e ∈ es, Layer.PlainKey e.1)
  (hcache : ∀ v, es.lookup "cache".toList = some v → ∃ entries, v = .table entries)
  (he : Environment.Regular environment)
include hl hfile hplain hcache he

theorem Lawful.load_cases :
    ((∃ fault, l.load file environment = .error (.load fault)) ∧
        ∀ s, ¬ l.Reads (Setting.effective es environment) s) ∨
      ∃ s₀, (∀ s, l.Reads (Setting.effective es environment) s ↔ s = s₀) ∧
        l.load file environment = s₀.check := by
  have hd : (Value.table es).Distinct := by
    cases file with
    | none =>
      cases hfile
      exact .table List.nodup_nil (by simp)
    | some t => exact hl.file_distinct t es hfile
  have hat := hl.at?_build hd hplain hcache he
  have hvalue : (fun k : Setting => (Value.at? k.path (l.build Settings.defaults
      [es, l.environment environment])).getD .missing) = Setting.effective es environment :=
    funext fun k => (hat k).1
  have hreads : ∀ s, l.deserialize (l.build Settings.defaults [es, l.environment environment]) =
      .ok s ↔ l.Reads (Setting.effective es environment) s := by
    intro s
    rw [hl.converts_alone _ s fun k => (hat k).2, hvalue, hl.reads_iff]
  have hload : l.load file environment = l.ofSources [es, l.environment environment] := by
    rw [load, hfile]
  rw [hload, ofSources]
  cases h : l.deserialize (l.build Settings.defaults [es, l.environment environment]) with
  | error fault =>
    refine .inl ⟨⟨fault, rfl⟩, fun s hs => ?_⟩
    rw [← hreads, h] at hs
    cases hs
  | ok s₀ =>
    refine .inr ⟨s₀, fun s => ?_, rfl⟩
    rw [← hreads, h, Except.ok.injEq, eq_comm]

theorem Lawful.load_eq_ok_iff (s : Settings) : l.load file environment = .ok s ↔
    l.Reads (Setting.effective es environment) s ∧ ¬ s.Conflicting := by
  obtain ⟨⟨fault, h⟩, hn⟩ | ⟨s₀, hs₀, h⟩ := hl.load_cases hfile hplain hcache he
  · simp [h, hn]
  · obtain ⟨hc, c, hcheck⟩ | ⟨hc, hcheck⟩ := s₀.check_cases
    · rw [h, hcheck, hs₀]
      refine iff_of_false (fun h => by cases h) ?_
      rintro ⟨rfl, hn⟩
      exact hn hc
    · rw [h, hcheck, hs₀, Except.ok.injEq, eq_comm]
      exact ⟨fun h => ⟨h, h ▸ hc⟩, And.left⟩

theorem Lawful.load_eq_invalid_iff :
    (∃ c, l.load file environment = .error (.invalid c)) ↔
      ∃ s, l.Reads (Setting.effective es environment) s ∧ s.Conflicting := by
  obtain ⟨⟨fault, h⟩, hn⟩ | ⟨s₀, hs₀, h⟩ := hl.load_cases hfile hplain hcache he
  · simp [h, hn]
  · simp only [hs₀, exists_eq_left, h]
    obtain ⟨hc, c, hcheck⟩ | ⟨hc, hcheck⟩ := s₀.check_cases
    · exact iff_of_true ⟨c, hcheck⟩ hc
    · simp [hcheck, hc]

theorem Lawful.load_eq_load_iff :
    (∃ fault, l.load file environment = .error (.load fault)) ↔
      ∃ k, ¬ l.Accepts (Setting.effective es environment k) k := by
  rw [← Classical.not_forall, ← exists_reads_iff]
  obtain ⟨h, hn⟩ | ⟨s₀, hs₀, h⟩ := hl.load_cases hfile hplain hcache he
  · exact iff_of_true h fun ⟨s, hs⟩ => hn s hs
  · refine iff_of_false ?_ fun hn => hn ⟨s₀, (hs₀ s₀).2 rfl⟩
    rw [h]
    obtain ⟨-, c, hcheck⟩ | ⟨-, hcheck⟩ := s₀.check_cases <;> simp [hcheck]

/-- With every library that keeps the laws, the value of the environment counts for each
key, or else that of the file, or else the default. Settings are refused on loading exactly
if such a value cannot be read, and as invalid exactly if all can and do not fit together;
otherwise they are those values. A cache of the default kind keeps names then. -/
theorem load_key_by_key :
    ((∃ fault, l.load file environment = .error (.load fault)) ↔
      ∃ k, ¬ l.Accepts (Setting.effective es environment k) k) ∧
    ((∃ c, l.load file environment = .error (.invalid c)) ↔
      ∃ s, l.Reads (Setting.effective es environment) s ∧ s.Conflicting) ∧
    (∀ s, l.load file environment = .ok s ↔
      l.Reads (Setting.effective es environment) s ∧ ¬ s.Conflicting) ∧
    ∀ s, l.load file environment = .ok s → s.kind = .default →
      s.capacity = s.maxEntries ∧ s.capacity ≠ some 0 ∧
        ∀ n, ((s.session.step (.put none n)).2.step (.get none n)).1 = .shown ⟨0, n⟩ := by
  have hok := hl.load_eq_ok_iff hfile hplain hcache he
  refine ⟨hl.load_eq_load_iff hfile hplain hcache he,
    hl.load_eq_invalid_iff hfile hplain hcache he, hok, fun s hs hk => ?_⟩
  have hcap : s.capacity = s.maxEntries := by rw [Settings.capacity, hk]
  have hne : s.capacity ≠ some 0 := by
    rw [hcap]
    exact fun h => ((hok s).1 hs).2 (.inl h)
  exact ⟨hcap, hne, Settings.session_keeps hne⟩

end Lawful

theorem load_key_by_key_repaired :
    (∃ fault, standard.load (some "default_scope=7\n[cache]\nmax_entries=0".toList)
        [("VFS_NAMES_CACHE__MAX_ENTRIES".toList, "on".toList)] = .error (.load fault)) ∧
      (∃ c, standard.load (some "default_scope=7\n[cache]\nmax_entries=0".toList)
        [("PATH".toList, "/bin".toList), ("VFS_NAMES_DEFAULT_SCOPE".toList, "child".toList)] =
          .error (.invalid c)) ∧
      standard.load (some "default_scope=7\n[cache]\nmax_entries=0".toList)
        [("vfs_names_default_scope".toList, "child".toList),
          ("Vfs_Names_Cache__Max_Entries".toList, "on".toList)] =
            .ok ⟨.child, .default, some 1⟩ := by
  have htokens : Toml.Token.ofText? "default_scope=7\n[cache]\nmax_entries=0".toList =
      some [.word "default_scope".toList, .equals, .word "7".toList, .newline,
        .leftBracket, .word "cache".toList, .rightBracket, .newline,
        .word "max_entries".toList, .equals, .word "0".toList] := by
    iterate 11 refine Toml.Token.scan_cons rfl ?_
    exact Toml.Token.scan_nil
  have hread : Toml.read? "default_scope=7\n[cache]\nmax_entries=0".toList =
      some [("cache".toList, .table [("max_entries".toList, .integer 0)]),
        ("default_scope".toList, .integer 7)] := by
    rw [Toml.read?, htokens]
    rfl
  have hfile : (some "default_scope=7\n[cache]\nmax_entries=0".toList).elim (some [])
      standard.file? = some [("cache".toList, .table [("max_entries".toList, .integer 0)]),
        ("default_scope".toList, .integer 7)] := hread
  have hplain : ∀ e ∈ [("cache".toList, Value.table [("max_entries".toList, .integer 0)]),
      ("default_scope".toList, .integer 7)], Layer.PlainKey e.1 := by
    simp only [List.forall_mem_cons]
    exact ⟨by decide, by decide, by simp⟩
  have hcache : ∀ v, [("cache".toList, Value.table [("max_entries".toList, .integer 0)]),
      ("default_scope".toList, .integer 7)].lookup "cache".toList = some v →
        ∃ entries, v = .table entries := by
    intro v hv
    cases hv
    exact ⟨_, rfl⟩
  have hseven : ¬ standard.Accepts (.integer 7) .defaultScope := by
    rintro ⟨s, h⟩
    obtain ⟨t, ht, hs⟩ := lawful_standard.readsScope_iff.1 h
    cases ht
    cases hs
  have hchild : Scope.child.Spells "child".toList := Scope.ofText_eq_ok_iff.1 rfl
  have hon : CountText "on".toList 1 := .on (by decide)
  refine ⟨(load_key_by_key lawful_standard hfile hplain hcache (by decide)).1.2
      ⟨.defaultScope, hseven⟩,
    (load_key_by_key lawful_standard hfile hplain hcache (by decide)).2.1.2
      ⟨⟨.child, .default, some 0⟩, ⟨.text hchild, .text .default, .integer 0⟩, by decide⟩,
    ((load_key_by_key lawful_standard hfile hplain hcache (by decide)).2.2.1 _).2
      ⟨⟨.text hchild, .text .default, .text hon⟩, by decide⟩⟩

/-- A table without keys that the file gives is laid over the default key by key, so the
default stays: it does not count, though it cannot be read. -/
theorem load_ignores_empty_table :
    standard.Lawful ∧
      standard.file? "[default_scope]".toList = some [("default_scope".toList, .table [])] ∧
      ¬ standard.Accepts (.table []) .defaultScope ∧
      standard.load (some "[default_scope]".toList) [] = .ok ⟨.fileSystem, .default, none⟩ := by
  have htokens : Toml.Token.ofText? "[default_scope]".toList =
      some [.leftBracket, .word "default_scope".toList, .rightBracket] := by
    iterate 3 refine Toml.Token.scan_cons rfl ?_
    exact Toml.Token.scan_nil
  have hread : standard.file? "[default_scope]".toList =
      some [("default_scope".toList, .table [])] := by
    show Toml.read? _ = _
    rw [Toml.read?, htokens]
    rfl
  refine ⟨lawful_standard, hread, ?_, ?_⟩
  · rintro ⟨s, h⟩
    obtain ⟨t, ht, -⟩ := lawful_standard.readsScope_iff.1 h
    cases ht
  · rw [load, Option.elim_some, hread]
    rfl

end Loader
end FileNaming
