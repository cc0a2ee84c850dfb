import FileNaming.Proofs.Settings.Overlay
import FileNaming.Proofs.Text.Case
import FileNaming.Proofs.Toml.Distinct
import FileNaming.Settings.Standard

/-! The loader of the tool keeps the laws that loading relies on. -/

namespace FileNaming

theorem Setting.Named.key? {s : Setting} {name : Text} (h : s.Named name) :
    Environment.key? name = some s.key := by
  unfold Environment.key?
  rw [h]
  cases s <;> rfl

theorem Environment.Gives.layer_eq {environment : List (Text × Text)} {given : List (Setting × Text)}
    (h : Gives environment given) :
    layer environment = given.map fun g => (g.1.key, .text g.2) := by
  induction h with
  | nil => rfl
  | @named name t s _ _ hs _ ih =>
    rw [List.map_cons, ← ih]
    simp [layer, hs.key?]
  | @other name t _ _ hl _ ih =>
    have hk : key? name = none := if_neg (mt List.isPrefixOf_iff_prefix.1 hl)
    rw [← ih]
    simp [layer, hk]

theorem CacheKind.ofText?_eq_some_iff {t : Text} {k : CacheKind} :
    ofText? t = some k ↔ t = k.text := by
  unfold ofText?
  cases k with
  | default =>
    split
    · simp [*]
    · split <;> simp_all
  | null =>
    split
    · rename_i h
      subst h
      decide
    · split <;> simp_all

namespace Value

theorem asScope_eq_ok_iff {v : Value} {s : Scope} :
    v.asScope = .ok s ↔ ∃ t, v.asText? = some t ∧ Scope.ofText t = .ok s := by
  unfold asScope
  cases v.asText? with
  | none => simp
  | some t =>
    cases h : Scope.ofText t with
    | ok scope => simp [h]
    | error e => simp [h]

theorem asKind_eq_ok_iff {v : Value} {k : CacheKind} :
    v.asKind = .ok k ↔ v.asVariant? = some k.text := by
  unfold asKind
  cases v.asVariant? with
  | none => simp
  | some t =>
    rw [Option.bind_some, Option.some.injEq, ← CacheKind.ofText?_eq_some_iff]
    cases CacheKind.ofText? t <;> simp

theorem asMaxEntries_eq_ok_iff {v : Value} {m : Option Nat} :
    v.asMaxEntries = .ok m ↔ (v = .missing ∧ m = none) ∨
      v ≠ .missing ∧ ∃ n, v.asCount? = some n ∧ m = some n := by
  unfold asMaxEntries
  split
  · simp [eq_comm]
  · rename_i hv
    have hne : v ≠ .missing := hv
    cases v.asCount? <;> simp [hne, eq_comm]

theorem mem_switches_cases {w : Text} {n : Nat} (h : (w, n) ∈ switches) :
    n = 1 ∧ w ∈ ["true".toList, "on".toList, "yes".toList] ∨
      n = 0 ∧ w ∈ ["false".toList, "off".toList, "no".toList] := by
  have hall : ∀ e ∈ switches, e.2 = 1 ∧ e.1 ∈ ["true".toList, "on".toList, "yes".toList] ∨
      e.2 = 0 ∧ e.1 ∈ ["false".toList, "off".toList, "no".toList] := by decide
  exact hall _ h

theorem lookup_switches_of_spells {t : Text} {n : Nat} (h : Text.Spells t n) :
    switches.lookup (t.map Char.toLower) = none := by
  refine List.lookup_eq_none_iff.2 fun e he => ?_
  have hno : ∀ e ∈ switches, e.1.all (fun c => !c.isDigit) = true := by decide
  obtain ⟨digits, ht, hne, hdigits, -⟩ := h
  obtain ⟨d, hd⟩ := List.exists_mem_of_ne_nil digits hne
  have hmem : d ∈ t := by
    obtain rfl | rfl := ht
    · exact hd
    · exact List.mem_cons_of_mem _ hd
  refine bne_iff_ne.2 fun heq => ?_
  have hlower : d.toLower ∈ e.1 := heq ▸ List.mem_map_of_mem hmem
  rw [Text.toLower_of_isDigit (hdigits d hd)] at hlower
  have hnot := List.all_eq_true.1 (hno e he) d hlower
  rw [hdigits d hd] at hnot
  cases hnot

theorem countOfText?_eq_some_iff {t : Text} {n : Nat} :
    countOfText? t = some n ↔ CountText t n := by
  unfold countOfText?
  constructor
  · intro h
    split at h
    · rename_i m hm
      cases h
      obtain ⟨l, r, hl, -⟩ := List.lookup_eq_some_iff.1 hm
      have hmem : (t.map Char.toLower, n) ∈ switches := by
        rw [hl]
        simp
      obtain ⟨rfl, hw⟩ | ⟨rfl, hw⟩ := mem_switches_cases hmem
      · exact .on hw
      · exact .off hw
    · obtain ⟨m, hm, rfl⟩ := Option.map_eq_some_iff.1 h
      exact .numeral (Text.valueBelow?_eq_some_iff.1 hm) m.isLt
  · rintro (h | h | ⟨h, hn⟩)
    · have hlook : ∀ w ∈ ["true".toList, "on".toList, "yes".toList],
          switches.lookup w = some 1 := by decide
      rw [hlook _ h]
    · have hlook : ∀ w ∈ ["false".toList, "off".toList, "no".toList],
          switches.lookup w = some 0 := by decide
      rw [hlook _ h]
    · rw [lookup_switches_of_spells h]
      have hvalue : Text.valueBelow? countLimit t = some ⟨n, hn⟩ :=
        Text.valueBelow?_eq_some_iff.2 h
      rw [hvalue]
      rfl

end Value

namespace Settings

theorem ofValue_eq_ok_iff {v : Value} {s : Settings}
    (hk : (Value.at? Setting.cacheKind.path v).isSome) :
    ofValue v = .ok s ↔
      ((Value.at? Setting.defaultScope.path v).getD .missing).asScope = .ok s.defaultScope ∧
      ((Value.at? Setting.cacheKind.path v).getD .missing).asKind = .ok s.kind ∧
      ((Value.at? Setting.maxEntries.path v).getD .missing).asMaxEntries = .ok s.maxEntries := by
  have hscope : Value.at? Setting.defaultScope.path v = v.entries.lookup "default_scope".toList :=
    Value.at?_singleton _ _
  obtain ⟨b, hb⟩ := Option.isSome_iff_exists.1 hk
  obtain ⟨c, hc, hkind⟩ := Option.bind_eq_some_iff.1 hb
  cases c with
  | table cs =>
    have hkind : cs.lookup "kind".toList = some b := (Value.at?_singleton _ _).symm.trans hkind
    have hmax : Value.at? Setting.maxEntries.path v = cs.lookup "max_entries".toList := by
      show (v.entries.lookup "cache".toList).bind _ = _
      rw [hc]
      exact Value.at?_singleton _ _
    rw [hb, hscope, hmax, ofValue, hc]
    simp only [Option.getD_some, Value.asCache, Value.cacheOf, hkind]
    obtain ⟨scope, kind, limit⟩ := s
    cases ((v.entries.lookup "default_scope".toList).getD .missing).asScope with
    | error e => simp
    | ok scope' =>
      cases b.asKind with
      | error e => simp
      | ok kind' =>
        cases ((cs.lookup "max_entries".toList).getD .missing).asMaxEntries <;> simp
  | _ => cases hkind

end Settings

theorem Loader.lawful_standard : Loader.standard.Lawful where
  file_distinct _ _ h := Toml.distinct_of_read? h
  names_ignore_case _ given h _ := ⟨given, .refl given, h.layer_eq⟩
  merges_by_key defaults sources hd hs := by
    obtain ⟨hupper, hfit⟩ := Layer.stacked_foldl_overlay hs Value.fit_empty
    have hdefaults : ∀ layer ∈ [defaults], layer.WellFormed := List.forall_mem_singleton.2 hd
    obtain ⟨hlower, -⟩ := Layer.stacked_foldl_overlay hdefaults Value.fit_empty
    exact ⟨_, _, hlower, hupper, Value.merged_overlay hfit _⟩
  converts_alone v s h := by
    have hiff := Settings.ofValue_eq_ok_iff (s := s) (h .cacheKind rfl)
    refine hiff.trans ⟨?_, ?_⟩
    · rintro ⟨scope, kind, limit⟩
      exact ⟨Value.asScope_eq_ok_iff.1 scope, Value.asKind_eq_ok_iff.1 kind,
        Value.asMaxEntries_eq_ok_iff.1 limit⟩
    · rintro ⟨scope, kind, limit⟩
      exact ⟨Value.asScope_eq_ok_iff.2 scope, Value.asKind_eq_ok_iff.2 kind,
        Value.asMaxEntries_eq_ok_iff.2 limit⟩
  text_of_text _ := rfl
  variant_of_text _ := rfl
  count_of_text _ _ := Value.countOfText?_eq_some_iff
  count_of_integer i n := by
    show (if 0 ≤ i then some i.toNat else none) = some n ↔ i = n
    split <;> simp <;> omega

end FileNaming
