import FileNaming.Proofs.Settings.Merge

/-! The settings that are loaded, key by key. Each key has the value that the
environment gives it, or else that of the file, or else its default, whatever the other
keys have. What a lower layer gives a key does not count once an upper one gives it. -/

namespace FileNaming

namespace Setting
variable {s s' : Setting} {name t : Text} {environment : List (Text × Text)}

def all : List Setting :=
  [defaultScope, cacheKind, maxEntries]

theorem mem_all (s : Setting) : s ∈ all := by
  cases s <;> decide

def ofEnvironment? (environment : List (Text × Text)) (s : Setting) : Option Text :=
  (environment.find? fun v => s.Named v.1).map Prod.snd

/-- What a value of the file comes to over the default: a table without keys has nothing
to put in its place. -/
def overDefault (s : Setting) : Value → Value
  | .table [] => s.default?.getD (.table [])
  | v => v

def effective (file : List (Text × Value)) (environment : List (Text × Text)) (s : Setting) :
    Value :=
  match s.ofEnvironment? environment with
  | some t => .text t
  | none => ((Value.at? s.path (.table file)).map s.overDefault).getD
      (s.default?.getD .missing)

def defaults : List (Setting × Value) :=
  all.filterMap fun s => s.default?.map fun v => (s, v)

theorem mem_defaults {x : Value} : (s, x) ∈ defaults ↔ s.default? = some x := by
  cases s <;> simp [defaults, all, default?, eq_comm]

theorem distinct_of_default? {x : Value} (h : s.default? = some x) : x.Distinct := by
  cases s <;> cases h <;> exact Value.distinct_text _

theorem nodup_defaults : (defaults.map Prod.fst).Nodup := by
  decide

def texts (given : List (Setting × Text)) : List (Setting × Value) :=
  given.map fun g => (g.1, .text g.2)

theorem map_fst_texts (given : List (Setting × Text)) :
    (texts given).map Prod.fst = given.map Prod.fst := by
  rw [texts, List.map_map]
  rfl

theorem mem_texts {given : List (Setting × Text)} {x : Value} :
    (s, x) ∈ texts given ↔ ∃ t, (s, t) ∈ given ∧ x = .text t := by
  constructor
  · intro h
    obtain ⟨⟨s', t⟩, ht, he⟩ := List.mem_map.1 h
    cases he
    exact ⟨t, ht, rfl⟩
  · rintro ⟨t, ht, rfl⟩
    exact List.mem_map.2 ⟨(s, t), ht, rfl⟩

theorem ofEnvironment?_cons (name t : Text) (environment : List (Text × Text)) (s : Setting) :
    s.ofEnvironment? ((name, t) :: environment) =
      if s.Named name then some t else s.ofEnvironment? environment := by
  by_cases h : s.Named name <;> simp [ofEnvironment?, h]

theorem lead_prefix_variableName (s : Setting) :
    Environment.lead <+: s.variableName.map Environment.lower := by
  cases s <;> decide

theorem Named.lead_prefix (h : s.Named name) :
    Environment.lead <+: name.map Environment.lower :=
  h ▸ s.lead_prefix_variableName

theorem Named.eq (h : s.Named name) (h' : s'.Named name) : s = s' := by
  have hv : s.variableName.map Environment.lower = s'.variableName.map Environment.lower :=
    h.symm.trans h'
  revert hv
  cases s <;> cases s' <;> decide

theorem parallel_path (h : s ≠ s') : Parallel s.path s'.path := by
  revert h
  unfold Parallel
  cases s <;> cases s' <;> decide

theorem exists_path_eq_cons (s : Setting) : ∃ k ks, s.path = k :: ks := by
  cases s <;> exact ⟨_, _, rfl⟩

theorem path_injective : Function.Injective path := by
  intro s s' h
  revert h
  cases s <;> cases s' <;> decide

theorem name_of_mem_path (s : Setting) : ∀ k ∈ s.path, Layer.Name k := by
  cases s <;> decide

end Setting

namespace Environment
variable {name t : Text} {environment : List (Text × Text)}

/-- The variables of the tool are those of the settings, each at most once. -/
structure Regular (environment : List (Text × Text)) : Prop where
  known : ∀ v ∈ environment, lead <+: v.1.map lower → ∃ s : Setting, s.Named v.1
  once : ∀ s : Setting, environment.countP (fun v => s.Named v.1) ≤ 1

theorem regular_iff :
    Regular environment ↔
      (∀ v ∈ environment, lead <+: v.1.map lower → ∃ s ∈ Setting.all, s.Named v.1) ∧
      ∀ s ∈ Setting.all, environment.countP (fun v => s.Named v.1) ≤ 1 := by
  constructor
  · rintro ⟨known, once⟩
    exact ⟨fun v hv hl => (known v hv hl).imp fun s hs => ⟨s.mem_all, hs⟩, fun s _ => once s⟩
  · rintro ⟨known, once⟩
    exact ⟨fun v hv hl => (known v hv hl).imp fun _ => And.right, fun s => once s s.mem_all⟩

instance : Decidable (Regular environment) :=
  decidable_of_iff _ regular_iff.symm

theorem Regular.cons_cases (h : Regular ((name, t) :: environment)) :
    Regular environment ∧ (¬ lead <+: name.map lower ∨
      ∃ s : Setting, s.Named name ∧ s.ofEnvironment? environment = none) := by
  have hrest : Regular environment :=
    ⟨fun v hv => h.known v (List.mem_cons_of_mem _ hv),
      fun s => Nat.le_trans (List.sublist_cons_self ..).countP_le (h.once s)⟩
  refine ⟨hrest, ?_⟩
  by_cases hl : lead <+: name.map lower
  · obtain ⟨s, hs⟩ := h.known (name, t) List.mem_cons_self hl
    refine .inr ⟨s, hs, ?_⟩
    have honce := h.once s
    rw [List.countP_cons_of_pos (by simpa using hs)] at honce
    have hzero : environment.countP (fun v => s.Named v.1) = 0 := by omega
    rw [Setting.ofEnvironment?, List.find?_eq_none.2 (List.countP_eq_zero.1 hzero)]
    rfl
  · exact .inl hl

theorem Regular.exists_gives (h : Regular environment) :
    ∃ given, Gives environment given ∧ (given.map Prod.fst).Nodup ∧
      ∀ s t, (s, t) ∈ given ↔ Setting.ofEnvironment? environment s = some t := by
  induction environment with
  | nil => exact ⟨[], .nil, List.nodup_nil, fun s t => by simp [Setting.ofEnvironment?]⟩
  | cons v environment ih =>
    obtain ⟨name, t⟩ := v
    obtain ⟨hrest, hl | ⟨s, hs, hnone⟩⟩ := h.cons_cases
    · obtain ⟨given, hg, hn, hmem⟩ := ih hrest
      refine ⟨given, .other hl hg, hn, fun s u => ?_⟩
      have hs : ¬ s.Named name := fun hs => hl hs.lead_prefix
      rw [hmem, Setting.ofEnvironment?_cons, if_neg hs]
    · obtain ⟨given, hg, hn, hmem⟩ := ih hrest
      refine ⟨(s, t) :: given, .named hs hg, List.nodup_cons.2 ⟨fun hm => ?_, hn⟩, fun s' u => ?_⟩
      · obtain ⟨⟨s', u⟩, hu, rfl⟩ := List.mem_map.1 hm
        rw [(hmem s' u).1 hu] at hnone
        cases hnone
      · rw [List.mem_cons, hmem, Setting.ofEnvironment?_cons]
        by_cases hs' : s'.Named name
        · obtain rfl := hs'.eq hs
          rw [if_pos hs', hnone]
          simp [eq_comm]
        · have hne : s' ≠ s := fun he => hs' (he ▸ hs)
          rw [if_neg hs']
          simp [hne]

end Environment

namespace Layer
variable {v r : Value} {layer : Layer}

def ofTable (es : List (Text × Value)) : Layer :=
  es.map fun e => ([e.1], e.2)

def ofSettings (given : List (Setting × Value)) : Layer :=
  given.map fun g => (g.1.path, g.2)

theorem map_entry_ofTable (es : List (Text × Value)) : (ofTable es).map entry = es := by
  rw [ofTable, List.map_map]
  exact List.map_id es

theorem map_entry_ofSettings (given : List (Setting × Value)) :
    (ofSettings given).map entry = given.map fun g => (g.1.key, g.2) := by
  rw [ofSettings, List.map_map]
  rfl

section Table
variable {es : List (Text × Value)} (hd : (Value.table es).Distinct)
include hd

theorem wellFormed_ofTable (hp : ∀ e ∈ es, PlainKey e.1) : (ofTable es).WellFormed := by
  obtain ⟨keys, values⟩ := Value.distinct_table_iff.1 hd
  refine ⟨fun e he => ?_, fun e he => ?_, ?_⟩
  · obtain ⟨d, hd, rfl⟩ := List.mem_map.1 he
    exact .inl ⟨d.1, rfl, hp d hd⟩
  · obtain ⟨d, hd, rfl⟩ := List.mem_map.1 he
    exact values d hd
  · have hmap : (ofTable es).map Prod.fst = (es.map Prod.fst).map fun k => [k] := by
      rw [ofTable, List.map_map, List.map_map]
      rfl
    rw [hmap]
    exact List.pairwise_map.2 (keys.imp fun hne h => hne (List.cons.inj h).1)

theorem pairwise_ofTable : (ofTable es).Pairwise fun a b => Parallel a.1 b.1 := by
  have keys : es.Pairwise fun a b => a.1 ≠ b.1 :=
    List.pairwise_map.1 (Value.distinct_table_iff.1 hd).1
  exact List.pairwise_map.2 (keys.imp fun h => parallel_cons h [] [])

theorem Merges.at?_of_perm_ofTable (h : Merges (.table []) layer r) (hl : layer.Perm (ofTable es))
    (k : Text) (ks : List Text) : Value.at? (k :: ks) r = Value.at? (k :: ks) (.table es) := by
  show _ = (es.lookup k).bind (Value.at? ks)
  cases hk : es.lookup k with
  | none =>
    have hpar : ∀ e ∈ layer, Parallel e.1 (k :: ks) := by
      intro e he
      obtain ⟨d, hd, rfl⟩ := List.mem_map.1 (hl.mem_iff.1 he)
      refine parallel_cons (fun hke => ?_) [] ks
      exact Entries.lookup_eq_none_iff_notMem.1 hk (hke ▸ List.mem_map_of_mem hd)
    rw [h.at?_of_parallel hpar]
    rfl
  | some x =>
    have hx : ([k], x) ∈ layer :=
      hl.mem_iff.2 (List.mem_map.2 ⟨(k, x), Entries.mem_of_lookup hk, rfl⟩)
    have hpair : layer.Pairwise fun a b => Parallel a.1 b.1 :=
      (hl.pairwise_iff fun h => h.symm).2 (pairwise_ofTable hd)
    obtain ⟨y, hy, hm⟩ := h.at?_of_mem hpair hx
    have happ : Value.at? (k :: ks) r = (Value.at? [k] r).bind (Value.at? ks) :=
      Value.at?_append [k] ks r
    rw [happ, hy, hm.eq_of_none]

end Table

section Settings
variable {given : List (Setting × Value)} (hn : (given.map Prod.fst).Nodup)
include hn

theorem wellFormed_ofSettings (hv : ∀ g ∈ given, g.2.Distinct) : (ofSettings given).WellFormed := by
  refine ⟨fun e he => ?_, fun e he => ?_, ?_⟩
  · obtain ⟨g, -, rfl⟩ := List.mem_map.1 he
    obtain ⟨k, ks, hk⟩ := g.1.exists_path_eq_cons
    refine .inr ⟨?_, g.1.name_of_mem_path⟩
    rw [hk]
    exact List.cons_ne_nil k ks
  · obtain ⟨g, hg, rfl⟩ := List.mem_map.1 he
    exact hv g hg
  · have hmap : (ofSettings given).map Prod.fst = (given.map Prod.fst).map Setting.path := by
      rw [ofSettings, List.map_map, List.map_map]
      rfl
    rw [hmap]
    exact List.pairwise_map.2 (hn.imp fun hne h => hne (Setting.path_injective h))

theorem pairwise_ofSettings : (ofSettings given).Pairwise fun a b => Parallel a.1 b.1 := by
  have keys : given.Pairwise fun a b => a.1 ≠ b.1 := List.pairwise_map.1 hn
  exact List.pairwise_map.2 (keys.imp Setting.parallel_path)

theorem Merges.at?_of_perm_ofSettings (h : Merges v layer r) (hl : layer.Perm (ofSettings given))
    (s : Setting) :
    (∀ x, (s, x) ∈ given → ∃ y, Value.at? s.path r = some y ∧
        Value.Merged (Value.at? s.path v) x y) ∧
      ((∀ x, (s, x) ∉ given) → Value.at? s.path r = Value.at? s.path v) := by
  have hpair : layer.Pairwise fun a b => Parallel a.1 b.1 :=
    (hl.pairwise_iff fun h => h.symm).2 (pairwise_ofSettings hn)
  refine ⟨fun x hx => ?_, fun hs => ?_⟩
  · exact h.at?_of_mem hpair (hl.mem_iff.2 (List.mem_map.2 ⟨(s, x), hx, rfl⟩))
  · refine h.at?_of_parallel fun e he => ?_
    obtain ⟨g, hg, rfl⟩ := List.mem_map.1 (hl.mem_iff.1 he)
    exact Setting.parallel_path fun hgs => hs g.2 (hgs ▸ hg)

end Settings

theorem at?_of_defaults (h : Stacked (.table []) [ofSettings Setting.defaults] r) (s : Setting) :
    Value.at? s.path r = s.default? := by
  obtain _ | ⟨order, first, ⟨⟩⟩ := h
  have hat := first.at?_of_perm_ofSettings Setting.nodup_defaults order s
  have hnone : Value.at? s.path (.table []) = none := by cases s <;> rfl
  rw [hnone] at hat
  cases hd : s.default? with
  | none =>
    refine hat.2 fun x hx => ?_
    rw [Setting.mem_defaults.1 hx] at hd
    cases hd
  | some d =>
    obtain ⟨y, hy, hm⟩ := hat.1 d (Setting.mem_defaults.2 hd)
    rw [hy, hm.eq_of_none]

section Sources
variable {es : List (Text × Value)} {given : List (Setting × Text)}
  (h : Stacked (.table []) [ofTable es, ofSettings (Setting.texts given)] r)
include h

theorem at?_of_sources (hd : (Value.table es).Distinct) (hn : (given.map Prod.fst).Nodup)
    (s : Setting) :
    (∀ t, (s, t) ∈ given → Value.at? s.path r = some (.text t)) ∧
      ((∀ t, (s, t) ∉ given) → Value.at? s.path r = Value.at? s.path (.table es)) := by
  obtain _ | ⟨order, first, _ | ⟨order', second, ⟨⟩⟩⟩ := h
  obtain ⟨k, ks, hk⟩ := s.exists_path_eq_cons
  have hfirst := first.at?_of_perm_ofTable hd order k ks
  rw [← hk] at hfirst
  rw [← Setting.map_fst_texts] at hn
  have hsecond := second.at?_of_perm_ofSettings hn order' s
  refine ⟨fun t ht => ?_, fun hs => ?_⟩
  · obtain ⟨y, hy, hm⟩ := hsecond.1 _ (Setting.mem_texts.2 ⟨t, ht, rfl⟩)
    rw [hy, hm.eq_of_ne_table fun es he => by cases he]
  · refine (hsecond.2 fun x hx => ?_).trans hfirst
    obtain ⟨t, ht, -⟩ := Setting.mem_texts.1 hx
    exact hs t ht

theorem open_of_sources (hd : (Value.table es).Distinct) {s : Setting}
    (hopen : Value.Open s.path (.table es)) : Value.Open s.path r := by
  obtain _ | ⟨order, first, _ | ⟨order', second, ⟨⟩⟩⟩ := h
  have hempty : Value.Open s.path (.table []) := by
    obtain ⟨k, ks, hk⟩ := s.exists_path_eq_cons
    rw [hk]
    exact ⟨⟨[], rfl⟩, fun x hx => by cases hx⟩
  refine second.open_path (fun e he => ?_) (first.open_path (fun e he => ?_) hempty)
  · obtain ⟨g, -, rfl⟩ := List.mem_map.1 (order'.mem_iff.1 he)
    refine Value.open_along fun q hq => ?_
    -- a key of settings leads through that of another one only if they are the same
    by_cases hs : g.1 = s
    · rw [hs] at hq
      obtain rfl : q = [] := List.self_eq_append_right.1 hq
      trivial
    · exact absurd ⟨q, hq.symm⟩ (Setting.parallel_path hs).1
  · obtain ⟨d, hd', rfl⟩ := List.mem_map.1 (order.mem_iff.1 he)
    refine Value.open_along fun q hq => ?_
    have hlook : es.lookup d.1 = some d.2 :=
      Entries.lookup_of_mem (Value.distinct_table_iff.1 hd).1 hd'
    rw [hq] at hopen
    exact hopen.2 d.2 hlook

end Sources
end Layer

namespace Value

theorem overDefault_of_ne {s : Setting} {x : Value} (h : x ≠ .table []) : s.overDefault x = x := by
  unfold Setting.overDefault
  split
  · exact absurd rfl h
  · rfl

theorem Merged.eq_overDefault {s : Setting} {x y : Value} (h : Merged s.default? x y) :
    y = s.overDefault x := by
  generalize hd : s.default? = d at h
  cases h with
  | leaf h => exact (overDefault_of_ne (h [])).symm
  | @fresh es =>
    cases es with
    | nil => simp [Setting.overDefault, hd]
    | cons e es => rfl
  | instead _ he => exact (overDefault_of_ne fun h => he (Value.table.inj h)).symm
  | empty => simp [Setting.overDefault, hd]
  | keys => cases s <;> cases hd

end Value

namespace Loader
variable {l : Loader} {es : List (Text × Value)} {environment : List (Text × Text)}

theorem open_path_of_cache (s : Setting)
    (hcache : ∀ v, es.lookup "cache".toList = some v → ∃ entries, v = .table entries) :
    Value.Open s.path (.table es) := by
  cases s with
  | defaultScope => exact ⟨⟨es, rfl⟩, fun _ _ => trivial⟩
  | cacheKind => exact ⟨⟨es, rfl⟩, fun v hv => ⟨hcache v hv, fun _ _ => trivial⟩⟩
  | maxEntries => exact ⟨⟨es, rfl⟩, fun v hv => ⟨hcache v hv, fun _ _ => trivial⟩⟩

section Build
variable (hl : l.Lawful) (hd : (Value.table es).Distinct) (hplain : ∀ e ∈ es, Layer.PlainKey e.1)
  (hcache : ∀ v, es.lookup "cache".toList = some v → ∃ entries, v = .table entries)
  (he : Environment.Regular environment)
include hl hd hplain hcache he

theorem Lawful.exists_sources :
    ∃ lower upper, (∀ s : Setting, Value.at? s.path lower = s.default? ∧
        Value.at? s.path upper =
          ((s.ofEnvironment? environment).map .text).or (Value.at? s.path (.table es)) ∧
        Value.Open s.path upper) ∧
      Value.Merged (some lower) upper
        (l.build Settings.defaults [es, l.environment environment]) := by
  obtain ⟨given, hgives, hnodup, hgiven⟩ := he.exists_gives
  obtain ⟨given', hperm, henv⟩ := hl.names_ignore_case environment given hgives hnodup
  have hn : (given'.map Prod.fst).Nodup := (hperm.map Prod.fst).nodup_iff.2 hnodup
  have hmem : ∀ s t, (s, t) ∈ given' ↔ s.ofEnvironment? environment = some t :=
    fun s t => hperm.mem_iff.trans (hgiven s t)
  have hsources : ∀ layer ∈ [Layer.ofTable es, Layer.ofSettings (Setting.texts given')],
      layer.WellFormed := by
    refine List.forall_mem_cons.2 ⟨Layer.wellFormed_ofTable hd hplain, ?_⟩
    refine List.forall_mem_singleton.2 (Layer.wellFormed_ofSettings ?_ ?_)
    · rwa [Setting.map_fst_texts]
    · rintro ⟨s, x⟩ hx
      obtain ⟨t, -, rfl⟩ := Setting.mem_texts.1 hx
      exact Value.distinct_text t
  have hdefaults : (Layer.ofSettings Setting.defaults).WellFormed := by
    refine Layer.wellFormed_ofSettings Setting.nodup_defaults ?_
    rintro ⟨s, x⟩ hx
    exact Setting.distinct_of_default? (Setting.mem_defaults.1 hx)
  obtain ⟨lower, upper, hlower, hupper, hbuild⟩ := hl.merges_by_key _ _ hdefaults hsources
  refine ⟨lower, upper, fun s => ⟨Layer.at?_of_defaults hlower s, ?_,
    Layer.open_of_sources hupper hd (open_path_of_cache s hcache)⟩, ?_⟩
  · have hat := Layer.at?_of_sources hupper hd hn s
    cases hs : s.ofEnvironment? environment with
    | some t => exact hat.1 t ((hmem s t).2 hs)
    | none =>
      refine hat.2 fun t ht => ?_
      rw [(hmem s t).1 ht] at hs
      cases hs
  · have hkeys :
        (Setting.texts given').map (fun g => (g.1.key, g.2)) = l.environment environment := by
      rw [henv, Setting.texts, List.map_map]
      rfl
    rw [List.map_cons, List.map_cons, List.map_nil, Layer.map_entry_ofTable,
      Layer.map_entry_ofSettings, Layer.map_entry_ofSettings, hkeys] at hbuild
    exact hbuild

theorem Lawful.at?_build (s : Setting) :
    (Value.at? s.path (l.build Settings.defaults [es, l.environment environment])).getD .missing =
        s.effective es environment ∧
      (s.default?.isSome →
        (Value.at? s.path (l.build Settings.defaults [es, l.environment environment])).isSome) := by
  obtain ⟨lower, upper, hat, hbuild⟩ := hl.exists_sources hd hplain hcache he
  obtain ⟨hlower, hupper, hopen⟩ := hat s
  obtain ⟨hnone, hsome⟩ := hbuild.at?_of_open hopen
  rw [hlower] at hnone hsome
  rw [hupper] at hnone hsome
  unfold Setting.effective
  cases henv : s.ofEnvironment? environment with
  | some t =>
    rw [henv] at hsome
    obtain ⟨y, hy, hm⟩ := hsome (.text t) rfl
    rw [hy, hm.eq_of_ne_table fun es h => by cases h]
    exact ⟨rfl, fun _ => rfl⟩
  | none =>
    rw [henv] at hnone hsome
    cases hx : Value.at? s.path (.table es) with
    | some x =>
      obtain ⟨y, hy, hm⟩ := hsome x hx
      rw [hy, hm.eq_overDefault]
      exact ⟨rfl, fun _ => rfl⟩
    | none =>
      rw [hnone hx]
      exact ⟨rfl, id⟩

end Build

end Loader
end FileNaming
