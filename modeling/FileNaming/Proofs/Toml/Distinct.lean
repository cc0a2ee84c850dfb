import FileNaming.Proofs.Settings.Distinct
import FileNaming.Toml.Document

/-! The entries of a settings file have no doubled keys, at any level. What is written
may double them; reading refuses it. The values that are written are no tables, so
every table that comes out was read. -/

namespace FileNaming.Toml

/-! Nodes. -/

inductive Node.Sound : Node → Prop
  | value {v : Value} (h : v.Distinct) : Sound (.value v)
  | moment (word : Text) : Sound (.moment word)
  | list (items : List Node) : Sound (.list items)
  | table {dotted : Bool} {entries : Tree} (h : ∀ e ∈ entries, Sound e.2) :
    Sound (.table dotted entries)

def Tree.Sound (t : Tree) : Prop :=
  ∀ e ∈ t, e.2.Sound

theorem distinct_of_moment? {word : Text} {v : Value} (h : moment? word = some v) :
    v.Distinct := by
  obtain ⟨m, -, rfl⟩ := Option.map_eq_some_iff.1 h
  exact Value.distinct_text _

theorem Node.distinct_of_spelled? {n : Node} {v : Value} (h : n.spelled? = some v) :
    v.Distinct := by
  unfold Node.spelled? at h
  split at h
  · exact distinct_of_moment? h
  · cases h

theorem distinct_of_withEntry? {k : Text} {v : Value} {rest es : List (Text × Value)}
    (h : withEntry? k v rest = some es) (hv : v.Distinct) (hr : (Value.table rest).Distinct) :
    (Value.table es).Distinct := by
  unfold withEntry? at h
  split at h
  · cases h
  · rename_i hk
    cases h
    have hnone : rest.lookup k = none := Option.not_isSome_iff_eq_none.1 hk
    obtain ⟨keys, values⟩ := Value.distinct_table_iff.1 hr
    exact .table (List.nodup_cons.2 ⟨Entries.lookup_eq_none_iff_notMem.1 hnone, keys⟩)
      (List.forall_mem_cons.2 ⟨hv, values⟩)

theorem Tree.distinct_of_read? {t : Tree} {es : List (Text × Value)}
    (ht : ∀ e ∈ t, ∀ v, e.2.read? = some v → v.Distinct) (h : Tree.read? t = some es) :
    (Value.table es).Distinct := by
  induction t generalizing es with
  | nil =>
    rw [Tree.read?] at h
    cases h
    exact .table List.nodup_nil (by simp)
  | cons e t ih =>
    obtain ⟨k, n⟩ := e
    rw [Tree.read?] at h
    obtain ⟨v, hv, h⟩ := Option.bind_eq_some_iff.1 h
    obtain ⟨rest, hr, h⟩ := Option.bind_eq_some_iff.1 h
    obtain ⟨hn, ht⟩ := List.forall_mem_cons.1 ht
    exact distinct_of_withEntry? h (hn v hv) (ih ht hr)

theorem Node.Sound.distinct_of_read? {n : Node} (hn : n.Sound) {v : Value}
    (h : n.read? = some v) : v.Distinct := by
  induction hn generalizing v with
  | value hv =>
    rw [Node.read?] at h
    cases h
    exact hv
  | moment word =>
    rw [Node.read?] at h
    exact distinct_of_moment? h
  | list items =>
    rw [Node.read?] at h
    obtain ⟨vs, -, rfl⟩ := Option.map_eq_some_iff.1 h
    exact .leaf fun _ he => by cases he
  | table _ ih =>
    rw [Node.read?] at h
    split at h
    · exact distinct_of_spelled? h
    · obtain ⟨es, hes, rfl⟩ := Option.map_eq_some_iff.1 h
      exact Tree.distinct_of_read? (fun e he v hv => ih e he hv) hes

theorem Tree.Sound.distinct_of_read? {t : Tree} (ht : t.Sound) {es : List (Text × Value)}
    (h : Tree.read? t = some es) : (Value.table es).Distinct :=
  Tree.distinct_of_read? (fun e he _ hv => (ht e he).distinct_of_read? hv) h

/-! Writing: values are texts, truth values, numbers and moments, and dotted keys only
put tables around them. -/

theorem sound_text (t : Text) : (Node.value (.text t)).Sound :=
  .value (Value.distinct_text t)

theorem Tree.sound_nil : Tree.Sound [] :=
  fun _ h => by cases h

theorem Tree.Sound.alter {t : Tree} (ht : t.Sound) {k : Text} {n : Node} (hn : n.Sound) :
    Tree.Sound (Entries.alter k (fun _ => n) t) := by
  intro e he
  obtain he | rfl := Entries.mem_alter he
  · exact ht e he
  · exact hn

theorem Tree.Sound.append {t : Tree} (ht : t.Sound) {k : Text} {n : Node} (hn : n.Sound) :
    Tree.Sound (t ++ [(k, n)]) := by
  intro e he
  obtain he | he := List.mem_append.1 he
  · exact ht e he
  · obtain rfl := List.mem_singleton.1 he
    exact hn

theorem Tree.Sound.assign? {ks : List Text} {n : Node} {t t' : Tree} (ht : t.Sound)
    (hn : n.Sound) (h : Tree.assign? ks n t = some t') : t'.Sound := by
  fun_induction Tree.assign? ks n t generalizing t' with
  | case1 => cases h
  | case2 k n t =>
    cases h
    exact ht.append hn
  | case3 k k' ks n t _ ih =>
    obtain ⟨sub, hs, h⟩ := Option.bind_eq_some_iff.1 h
    cases h
    exact ht.append (.table (ih Tree.sound_nil hn hs))
  | case4 k k' ks n t sub hk ih =>
    obtain ⟨sub', hs, h⟩ := Option.bind_eq_some_iff.1 h
    cases h
    have hsub : Tree.Sound sub := by
      cases ht _ (Entries.mem_of_lookup hk) with
      | table hsub => exact hsub
    exact ht.alter (.table (ih hsub hn hs))
  | case5 => cases h

def PairsSound (pairs : List (List Text × Node)) : Prop :=
  ∀ p ∈ pairs, p.2.Sound

theorem Tree.Sound.foldlM_assign? {pairs : List (List Text × Node)} (hp : PairsSound pairs)
    {t t' : Tree} (ht : t.Sound)
    (h : pairs.foldlM (fun t p => Tree.assign? p.1 p.2 t) t = some t') : t'.Sound := by
  induction pairs generalizing t with
  | nil =>
    cases h
    exact ht
  | cons p pairs ih =>
    obtain ⟨hn, hp⟩ := List.forall_mem_cons.1 hp
    rw [List.foldlM_cons] at h
    obtain ⟨t₁, h₁, h⟩ := Option.bind_eq_some_iff.1 h
    exact ih hp (ht.assign? hn h₁) h

theorem PairsSound.table? {pairs : List (List Text × Node)} (hp : PairsSound pairs) {t : Tree}
    (h : table? pairs = some t) : t.Sound :=
  Tree.sound_nil.foldlM_assign? hp h

theorem sound_of_number? {w : Text} {ts rest : List Token} {n : Node}
    (h : number? w ts = some (n, rest)) : n.Sound := by
  obtain ⟨⟨m, r⟩, -, he⟩ := Option.map_eq_some_iff.1 h
  cases he
  cases m <;> exact .value (.leaf fun _ he => by cases he)

theorem sound_of_timeOfDay? {w : Text} {ts rest : List Token} {n : Node}
    (h : timeOfDay? w ts = some (n, rest)) : n.Sound := by
  obtain ⟨p, -, he⟩ := Option.map_eq_some_iff.1 h
  cases he
  exact .moment _

theorem sound_of_dateTime? {w : Text} {ts rest : List Token} {n : Node}
    (h : dateTime? w ts = some (n, rest)) : n.Sound := by
  unfold dateTime? at h
  dsimp only at h
  split at h
  · obtain ⟨p, -, he⟩ := Option.map_eq_some_iff.1 h
    cases he
    exact .moment _
  · cases h
    exact .moment _

theorem sound_of_plain? {w : Text} {ts rest : List Token} {n : Node}
    (h : plain? w ts = some (n, rest)) : n.Sound := by
  unfold plain? at h
  split at h
  · cases h
    exact .value (.leaf fun _ he => by cases he)
  · split at h
    · cases h
      exact .value (.leaf fun _ he => by cases he)
    · split at h
      · cases h
      · split at h
        · exact sound_of_dateTime? h
        · split at h
          · exact sound_of_timeOfDay? h
          · exact sound_of_number? h

theorem sound_of_fuel (fuel : Nat) :
    (∀ ts n rest, value? fuel ts = some (n, rest) → n.Sound) ∧
      ∀ ts ps rest, pairs? fuel ts = some (ps, rest) → PairsSound ps := by
  induction fuel with
  | zero =>
    refine ⟨fun ts n rest h => ?_, fun ts ps rest h => ?_⟩
    · rw [value?] at h
      cases h
    · rw [pairs?] at h
      cases h
  | succ fuel ih =>
    refine ⟨fun ts n rest h => ?_, fun ts ps rest h => ?_⟩
    · unfold value? at h
      split at h
      · cases h
        exact sound_text _
      · exact sound_of_plain? h
      · exact sound_of_number? h
      · obtain ⟨p, -, he⟩ := Option.map_eq_some_iff.1 h
        cases he
        exact .list _
      · split at h
        · cases h
          exact .table Tree.sound_nil
        · obtain ⟨⟨pairs, ts⟩, hp, h⟩ := Option.bind_eq_some_iff.1 h
          obtain ⟨t, ht, h⟩ := Option.bind_eq_some_iff.1 h
          cases h
          exact .table ((ih.2 _ _ _ hp).table? ht)
      · cases h
    · rw [pairs?] at h
      obtain ⟨⟨key, ts⟩, -, h⟩ := Option.bind_eq_some_iff.1 h
      dsimp only at h
      split at h
      · obtain ⟨⟨v, ts⟩, hv, h⟩ := Option.bind_eq_some_iff.1 h
        have hn := ih.1 _ _ _ hv
        dsimp only at h
        split at h
        · cases h
          exact List.forall_mem_singleton.2 hn
        · obtain ⟨⟨ps, ts⟩, hp, h⟩ := Option.bind_eq_some_iff.1 h
          cases h
          exact List.forall_mem_cons.2 ⟨hn, ih.2 _ _ _ hp⟩
        · cases h
      · cases h

/-! Lines and sections. -/

def Line.Sound : Line → Prop
  | .header _ _ => True
  | .pair _ n => n.Sound

theorem sound_of_header? {ts rest : List Token} {l : Line} (h : header? ts = some (l, rest)) :
    l.Sound := by
  unfold header? at h
  split at h
  all_goals
    obtain ⟨⟨path, ts⟩, -, h⟩ := Option.bind_eq_some_iff.1 h
    dsimp only at h
    split at h
    · cases h
      trivial
    · cases h

theorem sound_of_pair? {ts rest : List Token} {l : Line} (h : pair? ts = some (l, rest)) :
    l.Sound := by
  obtain ⟨⟨key, ts⟩, -, h⟩ := Option.bind_eq_some_iff.1 h
  dsimp only at h
  split at h
  · obtain ⟨⟨n, ts⟩, hn, h⟩ := Option.bind_eq_some_iff.1 h
    cases h
    exact (sound_of_fuel _).1 _ _ _ hn
  · cases h

theorem sound_of_line? {ts rest : List Token} {l : Line} (h : line? ts = some (l, rest)) :
    l.Sound := by
  unfold line? at h
  split at h
  · exact sound_of_header? h
  · exact sound_of_pair? h

theorem sound_of_lines? {fuel : Nat} {ts : List Token} {ls : List Line}
    (h : lines? fuel ts = some ls) : ∀ l ∈ ls, l.Sound := by
  induction fuel generalizing ts ls with
  | zero => cases h
  | succ fuel ih =>
    unfold lines? at h
    split at h
    · cases h
      simp
    · obtain ⟨⟨l, ts⟩, hl, h⟩ := Option.bind_eq_some_iff.1 h
      obtain ⟨ts, -, h⟩ := Option.bind_eq_some_iff.1 h
      obtain ⟨ls, hls, h⟩ := Option.bind_eq_some_iff.1 h
      cases h
      exact List.forall_mem_cons.2 ⟨sound_of_line? hl, ih hls⟩

theorem sound_blocks {ls : List Line} (h : ∀ l ∈ ls, l.Sound) :
    PairsSound (blocks ls).1 ∧ ∀ b ∈ (blocks ls).2, PairsSound b.pairs := by
  induction ls with
  | nil =>
    refine ⟨?_, ?_⟩
    · intro p hp
      cases hp
    · intro b hb
      cases hb
  | cons l ls ih =>
    obtain ⟨hl, hls⟩ := List.forall_mem_cons.1 h
    obtain ⟨top, rest⟩ := ih hls
    cases l with
    | pair key n => exact ⟨List.forall_mem_cons.2 ⟨hl, top⟩, rest⟩
    | header repeated path =>
      refine ⟨?_, List.forall_mem_cons.2 ⟨top, rest⟩⟩
      intro p hp
      cases hp

theorem exists_of_mem_mapM {α β : Type} {f : α → Option β} {l : List α} {r : List β}
    (h : l.mapM f = some r) {y : β} (hy : y ∈ r) : ∃ x ∈ l, f x = some y := by
  induction l generalizing r with
  | nil =>
    cases h
    cases hy
  | cons x l ih =>
    rw [List.mapM_cons] at h
    obtain ⟨y₀, h₀, h⟩ := Option.bind_eq_some_iff.1 h
    obtain ⟨r₀, hr, h⟩ := Option.bind_eq_some_iff.1 h
    cases h
    obtain rfl | hy := List.mem_cons.1 hy
    · exact ⟨x, List.mem_cons_self, h₀⟩
    · obtain ⟨z, hz, hf⟩ := ih hr hy
      exact ⟨z, List.mem_cons_of_mem x hz, hf⟩

namespace Section

def Sound (s : Section) : Prop :=
  Tree.Sound s.body

theorem sound_of_sections? {ls : List Line} (hl : ∀ l ∈ ls, l.Sound) {ss : List Section}
    (h : sections? ls = some ss) : ∀ s ∈ ss, s.Sound := by
  obtain ⟨top, rest⟩ := sound_blocks hl
  have hb : ∀ b ∈ ⟨false, [], (blocks ls).1⟩ :: (blocks ls).2, PairsSound b.pairs :=
    List.forall_mem_cons.2 ⟨top, rest⟩
  intro s hs
  obtain ⟨b, hm, hbs⟩ := exists_of_mem_mapM h hs
  obtain ⟨body, ht, rfl⟩ := Option.map_eq_some_iff.1 hbs
  exact (hb b hm).table? ht

theorem sound_under {ss : List Section} (h : ∀ s ∈ ss, s.Sound) (k : Text) :
    ∀ s ∈ under k ss, s.Sound := by
  intro s hs
  obtain ⟨s₀, h₀, hs⟩ := List.mem_filterMap.1 hs
  split at hs
  · split at hs
    · cases hs
      exact h s₀ h₀
    · cases hs
  · cases hs

theorem sound_of_own? {ss : List Section} (h : ∀ s ∈ ss, s.Sound) {t : Tree}
    (ht : own? ss = some t) : t.Sound := by
  unfold own? at ht
  split at ht
  · cases ht
    exact Tree.sound_nil
  · rename_i s hs
    split at ht
    · cases ht
    · cases ht
      exact h s (List.mem_filter.1 (hs ▸ List.mem_singleton_self s)).1
  · cases ht

theorem distinct_of_foldrM {inner : List (Text × Value)} (hi : ∀ e ∈ inner, e.2.Distinct)
    {es es' : List (Text × Value)} (hes : (Value.table es).Distinct)
    (h : inner.foldrM (fun e es => withEntry? e.1 e.2 es) es = some es') :
    (Value.table es').Distinct := by
  induction inner generalizing es' with
  | nil =>
    cases h
    exact hes
  | cons e inner ih =>
    obtain ⟨he, hi⟩ := List.forall_mem_cons.1 hi
    rw [List.foldrM_cons] at h
    obtain ⟨es₁, h₁, h⟩ := Option.bind_eq_some_iff.1 h
    exact distinct_of_withEntry? h he (ih hi h₁)

theorem distinct_of_value? {r : List Section → Option (Value × List Section)}
    {ss : List Section} {v : Value} (hr : ∀ left, r ss = some (v, left) → v.Distinct)
    (h : value? r ss = some v) : v.Distinct := by
  unfold value? at h
  split at h
  · obtain ⟨vs, -, rfl⟩ := Option.map_eq_some_iff.1 h
    exact .leaf fun _ he => by cases he
  · split at h
    · rename_i hv
      cases h
      exact hr [] hv
    · cases h

theorem distinct_of_read? {fuel : Nat} {ss left : List Section} {v : Value}
    (hs : ∀ s ∈ ss, s.Sound) (h : read? fuel ss = some (v, left)) : v.Distinct := by
  induction fuel generalizing ss left v with
  | zero => cases h
  | succ fuel ih =>
    unfold read? at h
    split at h
    · obtain ⟨w, hw, he⟩ := Option.map_eq_some_iff.1 h
      cases he
      exact Node.distinct_of_spelled? hw
    · obtain ⟨body, hb, h⟩ := Option.bind_eq_some_iff.1 h
      obtain ⟨es, hes, h⟩ := Option.bind_eq_some_iff.1 h
      obtain ⟨inner, hi, h⟩ := Option.bind_eq_some_iff.1 h
      obtain ⟨es', h', h⟩ := Option.bind_eq_some_iff.1 h
      cases h
      refine distinct_of_foldrM ?_ ((sound_of_own? hs hb).distinct_of_read? hes) h'
      intro e he
      obtain ⟨k, -, hk⟩ := exists_of_mem_mapM hi he
      obtain ⟨w, hw, hk⟩ := Option.bind_eq_some_iff.1 hk
      cases hk
      exact distinct_of_value? (fun left hl => ih (sound_under hs k) hl) hw

end Section

theorem distinct_of_read? {t : Text} {es : List (Text × Value)} (h : read? t = some es) :
    (Value.table es).Distinct := by
  obtain ⟨ts, -, h⟩ := Option.bind_eq_some_iff.1 h
  obtain ⟨ls, hl, h⟩ := Option.bind_eq_some_iff.1 h
  obtain ⟨ss, hs, h⟩ := Option.bind_eq_some_iff.1 h
  obtain ⟨⟨v, left⟩, hv, rfl⟩ := Option.map_eq_some_iff.1 h
  have hsound : ∀ s ∈ ss, s.Sound := Section.sound_of_sections? (sound_of_lines? hl) hs
  exact (Section.distinct_of_read? hsound hv).entries

end FileNaming.Toml
