import FileNaming.Proofs.Settings.KeyPath
import FileNaming.Proofs.Settings.Merge
import FileNaming.Settings.Layer

/-! Laying a layer over settings merges it key by key. Setting a value at a path does, one
entry after another, and what comes out is again a table of plain keys, so it can be laid
over other settings in turn. -/

namespace FileNaming

namespace Value

theorem merge_of_ne_table {v : Value} (h : ∀ es, v ≠ .table es) (old : Option Value) :
    v.merge old = v := by
  cases v with
  | table es => exact absurd rfl (h es)
  | _ => rfl

theorem mergeEntries_append {es acc : List (Text × Value)}
    (hk : ((acc ++ es).map Prod.fst).Nodup) (hv : ∀ e ∈ es, e.2.merge none = e.2) :
    mergeEntries es (.table acc) = .table (acc ++ es) := by
  induction es generalizing acc with
  | nil =>
    rw [mergeEntries, List.append_nil]
  | cons e es ih =>
    obtain ⟨k, v⟩ := e
    obtain ⟨hv₀, hv⟩ := List.forall_mem_cons.1 hv
    have hnot : k ∉ acc.map Prod.fst := by
      intro hm
      rw [List.map_append, List.nodup_append] at hk
      exact hk.2.2 k hm k (by simp) rfl
    have hcons : acc ++ (k, v) :: es = acc ++ [(k, v)] ++ es := List.append_cons acc (k, v) es
    rw [mergeEntries, Value.entries, Entries.alter_of_notMem hnot, hv₀, hcons]
    rw [hcons] at hk
    exact ih hk hv

theorem exists_mergeEntries (es acc : List (Text × Value)) :
    ∃ rs, mergeEntries es (.table acc) = .table rs := by
  induction es generalizing acc with
  | nil => exact ⟨acc, mergeEntries.eq_1 _⟩
  | cons e es ih =>
    rw [mergeEntries]
    exact ih _

theorem lookup_mergeEntries {es : List (Text × Value)} (h : (es.map Prod.fst).Nodup)
    (old : Value) (k : Text) :
    (mergeEntries es old).entries.lookup k =
      ((es.lookup k).map fun v => v.merge (old.entries.lookup k)).or (old.entries.lookup k) := by
  induction es generalizing old with
  | nil => rfl
  | cons e es ih =>
    obtain ⟨k₀, v⟩ := e
    obtain ⟨hk₀, h⟩ := List.nodup_cons.1 h
    rw [mergeEntries, ih h]
    simp only [Value.entries, Entries.lookup_alter]
    by_cases hk : k = k₀
    · subst hk
      have hnone : es.lookup k = none := Entries.lookup_eq_none_iff_notMem.2 hk₀
      simp [hnone]
    · have hb : (k == k₀) = false := by simpa using hk
      simp [List.lookup_cons, hk, hb]

theorem merged_merge {v : Value} (h : v.Distinct) (old : Option Value) :
    Merged old v (v.merge old) := by
  induction h generalizing old with
  | leaf h =>
    rw [merge_of_ne_table h]
    exact .leaf h
  | @table es keys values ih =>
    have hself : mergeEntries es (.table []) = .table es :=
      mergeEntries_append (List.nil_append es ▸ keys) fun e he => (ih e he none).eq_of_none
    show Merged old (.table es) (mergeEntries es (old.getD (.table [])))
    cases old with
    | none =>
      rw [Option.getD_none, hself]
      exact .fresh
    | some w =>
      rw [Option.getD_some]
      obtain ⟨ws, rfl⟩ | hleaf := w.eq_table_or_ne
      · obtain ⟨rs, hrs⟩ := exists_mergeEntries es ws
        have hlook : ∀ k, rs.lookup k =
            ((es.lookup k).map fun v => v.merge (ws.lookup k)).or (ws.lookup k) := by
          intro k
          have hl := lookup_mergeEntries keys (.table ws) k
          rwa [hrs] at hl
        rw [hrs]
        refine .keys (fun k => ((es.lookup k).getD .missing).merge (ws.lookup k)) ?_ ?_ ?_
        · intro k v hv
          rw [hlook, hv]
          rfl
        · intro k v hv
          rw [hv]
          exact ih (k, v) (Entries.mem_of_lookup hv) _
        · intro k hk
          rw [hlook, hk]
          rfl
      · cases es with
        | nil => exact .empty
        | cons e es =>
          have hsame : mergeEntries (e :: es) w = .table (e :: es) := by
            rw [mergeEntries, entries_of_ne_table hleaf]
            rwa [mergeEntries] at hself
          rw [hsame]
          exact .instead hleaf (List.cons_ne_nil e es)

theorem merged_setAt {x : Value} (hx : x.Distinct) (path : List Text) (old : Option Value) :
    Merged old (along path x) (setAt (path.map .field) x old) := by
  induction path generalizing old with
  | nil => exact merged_merge hx old
  | cons k path ih =>
    have hfresh : setAt (path.map .field) x none = along path x := (ih none).eq_of_none
    cases old with
    | none =>
      show Merged none (along (k :: path) x) (.table [(k, setAt (path.map .field) x none)])
      rw [hfresh]
      exact .fresh
    | some w =>
      obtain ⟨ws, rfl⟩ | hleaf := w.eq_table_or_ne
      · refine .keys (fun k' => setAt (path.map .field) x (ws.lookup k')) ?_ ?_ ?_
        · intro k' v hv
          obtain ⟨rfl, -⟩ := lookup_singleton_eq_some_iff.1 hv
          show (Entries.alter k' _ ws).lookup k' = _
          rw [Entries.lookup_alter, if_pos rfl]
        · intro k' v hv
          obtain ⟨-, rfl⟩ := lookup_singleton_eq_some_iff.1 hv
          exact ih _
        · intro k' hk'
          show (Entries.alter k _ ws).lookup k' = _
          rw [Entries.lookup_alter, if_neg (lookup_singleton_eq_none_iff.1 hk')]
      · have hset : setAt ((k :: path).map .field) x (some w) = along (k :: path) x := by
          show Value.table (Entries.alter k _ w.entries) = _
          rw [entries_of_ne_table hleaf]
          show Value.table [(k, setAt (path.map .field) x none)] = _
          rw [hfresh]
          rfl
        rw [hset]
        exact .instead hleaf (List.cons_ne_nil _ _)

theorem distinct_mergeEntries {es : List (Text × Value)} {old : Value} (ho : old.Distinct)
    (hv : ∀ e ∈ es, ∀ o : Option Value, (∀ w, o = some w → w.Distinct) → (e.2.merge o).Distinct) :
    (mergeEntries es old).Distinct := by
  induction es generalizing old with
  | nil =>
    rw [mergeEntries]
    exact ho
  | cons e es ih =>
    obtain ⟨he, hv⟩ := List.forall_mem_cons.1 hv
    rw [mergeEntries]
    exact ih (ho.alter (he _ fun w hw => ho.lookup hw)) hv

theorem distinct_merge {v : Value} (h : v.Distinct) {old : Option Value}
    (ho : ∀ o, old = some o → o.Distinct) : (v.merge old).Distinct := by
  induction h generalizing old with
  | leaf h =>
    rw [merge_of_ne_table h]
    exact .leaf h
  | table keys values ih =>
    refine distinct_mergeEntries ?_ fun e he o hw => ih e he hw
    cases old with
    | none => exact .table List.nodup_nil (by simp)
    | some o => exact ho o rfl

theorem distinct_setAt {x : Value} (hx : x.Distinct) {path : List Text} {old : Option Value}
    (ho : ∀ o, old = some o → o.Distinct) : (setAt (path.map .field) x old).Distinct := by
  induction path generalizing old with
  | nil => exact distinct_merge hx ho
  | cons k path ih =>
    have hd : (old.getD .missing).Distinct := by
      cases old with
      | none => exact .leaf fun _ he => by cases he
      | some o => exact ho o rfl
    exact hd.alter (ih fun o hl => hd.lookup hl)

structure Fit (v : Value) : Prop where
  isTable : ∃ es, v = .table es
  distinct : v.Distinct
  plain : ∀ e ∈ v.entries, Layer.PlainKey e.1

theorem fit_empty : (Value.table []).Fit :=
  ⟨⟨[], rfl⟩, .table List.nodup_nil (by simp), fun e he => by cases he⟩

theorem Fit.setAt {v x : Value} (h : v.Fit) (hx : x.Distinct) {path : List Text}
    (hp : Layer.Path path) : (Value.setAt (path.map .field) x (some v)).Fit := by
  have hdistinct : (Value.setAt (path.map .field) x (some v)).Distinct :=
    distinct_setAt hx fun o ho => by
      cases ho
      exact h.distinct
  cases path with
  | nil =>
    obtain ⟨key, hkey, -⟩ | ⟨hne, -⟩ := hp
    · cases hkey
    · exact absurd rfl hne
  | cons k path =>
    have hk : Layer.PlainKey k := by
      obtain ⟨key, hkey, hplain⟩ | ⟨-, hnames⟩ := hp
      · exact (List.cons.inj hkey).1 ▸ hplain
      · exact (hnames k List.mem_cons_self).plainKey
    refine ⟨⟨_, rfl⟩, hdistinct, fun e he => ?_⟩
    obtain he | rfl := Entries.mem_alter he
    · exact h.plain e he
    · exact hk

theorem overlay_cons (v : Value) (e : Text × Value) (layer : List (Text × Value)) :
    v.overlay (e :: layer) = (Value.setAt (KeyPath.ofKey e.1) e.2 (some v)).overlay layer :=
  rfl

theorem overlay_of_plain {layer : List (Text × Value)} (h : ∀ e ∈ layer, Layer.PlainKey e.1)
    (s : Value) : s.overlay layer = mergeEntries layer s := by
  induction layer generalizing s with
  | nil => exact (mergeEntries.eq_1 s).symm
  | cons e layer ih =>
    obtain ⟨k, x⟩ := e
    obtain ⟨hk, h⟩ := List.forall_mem_cons.1 h
    rw [overlay_cons, KeyPath.ofKey_of_plain hk, mergeEntries]
    exact ih h _

theorem merged_overlay {v : Value} (h : v.Fit) (s : Value) :
    Merged (some s) v (s.overlay v.entries) := by
  obtain ⟨es, rfl⟩ := h.isTable
  rw [overlay_of_plain h.plain]
  exact merged_merge h.distinct (some s)

end Value

namespace Layer
variable {layer : Layer} {v : Value}

theorem overlay_entry_cons (e : List Text × Value) (layer : Layer) (he : Path e.1) :
    v.overlay ((e :: layer).map entry) =
      (Value.setAt (e.1.map .field) e.2 (some v)).overlay (layer.map entry) := by
  rw [List.map_cons, Value.overlay_cons, entry, KeyPath.ofKey_join he]

theorem merges_overlay (hp : ∀ e ∈ layer, Path e.1) (hv : ∀ e ∈ layer, e.2.Distinct) (v : Value) :
    Merges v layer (v.overlay (layer.map entry)) := by
  induction layer generalizing v with
  | nil => exact .nil
  | cons e layer ih =>
    obtain ⟨he, hp⟩ := List.forall_mem_cons.1 hp
    obtain ⟨hx, hv⟩ := List.forall_mem_cons.1 hv
    rw [overlay_entry_cons e layer he]
    exact .cons (Value.merged_setAt hx e.1 (some v)) (ih hp hv _)

theorem fit_overlay (hp : ∀ e ∈ layer, Path e.1) (hv : ∀ e ∈ layer, e.2.Distinct) (h : v.Fit) :
    (v.overlay (layer.map entry)).Fit := by
  induction layer generalizing v with
  | nil => exact h
  | cons e layer ih =>
    obtain ⟨he, hp⟩ := List.forall_mem_cons.1 hp
    obtain ⟨hx, hv⟩ := List.forall_mem_cons.1 hv
    rw [overlay_entry_cons e layer he]
    exact ih hp hv (h.setAt hx he)

theorem stacked_foldl_overlay {layers : List Layer} (hw : ∀ layer ∈ layers, layer.WellFormed)
    (h : v.Fit) :
    Stacked v layers ((layers.map (List.map entry)).foldl Value.overlay v) ∧
      ((layers.map (List.map entry)).foldl Value.overlay v).Fit := by
  induction layers generalizing v with
  | nil => exact ⟨.nil, h⟩
  | cons layer layers ih =>
    obtain ⟨hlayer, hw⟩ := List.forall_mem_cons.1 hw
    obtain ⟨hrest, hfit⟩ := ih hw (fit_overlay hlayer.paths hlayer.values h)
    exact ⟨.cons (.refl layer) (merges_overlay hlayer.paths hlayer.values v) hrest, hfit⟩

end Layer
end FileNaming
