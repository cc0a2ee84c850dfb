import FileNaming.Proofs.Settings.Lawful

/-! Values without doubled keys: no table in them gives a key twice. Changing an
entry keeps this. -/

namespace FileNaming

namespace Entries
variable {α : Type} {key : Text} {f : Option α → α} {es : List (Text × α)}

theorem lookup_eq_none_iff_notMem {k : Text} : es.lookup k = none ↔ k ∉ es.map Prod.fst := by
  rw [List.lookup_eq_none_iff]
  constructor
  · intro h hk
    obtain ⟨e, he, rfl⟩ := List.mem_map.1 hk
    simpa using h e he
  · intro h e he
    have hne : k ≠ e.1 := fun hk => h (hk ▸ List.mem_map_of_mem he)
    simpa using hne

theorem mem_of_lookup {k : Text} {x : α} (h : es.lookup k = some x) : (k, x) ∈ es := by
  obtain ⟨before, after, rfl, -⟩ := List.lookup_eq_some_iff.1 h
  simp

theorem lookup_of_mem {k : Text} {x : α} (hn : (es.map Prod.fst).Nodup) (h : (k, x) ∈ es) :
    es.lookup k = some x := by
  obtain ⟨before, after, rfl⟩ := List.append_of_mem h
  rw [List.map_append, List.nodup_append] at hn
  have hnone : before.lookup k = none :=
    lookup_eq_none_iff_notMem.2 fun hk => hn.2.2 k hk k List.mem_cons_self rfl
  rw [List.lookup_append, hnone, List.lookup_cons_self]
  rfl

theorem alter_of_notMem (h : key ∉ es.map Prod.fst) :
    alter key f es = es ++ [(key, f none)] := by
  induction es with
  | nil => rfl
  | cons e es ih =>
    simp only [List.map_cons, List.mem_cons, not_or] at h
    rw [alter, if_neg (Ne.symm h.1), ih h.2]
    rfl

theorem map_fst_alter_of_mem (h : key ∈ es.map Prod.fst) :
    (alter key f es).map Prod.fst = es.map Prod.fst := by
  induction es with
  | nil => cases h
  | cons e es ih =>
    by_cases hk : e.1 = key
    · simp [alter, hk]
    · simp only [List.map_cons, List.mem_cons, Ne.symm hk, false_or] at h
      simp [alter, hk, ih h]

theorem nodup_alter (h : (es.map Prod.fst).Nodup) : ((alter key f es).map Prod.fst).Nodup := by
  by_cases hk : key ∈ es.map Prod.fst
  · rwa [map_fst_alter_of_mem hk]
  · rw [alter_of_notMem hk, List.map_append, List.nodup_append]
    refine ⟨h, by simp, ?_⟩
    simp only [List.map_cons, List.map_nil, List.mem_singleton, forall_eq]
    exact fun k hm hne => hk (hne ▸ hm)

theorem mem_alter {e : Text × α} (h : e ∈ alter key f es) :
    e ∈ es ∨ e = (key, f (es.lookup key)) := by
  induction es with
  | nil => exact .inr (List.mem_singleton.1 h)
  | cons d es ih =>
    obtain ⟨k, x⟩ := d
    by_cases hk : k = key
    · subst hk
      simp only [alter, if_true, List.mem_cons] at h
      obtain rfl | h := h
      · exact .inr (by simp)
      · exact .inl (List.mem_cons_of_mem _ h)
    · simp only [alter, if_neg hk, List.mem_cons] at h
      obtain rfl | h := h
      · exact .inl List.mem_cons_self
      · have hb : (key == k) = false := by simpa using Ne.symm hk
        rw [List.lookup_cons, hb]
        exact (ih h).imp_left (List.mem_cons_of_mem _)

end Entries

namespace Value

theorem distinct_text (t : Text) : (text t).Distinct :=
  .leaf fun _ h => by cases h

theorem distinct_table_iff {es : List (Text × Value)} :
    (table es).Distinct ↔ (es.map Prod.fst).Nodup ∧ ∀ e ∈ es, e.2.Distinct := by
  constructor
  · intro h
    cases h with
    | leaf h => exact absurd rfl (h es)
    | table keys values => exact ⟨keys, values⟩
  · rintro ⟨keys, values⟩
    exact .table keys values

theorem Distinct.entries {v : Value} (h : v.Distinct) : (Value.table v.entries).Distinct := by
  cases h with
  | leaf h =>
    cases v with
    | table es => exact absurd rfl (h es)
    | _ => exact .table List.nodup_nil (by simp [Value.entries])
  | table keys values => exact .table keys values

theorem Distinct.lookup {v x : Value} (h : v.Distinct) {k : Text}
    (hx : v.entries.lookup k = some x) : x.Distinct :=
  (distinct_table_iff.1 h.entries).2 _ (Entries.mem_of_lookup hx)

theorem Distinct.alter {v : Value} (h : v.Distinct) {k : Text} {f : Option Value → Value}
    (hf : (f (v.entries.lookup k)).Distinct) :
    (Value.table (Entries.alter k f v.entries)).Distinct := by
  obtain ⟨keys, values⟩ := distinct_table_iff.1 h.entries
  refine .table (Entries.nodup_alter keys) fun e he => ?_
  obtain he | rfl := Entries.mem_alter he
  · exact values e he
  · exact hf

end Value
end FileNaming
