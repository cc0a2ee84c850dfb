import FileNaming.Proofs.Settings.Distinct

/-! Where a path leads after sources were merged. A source changes nothing at paths that
part from its own, and where its own paths lead, what it has is merged with what was there.
What is laid over settings as a whole is found below every table on the way. -/

namespace FileNaming

def Parallel (p q : List Text) : Prop :=
  ¬ p <+: q ∧ ¬ q <+: p

theorem Parallel.symm {p q : List Text} (h : Parallel p q) : Parallel q p :=
  ⟨h.2, h.1⟩

theorem Parallel.tail {k : Text} {p q : List Text} (h : Parallel (k :: p) (k :: q)) :
    Parallel p q :=
  ⟨fun hp => h.1 (List.cons_prefix_cons.2 ⟨rfl, hp⟩),
    fun hq => h.2 (List.cons_prefix_cons.2 ⟨rfl, hq⟩)⟩

theorem parallel_cons {k k' : Text} (h : k ≠ k') (p q : List Text) :
    Parallel (k :: p) (k' :: q) :=
  ⟨fun hp => h (List.cons_prefix_cons.1 hp).1, fun hq => h (List.cons_prefix_cons.1 hq).1.symm⟩

theorem Parallel.exists_cons {p q : List Text} (h : Parallel p q) :
    ∃ k ks k' ks', p = k :: ks ∧ q = k' :: ks' := by
  cases p with
  | nil => exact absurd List.nil_prefix h.1
  | cons k ks =>
    cases q with
    | nil => exact absurd List.nil_prefix h.2
    | cons k' ks' => exact ⟨k, ks, k', ks', rfl, rfl⟩

namespace Value
variable {p q : List Text} {v v' r s : Value} {old : Option Value}

theorem eq_table_or_ne (v : Value) : (∃ es, v = .table es) ∨ ∀ es, v ≠ .table es := by
  cases v with
  | table es => exact .inl ⟨es, rfl⟩
  | _ => exact .inr fun es h => by cases h

theorem entries_of_ne_table (h : ∀ es, v ≠ .table es) : v.entries = [] := by
  cases v with
  | table es => exact absurd rfl (h es)
  | _ => rfl

theorem at?_singleton (k : Text) (v : Value) : at? [k] v = v.entries.lookup k :=
  Option.bind_fun_some _

theorem at?_append (p q : List Text) (v : Value) : at? (p ++ q) v = (at? p v).bind (at? q) := by
  induction p generalizing v with
  | nil => rfl
  | cons k p ih =>
    show (v.entries.lookup k).bind (at? (p ++ q)) = ((v.entries.lookup k).bind (at? p)).bind (at? q)
    rw [Option.bind_assoc]
    exact congrArg _ (funext ih)

theorem at?_cons_of_ne_table {k : Text} (h : ∀ es, v ≠ .table es) : at? (k :: p) v = none := by
  rw [at?, entries_of_ne_table h]
  rfl

theorem lookup_singleton (k k' : Text) (x : Value) :
    [(k, x)].lookup k' = if k' = k then some x else none := by
  by_cases h : k' = k
  · simp [h]
  · have hb : (k' == k) = false := by simpa using h
    simp [List.lookup_cons, h, hb]

theorem lookup_singleton_eq_some_iff {k k' : Text} {x y : Value} :
    [(k, x)].lookup k' = some y ↔ k' = k ∧ x = y := by
  rw [lookup_singleton, Option.ite_none_right_eq_some, Option.some.injEq]

theorem lookup_singleton_eq_none_iff {k k' : Text} {x : Value} :
    [(k, x)].lookup k' = none ↔ k' ≠ k := by
  simp [lookup_singleton]

theorem lookup_along (k k' : Text) (p : List Text) (v : Value) :
    (along (k :: p) v).entries.lookup k' = if k' = k then some (along p v) else none :=
  lookup_singleton k k' (along p v)

theorem at?_along (p : List Text) (v : Value) : at? p (along p v) = some v := by
  induction p with
  | nil => rfl
  | cons k p ih => rw [at?, lookup_along, if_pos rfl, Option.bind_some, ih]

theorem at?_along_of_parallel (h : Parallel p q) : at? q (along p v) = none := by
  induction p generalizing q with
  | nil => exact absurd List.nil_prefix h.1
  | cons k p ih =>
    obtain ⟨-, -, k', q, -, rfl⟩ := h.exists_cons
    rw [at?, lookup_along]
    by_cases hk : k' = k
    · subst hk
      rw [if_pos rfl, Option.bind_some, ih h.tail]
    · rw [if_neg hk]
      rfl

theorem merged_none (v : Value) : Merged none v v := by
  cases v with
  | table es => exact .fresh
  | _ => exact .leaf fun _ h => by cases h

theorem Merged.eq_of_none (h : Merged none v r) : r = v := by
  cases h <;> rfl

theorem Merged.eq_of_ne_table (h : Merged old v r) (hv : ∀ es, v ≠ .table es) : r = v := by
  cases h with
  | leaf => rfl
  | fresh => rfl
  | instead => rfl
  | empty => exact absurd rfl (hv [])
  | keys => exact absurd rfl (hv _)

theorem Merged.at?_along (h : Merged old (along p v) r) :
    ∃ y, at? p r = some y ∧ Merged (old.bind (at? p)) v y := by
  induction p generalizing old r with
  | nil =>
    have ho : old.bind (at? []) = old := Option.bind_fun_some old
    exact ⟨r, rfl, by rwa [ho]⟩
  | cons k p ih =>
    have hnew : ∀ u : Option Value, u.bind (at? (k :: p)) = none →
        ∃ y, at? (k :: p) (along (k :: p) v) = some y ∧ Merged (u.bind (at? (k :: p))) v y :=
      fun u hu => ⟨v, Value.at?_along _ v, hu ▸ merged_none v⟩
    cases h with
    | leaf h => exact absurd rfl (h _)
    | fresh => exact hnew none rfl
    | instead h => exact hnew (some _) (at?_cons_of_ne_table h)
    | @keys _ _ rs new given merged kept =>
      have hk : (along (k :: p) v).entries.lookup k = some (along p v) := by
        rw [lookup_along, if_pos rfl]
      obtain ⟨y, hy, hm⟩ := ih (merged k _ hk)
      refine ⟨y, ?_, hm⟩
      show (rs.lookup k).bind (at? p) = some y
      rw [given k _ hk, Option.bind_some, hy]

theorem Merged.at?_of_parallel (h : Merged (some s) (along p v) r) (hp : Parallel p q) :
    at? q r = at? q s := by
  induction p generalizing q s r with
  | nil => exact absurd List.nil_prefix hp.1
  | cons k p ih =>
    obtain ⟨-, -, k', q, -, rfl⟩ := hp.exists_cons
    cases h with
    | leaf h => exact absurd rfl (h _)
    | instead h =>
      rw [at?_cons_of_ne_table h]
      exact at?_along_of_parallel hp
    | @keys os _ rs new given merged kept =>
      show (rs.lookup k').bind (at? q) = (os.lookup k').bind (at? q)
      by_cases hk : k' = k
      · subst hk
        have hlook : (along (k' :: p) v).entries.lookup k' = some (along p v) := by
          rw [lookup_along, if_pos rfl]
        have hm := merged k' _ hlook
        rw [given k' _ hlook]
        cases ho : os.lookup k' with
        | none =>
          rw [ho] at hm
          rw [Option.bind_some, hm.eq_of_none]
          exact at?_along_of_parallel hp.tail
        | some o =>
          rw [ho] at hm
          exact ih hm hp.tail
      · have hlook : (along (k :: p) v).entries.lookup k' = none := by
          rw [lookup_along, if_neg hk]
        rw [kept k' hlook]

/-- What is there on the way of the path is a table, but for its end. -/
def Open : List Text → Value → Prop
  | [], _ => True
  | k :: ks, v => (∃ es, v = .table es) ∧ ∀ x, v.entries.lookup k = some x → Open ks x

theorem Merged.open_path (h : Merged old v r) (hv : Open p v)
    (ho : ∀ o, old = some o → Open p o) : Open p r := by
  induction p generalizing old v r with
  | nil => trivial
  | cons k p ih =>
    cases h with
    | leaf => exact hv
    | fresh => exact hv
    | instead => exact hv
    | empty => exact ho r rfl
    | @keys os es rs new given merged kept =>
      refine ⟨⟨rs, rfl⟩, fun x hx => ?_⟩
      replace hx : rs.lookup k = some x := hx
      cases he : es.lookup k with
      | none =>
        rw [kept k he] at hx
        exact (ho _ rfl).2 x hx
      | some e =>
        rw [given k e he] at hx
        cases hx
        exact ih (merged k e he) (hv.2 e he) fun o hl => (ho _ rfl).2 o hl

theorem open_along (h : ∀ q', q = p ++ q' → Open q' v) : Open q (along p v) := by
  induction p generalizing q with
  | nil => exact h q rfl
  | cons k p ih =>
    cases q with
    | nil => trivial
    | cons k' q =>
      refine ⟨⟨_, rfl⟩, fun x hx => ?_⟩
      rw [lookup_along] at hx
      split at hx
      · rename_i hk
        cases hx
        exact ih fun q' hq => h q' (by rw [hk, hq]; rfl)
      · cases hx

theorem Merged.at?_of_open (h : Merged (some s) v r) (ho : Open p v) :
    (at? p v = none → at? p r = at? p s) ∧
      ∀ x, at? p v = some x → ∃ y, at? p r = some y ∧ Merged (at? p s) x y := by
  induction p generalizing s v r with
  | nil =>
    refine ⟨(fun hn => by cases hn), fun x hx => ?_⟩
    cases hx
    exact ⟨r, rfl, h⟩
  | cons k p ih =>
    obtain ⟨⟨es, rfl⟩, ho⟩ := ho
    cases h with
    | leaf h => exact absurd rfl (h es)
    | instead h =>
      rw [at?_cons_of_ne_table h]
      exact ⟨id, fun x hx => ⟨x, hx, merged_none x⟩⟩
    | empty => exact ⟨fun _ => rfl, fun x hx => by cases hx⟩
    | @keys os _ rs new given merged kept =>
      show ((es.lookup k).bind (at? p) = none →
          (rs.lookup k).bind (at? p) = (os.lookup k).bind (at? p)) ∧
        ∀ x, (es.lookup k).bind (at? p) = some x →
          ∃ y, (rs.lookup k).bind (at? p) = some y ∧ Merged ((os.lookup k).bind (at? p)) x y
      cases he : es.lookup k with
      | none =>
        rw [kept k he]
        exact ⟨fun _ => rfl, fun x hx => by cases hx⟩
      | some e =>
        have hm := merged k e he
        rw [given k e he]
        cases hl : os.lookup k with
        | none =>
          rw [hl] at hm
          rw [hm.eq_of_none]
          exact ⟨id, fun x hx => ⟨x, hx, merged_none x⟩⟩
        | some o =>
          rw [hl] at hm
          exact ih hm (ho e he)

end Value

namespace Layer
variable {layer : Layer} {v r : Value} {q : List Text}

theorem Merges.at?_of_parallel (h : Merges v layer r) (hq : ∀ e ∈ layer, Parallel e.1 q) :
    Value.at? q r = Value.at? q v := by
  induction h with
  | nil => rfl
  | cons first _ ih =>
    obtain ⟨he, hq⟩ := List.forall_mem_cons.1 hq
    rw [ih hq, first.at?_of_parallel he]

theorem Merges.at?_of_mem (h : Merges v layer r)
    (hp : layer.Pairwise fun a b => Parallel a.1 b.1) {e : List Text × Value} (he : e ∈ layer) :
    ∃ y, Value.at? e.1 r = some y ∧ Value.Merged (Value.at? e.1 v) e.2 y := by
  induction h with
  | nil => cases he
  | cons first rest ih =>
    obtain ⟨hhead, hp⟩ := List.pairwise_cons.1 hp
    obtain rfl | he := List.mem_cons.1 he
    · obtain ⟨y, hy, hm⟩ := first.at?_along
      exact ⟨y, (rest.at?_of_parallel fun d hd => (hhead d hd).symm).trans hy, hm⟩
    · rw [← first.at?_of_parallel (hhead e he)]
      exact ih hp he

theorem Merges.open_path (h : Merges v layer r)
    (ho : ∀ e ∈ layer, Value.Open q (Value.along e.1 e.2)) (hv : Value.Open q v) :
    Value.Open q r := by
  induction h with
  | nil => exact hv
  | cons first _ ih =>
    obtain ⟨he, ho⟩ := List.forall_mem_cons.1 ho
    exact ih ho (first.open_path he fun o h => by cases h; exact hv)

end Layer
end FileNaming
