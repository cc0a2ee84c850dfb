import FileNaming.FileName.Basic

/-! The names that can be reached from a name: by resolving a text against one
reached before, or by going to its parent. All of them lie in the same place. -/

namespace FileNaming.FileName

inductive Reaches (start : FileName) : FileName → Prop
  | refl : Reaches start start
  | resolve {n m : FileName} {name : Text} {scope : Scope} (h : Reaches start n)
    (hm : n.resolve name scope = .ok m) : Reaches start m
  | parent {n m : FileName} (h : Reaches start n) (hm : n.parent? = some m) : Reaches start m

theorem backend_of_resolve {n m : FileName} {name : Text} {scope : Scope}
    (h : n.resolve name scope = .ok m) : m.backend = n.backend ∧ m.scheme = n.scheme := by
  obtain ⟨p, -, rfl⟩ := resolve_eq_ok_iff.1 h
  exact ⟨rfl, rfl⟩

theorem backend_of_parent {n m : FileName} (h : n.parent? = some m) :
    m.backend = n.backend ∧ m.scheme = n.scheme := by
  obtain ⟨p, -, rfl⟩ := Option.map_eq_some_iff.1 h
  exact ⟨rfl, rfl⟩

theorem Reaches.backend_eq {start n : FileName} (h : Reaches start n) :
    n.backend = start.backend ∧ n.scheme = start.scheme := by
  induction h with
  | refl => exact ⟨rfl, rfl⟩
  | resolve _ hm ih =>
    have hb := backend_of_resolve hm
    exact ⟨hb.1.trans ih.1, hb.2.trans ih.2⟩
  | parent _ hm ih =>
    have hb := backend_of_parent hm
    exact ⟨hb.1.trans ih.1, hb.2.trans ih.2⟩

theorem Reaches.rootUri_eq {start n : FileName} (h : Reaches start n) :
    n.rootUri = start.rootUri := by
  unfold rootUri
  rw [h.backend_eq.1, h.backend_eq.2]

end FileNaming.FileName
