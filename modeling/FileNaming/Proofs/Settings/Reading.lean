import FileNaming.Proofs.Path.Spelling
import FileNaming.Proofs.Settings.Lawful

/-! What a value is read as. A text is read as the scope that it spells, as the kind whose
word it is and as the count that it writes. How other values are read is left to the
library, but for integers. -/

namespace FileNaming.Loader
variable {l : Loader}

inductive ReadsScope (l : Loader) : Value → Scope → Prop
  | text {t : Text} {s : Scope} (h : s.Spells t) : ReadsScope l (.text t) s
  | other {v : Value} {t : Text} {s : Scope} (hv : ∀ u, v ≠ .text u) (ht : l.text? v = some t)
      (h : s.Spells t) : ReadsScope l v s

inductive ReadsKind (l : Loader) : Value → CacheKind → Prop
  | text (k : CacheKind) : ReadsKind l (.text k.text) k
  | other {v : Value} {k : CacheKind} (hv : ∀ u, v ≠ .text u) (h : l.variant? v = some k.text) :
      ReadsKind l v k

inductive ReadsLimit (l : Loader) : Value → Option Nat → Prop
  | missing : ReadsLimit l .missing none
  | text {t : Text} {n : Nat} (h : CountText t n) : ReadsLimit l (.text t) (some n)
  | integer (n : Nat) : ReadsLimit l (.integer n) (some n)
  | other {v : Value} {n : Nat} (hm : v ≠ .missing) (ht : ∀ u, v ≠ .text u)
      (hi : ∀ i, v ≠ .integer i) (h : l.count? v = some n) : ReadsLimit l v (some n)

structure Reads (l : Loader) (value : Setting → Value) (s : Settings) : Prop where
  scope : l.ReadsScope (value .defaultScope) s.defaultScope
  kind : l.ReadsKind (value .cacheKind) s.kind
  maxEntries : l.ReadsLimit (value .maxEntries) s.maxEntries

def Accepts (l : Loader) (v : Value) : Setting → Prop
  | .defaultScope => ∃ s, l.ReadsScope v s
  | .cacheKind => ∃ k, l.ReadsKind v k
  | .maxEntries => ∃ m, l.ReadsLimit v m

theorem exists_reads_iff {value : Setting → Value} :
    (∃ s, l.Reads value s) ↔ ∀ k, l.Accepts (value k) k := by
  constructor
  · rintro ⟨s, hs⟩ k
    cases k with
    | defaultScope => exact ⟨_, hs.scope⟩
    | cacheKind => exact ⟨_, hs.kind⟩
    | maxEntries => exact ⟨_, hs.maxEntries⟩
  · intro h
    obtain ⟨scope, hscope⟩ := h .defaultScope
    obtain ⟨kind, hkind⟩ := h .cacheKind
    obtain ⟨m, hm⟩ := h .maxEntries
    exact ⟨⟨scope, kind, m⟩, hscope, hkind, hm⟩

theorem Lawful.readsScope_iff (hl : l.Lawful) {v : Value} {s : Scope} :
    l.ReadsScope v s ↔ ∃ t, l.text? v = some t ∧ Scope.ofText t = .ok s := by
  simp only [Scope.ofText_eq_ok_iff]
  constructor
  · rintro (⟨h⟩ | ⟨-, ht, h⟩)
    · exact ⟨_, hl.text_of_text _, h⟩
    · exact ⟨_, ht, h⟩
  · rintro ⟨t, ht, h⟩
    cases v with
    | text u =>
      rw [hl.text_of_text] at ht
      cases ht
      exact .text h
    | _ => exact .other (fun u hu => by cases hu) ht h

theorem Lawful.readsKind_iff (hl : l.Lawful) {v : Value} {k : CacheKind} :
    l.ReadsKind v k ↔ l.variant? v = some k.text := by
  constructor
  · rintro (_ | ⟨-, h⟩)
    · exact hl.variant_of_text _
    · exact h
  · intro h
    cases v with
    | text u =>
      rw [hl.variant_of_text] at h
      cases h
      exact .text k
    | _ => exact .other (fun u hu => by cases hu) h

theorem Lawful.readsLimit_iff (hl : l.Lawful) {v : Value} {m : Option Nat} :
    l.ReadsLimit v m ↔ (v = .missing ∧ m = none) ∨
      v ≠ .missing ∧ ∃ n, l.count? v = some n ∧ m = some n := by
  constructor
  · rintro (_ | h | n | ⟨hm, -, -, h⟩)
    · exact .inl ⟨rfl, rfl⟩
    · exact .inr ⟨(fun hm => by cases hm), _, (hl.count_of_text _ _).2 h, rfl⟩
    · exact .inr ⟨(fun hm => by cases hm), n, (hl.count_of_integer _ _).2 rfl, rfl⟩
    · exact .inr ⟨hm, _, h, rfl⟩
  · rintro (⟨rfl, rfl⟩ | ⟨hm, n, hn, rfl⟩)
    · exact .missing
    · cases v with
      | text t => exact .text ((hl.count_of_text t n).1 hn)
      | integer i =>
        obtain rfl := (hl.count_of_integer i n).1 hn
        exact .integer n
      | _ => exact .other hm (fun u hu => by cases hu) (fun i hi => by cases hi) hn

theorem Lawful.reads_iff (hl : l.Lawful) {value : Setting → Value} {s : Settings} :
    l.Reads value s ↔ l.Converts value s := by
  constructor
  · rintro ⟨scope, kind, limit⟩
    exact ⟨hl.readsScope_iff.1 scope, hl.readsKind_iff.1 kind, hl.readsLimit_iff.1 limit⟩
  · rintro ⟨scope, kind, limit⟩
    exact ⟨hl.readsScope_iff.2 scope, hl.readsKind_iff.2 kind, hl.readsLimit_iff.2 limit⟩

end FileNaming.Loader
