import FileNaming.Proofs.Text.Numeral
import FileNaming.Settings.Basic
import FileNaming.Settings.Environment
import FileNaming.Text.Segments

/-! What the library that settings are loaded with is relied on for. Sources are merged key
by key in the order in which they are added, while the entries of one source have no order.
The letter case of a variable does not count. Each value is converted on its own. -/

namespace FileNaming

inductive Setting
  | defaultScope
  | cacheKind
  | maxEntries
deriving DecidableEq, Repr

namespace Setting

def path : Setting → List Text
  | defaultScope => ["default_scope".toList]
  | cacheKind => ["cache".toList, "kind".toList]
  | maxEntries => ["cache".toList, "max_entries".toList]

def key (s : Setting) : Text :=
  Text.join '.' s.path

def variableName : Setting → Text
  | defaultScope => "VFS_NAMES_DEFAULT_SCOPE".toList
  | cacheKind => "VFS_NAMES_CACHE__KIND".toList
  | maxEntries => "VFS_NAMES_CACHE__MAX_ENTRIES".toList

def default? : Setting → Option Value
  | defaultScope => some (.text Scope.fileSystem.text)
  | cacheKind => some (.text CacheKind.default.text)
  | maxEntries => none

def Named (s : Setting) (name : Text) : Prop :=
  name.map Environment.lower = s.variableName.map Environment.lower

instance (s : Setting) (name : Text) : Decidable (s.Named name) :=
  inferInstanceAs (Decidable (_ = _))

end Setting

/-- The settings that variables give, where no other variable has the prefix of the tool. -/
inductive Environment.Gives : List (Text × Text) → List (Setting × Text) → Prop
  | nil : Gives [] []
  | named {name t : Text} {s : Setting} {environment : List (Text × Text)}
      {given : List (Setting × Text)} (h : s.Named name) (rest : Gives environment given) :
      Gives ((name, t) :: environment) ((s, t) :: given)
  | other {name t : Text} {environment : List (Text × Text)} {given : List (Setting × Text)}
      (h : ¬ lead <+: name.map lower) (rest : Gives environment given) :
      Gives ((name, t) :: environment) given

namespace Value

def at? : List Text → Value → Option Value
  | [], v => some v
  | k :: ks, v => (v.entries.lookup k).bind (at? ks)

def along : List Text → Value → Value
  | [], v => v
  | k :: ks, v => .table [(k, along ks v)]

inductive Distinct : Value → Prop
  | leaf {v : Value} (h : ∀ es, v ≠ .table es) : Distinct v
  | table {es : List (Text × Value)} (keys : (es.map Prod.fst).Nodup)
    (values : ∀ e ∈ es, Distinct e.2) : Distinct (.table es)

/-- `Merged old v r`: laid over what is there, a table leaves alone what it has no key for,
and any other value takes its place. -/
inductive Merged : Option Value → Value → Value → Prop
  | leaf {old : Option Value} {v : Value} (h : ∀ es, v ≠ .table es) : Merged old v v
  | fresh {es : List (Text × Value)} : Merged none (.table es) (.table es)
  | instead {old : Value} {es : List (Text × Value)} (h : ∀ os, old ≠ .table os) (he : es ≠ []) :
      Merged (some old) (.table es) (.table es)
  | empty {old : Value} : Merged (some old) (.table []) old
  | keys {os es rs : List (Text × Value)} (r : Text → Value)
      (given : ∀ k v, es.lookup k = some v → rs.lookup k = some (r k))
      (merged : ∀ k v, es.lookup k = some v → Merged (os.lookup k) v (r k))
      (kept : ∀ k, es.lookup k = none → rs.lookup k = os.lookup k) :
      Merged (some (.table os)) (.table es) (.table rs)

end Value

abbrev Layer := List (List Text × Value)

namespace Layer

def PlainKey (key : Text) : Prop :=
  '.' ∉ key ∧ '[' ∉ key

instance (key : Text) : Decidable (PlainKey key) :=
  inferInstanceAs (Decidable (_ ∧ _))

def Name (name : Text) : Prop :=
  name ≠ [] ∧ ∀ c ∈ name, c.isAlphanum ∨ c = '_'

theorem name_iff_all {name : Text} :
    Name name ↔ name ≠ [] ∧ name.all (fun c => c.isAlphanum || c = '_') = true := by
  simp [Name]

instance (name : Text) : Decidable (Name name) :=
  decidable_of_iff _ name_iff_all.symm

def Path (path : List Text) : Prop :=
  (∃ key, path = [key] ∧ PlainKey key) ∨ path ≠ [] ∧ ∀ name ∈ path, Name name

def entry (e : List Text × Value) : Text × Value :=
  (Text.join '.' e.1, e.2)

structure WellFormed (layer : Layer) : Prop where
  paths : ∀ e ∈ layer, Path e.1
  values : ∀ e ∈ layer, e.2.Distinct
  nodup : (layer.map Prod.fst).Nodup

inductive Merges : Value → Layer → Value → Prop
  | nil {v : Value} : Merges v [] v
  | cons {v v' r : Value} {e : List Text × Value} {layer : Layer}
      (first : Value.Merged (some v) (Value.along e.1 e.2) v') (rest : Merges v' layer r) :
      Merges v (e :: layer) r

inductive Stacked : Value → List Layer → Value → Prop
  | nil {v : Value} : Stacked v [] v
  | cons {v v' r : Value} {layer layer' : Layer} {layers : List Layer}
      (order : layer'.Perm layer) (first : Merges v layer' v') (rest : Stacked v' layers r) :
      Stacked v (layer :: layers) r

end Layer

/-- The numbers that a text is read as: a switch in any letter case is one or zero, and a
numeral counts below the bound of a machine word. -/
inductive CountText : Text → Nat → Prop
  | on {t : Text} (h : t.map Char.toLower ∈ ["true".toList, "on".toList, "yes".toList]) :
      CountText t 1
  | off {t : Text} (h : t.map Char.toLower ∈ ["false".toList, "off".toList, "no".toList]) :
      CountText t 0
  | numeral {t : Text} {n : Nat} (h : Text.Spells t n) (hn : n < Nat.pow 2 64) : CountText t n

namespace Loader
variable (l : Loader)

structure Converts (value : Setting → Value) (s : Settings) : Prop where
  scope : ∃ t, l.text? (value .defaultScope) = some t ∧ Scope.ofText t = .ok s.defaultScope
  kind : l.variant? (value .cacheKind) = some s.kind.text
  maxEntries : (value .maxEntries = .missing ∧ s.maxEntries = none) ∨
    value .maxEntries ≠ .missing ∧ ∃ n, l.count? (value .maxEntries) = some n ∧
      s.maxEntries = some n

/-- The sources are laid over one another first, and what they give together is laid over the
defaults. -/
structure Lawful : Prop where
  file_distinct : ∀ t es, l.file? t = some es → (Value.table es).Distinct
  names_ignore_case : ∀ environment given, Environment.Gives environment given →
    (given.map Prod.fst).Nodup → ∃ given' : List (Setting × Text), given'.Perm given ∧
      l.environment environment = given'.map fun g => (g.1.key, .text g.2)
  merges_by_key : ∀ (defaults : Layer) (sources : List Layer), defaults.WellFormed →
    (∀ layer ∈ sources, layer.WellFormed) →
      ∃ lower upper, Layer.Stacked (.table []) [defaults] lower ∧
        Layer.Stacked (.table []) sources upper ∧
        Value.Merged (some lower) upper
          (l.build (defaults.map Layer.entry) (sources.map (List.map Layer.entry)))
  converts_alone : ∀ v s, (∀ k : Setting, k.default?.isSome → (Value.at? k.path v).isSome) →
    (l.deserialize v = .ok s ↔ l.Converts (fun k => (Value.at? k.path v).getD .missing) s)
  text_of_text : ∀ t, l.text? (.text t) = some t
  variant_of_text : ∀ t, l.variant? (.text t) = some t
  count_of_text : ∀ t n, l.count? (.text t) = some n ↔ CountText t n
  count_of_integer : ∀ i n, l.count? (.integer i) = some n ↔ i = n

end Loader
end FileNaming
