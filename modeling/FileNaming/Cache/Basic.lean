import FileNaming.FileName.Basic

/-! The files cache: the instances of the names put into it, in the order in
which they came, at most one for each name. A name that is there already is
answered with its instance; otherwise it gets a new one, which stays in the
cache as long as there is room. Nothing is replaced or evicted. -/

namespace FileNaming

structure Instance where
  serial : Nat
  name : FileName
deriving DecidableEq, Repr

structure FilesCache where
  capacity : Option Nat
  instances : List Instance
deriving DecidableEq, Repr

namespace FilesCache

def empty (capacity : Option Nat) : FilesCache :=
  ⟨capacity, []⟩

def null : FilesCache :=
  empty (some 0)

def size (c : FilesCache) : Nat :=
  c.instances.length

def hasRoom (c : FilesCache) : Bool :=
  match c.capacity with
  | none => true
  | some n => c.size < n

def find? (c : FilesCache) (n : FileName) : Option Instance :=
  c.instances.find? fun i => FileName.Same i.name n

def add (c : FilesCache) (i : Instance) : FilesCache :=
  if c.hasRoom then { c with instances := c.instances ++ [i] } else c

def put (c : FilesCache) (serial : Nat) (n : FileName) : Instance × FilesCache :=
  match c.find? n with
  | some i => (i, c)
  | none => (⟨serial, n⟩, c.add ⟨serial, n⟩)

def clear (c : FilesCache) : FilesCache :=
  { c with instances := [] }

end FilesCache
end FileNaming
