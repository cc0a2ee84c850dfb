import FileNaming.Cache.Basic
import FileNaming.ConfigError

/-! The life of a configuration: caches are made, one of them is attached, and
initializing puts the configuration in use, after which the attached cache stays.
Names are resolved through the attached cache. A step of a session changes the
state and has an outcome. -/

namespace FileNaming

abbrev Handle := Nat

/-- Every cache made so far, by handle, and the number of instances made so far,
which is the next serial. -/
structure Session where
  caches : List FilesCache
  attached : Handle
  inUse : Bool
  defaultScope : Scope
  created : Nat
deriving DecidableEq, Repr

inductive Step
  | newCache (capacity : Option Nat)
  | attach (cache : Handle)
  | init
  | close
  | resolve (base : FileName) (name : Text) (scope : Option Scope)
  | put (cache : Option Handle) (name : FileName)
  | get (cache : Option Handle) (name : FileName)
  | initCache (cache : Option Handle)
  | clear (cache : Option Handle)
  | closeCache (cache : Option Handle)
deriving DecidableEq, Repr

inductive Outcome
  | done
  | absent
  | shown (shared : Instance)
  | refused (error : ConfigError)
  | failed (error : NameError)
deriving DecidableEq, Repr

namespace Session

def start (first : FilesCache) (defaultScope : Scope) : Session :=
  ⟨[first], 0, false, defaultScope, 0⟩

/-- A handle that was never given out stands for a cache that keeps nothing. -/
def cacheAt (s : Session) (h : Handle) : FilesCache :=
  s.caches.getD h .null

def setCache (s : Session) (h : Handle) (c : FilesCache) : Session :=
  { s with caches := s.caches.set h c }

def handle (s : Session) (h : Option Handle) : Handle :=
  h.getD s.attached

def attachedCache (s : Session) : FilesCache :=
  s.cacheAt s.attached

def createdBy (s : Session) (c : FilesCache) (n : FileName) : Nat :=
  if (c.find? n).isSome then s.created else s.created + 1

def putAt (s : Session) (h : Handle) (n : FileName) : Outcome × Session :=
  let c := s.cacheAt h
  let r := c.put s.created n
  (.shown r.1, { s.setCache h r.2 with created := s.createdBy c n })

def getAt (s : Session) (h : Handle) (n : FileName) : Outcome :=
  match (s.cacheAt h).find? n with
  | some i => .shown i
  | none => .absent

def clearAt (s : Session) (h : Handle) : Session :=
  s.setCache h (s.cacheAt h).clear

def resolve (s : Session) (base : FileName) (name : Text) (scope : Option Scope) :
    Outcome × Session :=
  match base.resolve name (scope.getD s.defaultScope) with
  | .error e => (.failed e, s)
  | .ok n =>
    match s.attachedCache.find? n with
    | some i => (.shown i, s)
    | none => s.putAt s.attached n

def whenFree (s : Session) (s' : Session) : Outcome × Session :=
  if s.inUse then (.refused .inUse, s) else (.done, s')

def step (s : Session) : Step → Outcome × Session
  | .newCache capacity => (.done, { s with caches := s.caches ++ [.empty capacity] })
  | .attach h => s.whenFree { s with attached := h }
  | .init => s.whenFree { s with inUse := true }
  | .close => (.done, s.clearAt s.attached)
  | .resolve base name scope => s.resolve base name scope
  | .put h n => s.putAt (s.handle h) n
  | .get h n => (s.getAt (s.handle h) n, s)
  | .initCache _ => (.done, s)
  | .clear h => (.done, s.clearAt (s.handle h))
  | .closeCache h => (.done, s.clearAt (s.handle h))

def run (s : Session) (steps : List Step) : Session :=
  steps.foldl (fun s step => (s.step step).2) s

end Session
end FileNaming
