import CodeIndex.Binary32
import CodeIndex.Change

namespace CodeIndex

inductive Status where
  | loading
  | indexing
  | paused
  | done
  | failed
deriving DecidableEq, Repr

namespace Status

def name : Status → String
  | loading => "loading"
  | indexing => "indexing"
  | paused => "paused"
  | done => "done"
  | failed => "failed"

def all : List Status := [.loading, .indexing, .paused, .done, .failed]

def ofName? (name : String) : Option Status := all.find? (·.name == name)

end Status

/-- An item by which a refresh reports its progress, with the counts folded so far. A failed item
that names a file and is not cancelled reports that file alone; the refresh goes on. -/
structure Progress where
  status : Status
  fraction : Binary32
  description : String
  path : Option Path
  change : Option Change
  cancelled : Bool
deriving DecidableEq

namespace Progress

def plain (status : Status) (fraction : Binary32) (description : String) : Progress :=
  ⟨status, fraction.clampUnit, description, none, none, false⟩

def loading (description : String) : Progress := plain .loading .zero description

def indexed (fraction : Binary32) (path : Path) (change : Change) : Progress :=
  { plain .indexing fraction (change.name ++ " " ++ path) with
    path := some path, change := some change }

def paused (fraction : Binary32) : Progress := plain .paused fraction "indexing paused"

def done (description : String) : Progress := plain .done .one description

def fileFailed (fraction : Binary32) (path : Path) (change : Option Change) (reason : String) :
    Progress :=
  { plain .failed fraction ("failed to index " ++ path ++ ": " ++ reason) with
    path := some path, change }

def stopped (fraction : Binary32) : Progress :=
  { plain .failed fraction "indexing cancelled" with cancelled := true }

/-- Whether a refresh ends with this item. -/
def isTerminal (p : Progress) : Bool :=
  match p.status with
  | .done => true
  | .failed => p.cancelled || p.path.isNone
  | _ => false

/-- The share of `total` that is done; all of nothing is done. -/
def share (done total : Nat) : Binary32 :=
  if total = 0 then .one else .ofWord done.toUInt64 / .ofWord total.toUInt64

end Progress

structure Summary where
  added : Nat := 0
  updated : Nat := 0
  removed : Nat := 0
  failed : Nat := 0
  paused : Nat := 0
  cancelled : Bool := false
  done : Bool := false
deriving DecidableEq, Repr

namespace Summary

def record (s : Summary) (p : Progress) : Summary :=
  match p.status with
  | .indexing =>
    match p.change with
    | some .added => { s with added := s.added + 1 }
    | some .updated => { s with updated := s.updated + 1 }
    | some .removed => { s with removed := s.removed + 1 }
    | _ => s
  | .paused => { s with paused := s.paused + 1 }
  | .failed =>
    if p.cancelled then { s with cancelled := true } else { s with failed := s.failed + 1 }
  | .done => { s with done := true }
  | .loading => s

def ofItems (items : List Progress) : Summary := items.foldl record {}

/-- The files that went through every artifact. -/
def indexed (s : Summary) : Nat := s.added + s.updated + s.removed

end Summary
end CodeIndex
