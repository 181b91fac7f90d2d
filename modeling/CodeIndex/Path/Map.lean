import CodeIndex.Path

namespace CodeIndex

/-- Values by path. Spellings of the same path name one entry, which keeps the spelling it was first
entered with. -/
abbrev PathMap (α : Type) := List (Path × α)

namespace PathMap

def at? (p : Path) (m : PathMap α) : Option α := (m.find? fun e => Path.same e.1 p).map (·.2)

def set (p : Path) (a : α) : PathMap α → PathMap α
  | [] => [(p, a)]
  | (q, b) :: m => if Path.same q p then (q, a) :: m else (q, b) :: set p a m

def erase (p : Path) (m : PathMap α) : PathMap α := m.filter fun e => !Path.same e.1 p

end PathMap
end CodeIndex
