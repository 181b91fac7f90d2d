import CodeIndex.Text.Blank

namespace CodeIndex.Text

/-- Places where one text stands inside another; they may overlap. -/
def occurrences (part : Text) : Text → Nat
  | [] => if part.isEmpty then 1 else 0
  | c :: t => (if part.isPrefixOf (c :: t) then 1 else 0) + occurrences part t

def includes (t part : Text) : Bool :=
  part.isPrefixOf t || match t with
    | [] => false
    | _ :: t => includes t part

end CodeIndex.Text
