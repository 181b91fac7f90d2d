import CodeIndex.Json.Basic

namespace CodeIndex.Json

/-- The values of the named fields; an array must have the first `least` of them. -/
def record? (names : List String) (least : Nat) : Json → Option (List (Option Json))
  | object fields =>
    if names.all fun name => fields.countP (·.1 == name) ≤ 1 then
      some (names.map fun name => fields.lookup name)
    else none
  | array items =>
    if least ≤ items.length && items.length ≤ names.length then
      some (names.zipIdx.map fun (_, i) => items[i]?)
    else none
  | _ => none

def variant? : Json → Option String
  | string t => t.map String.ofList
  | object [(name, null)] => some name
  | _ => none

/-- A field that may be missing or hold nothing. -/
def orNothing? (read : Json → Option α) : Option Json → Option (Option α)
  | none => some none
  | some null => some none
  | some j => (read j).map some

end CodeIndex.Json
