import CodeIndex.Search.Hit
import CodeIndex.Search.Query
import CodeIndex.Store.Basic
import CodeIndex.Text.CaseFold
import CodeIndex.Text.Part

namespace CodeIndex.FullText

def pathWeight : Nat := 10

/-- How strongly further places of a term count. -/
def saturation : Float := 1.2

/-- How strongly the length of a text counts. -/
def lengthWeight : Float := 0.75

/-- The least weight of a term, for terms that stand in most texts. -/
def leastWeight : Float := 1e-6

/-- A stored text as it is searched. -/
structure Entry where
  id : Nat
  path : Text
  content : Text
  size : Nat

/-- The windows of three neighbouring characters. -/
def trigramCount (t : Text) : Nat := t.length - 2

def Entry.ofText (t : StoredText) : Entry :=
  let path := Text.fold t.path.toList
  let content := Text.fold t.content
  ⟨t.id, path, content, trigramCount path + trigramCount content⟩

/-- The places of a term, weighted. -/
def Entry.places (e : Entry) (term : Text) : Nat :=
  pathWeight * Text.occurrences term e.path + Text.occurrences term e.content

/-- The weight of a term that stands in `count` of `total` texts. -/
def termWeight (total count : Nat) : Float :=
  let w := Float.log ((total.toFloat - count.toFloat + 0.5) / (count.toFloat + 0.5))
  if w ≤ 0 then leastWeight else w

/-- What a term adds to the score of a text, by its weight, its places and the size of the text. -/
def addend (weight average : Float) (places size : Nat) : Float :=
  let h := places.toFloat
  weight * ((h * (saturation + 1)) /
    (h + saturation * (1 - lengthWeight + lengthWeight * size.toFloat / average)))

/-- The score of a text for terms with their weights. -/
def score (average : Float) (terms : List (Text × Float)) (e : Entry) : Float :=
  terms.foldl (fun sum (term, weight) => sum + addend weight average (e.places term) e.size) 0

/-- A term stands in the path or in the content, whatever the case. -/
def isMatch (terms : List (Text × Float)) (e : Entry) : Bool :=
  terms.any fun (term, _) => 0 < e.places term

/-- The texts that match, each with its score, in the order they were stored. -/
def ranked (terms : List Text) (texts : List StoredText) : List (StoredText × Float) :=
  let entries := texts.map Entry.ofText
  let total := entries.length
  let average := (entries.foldr (fun (e : Entry) n => e.size + n) 0).toFloat / total.toFloat
  let weighted := terms.map fun term =>
    (term, termWeight total (entries.countP fun e => 0 < e.places term))
  (texts.zip entries).filterMap fun (t, e) =>
    if isMatch weighted e then some (t, score average weighted e) else none

/-- A limit must fit a signed machine word. -/
def limitBound : Nat := UInt64.size / 2

/-- Whether a path is in the directory asked for, if there is one. -/
def inDirectory (dir : Option Path) (p : Path) : Bool :=
  match dir with
  | none => true
  | some d => Path.isBelow d p

/-- The segment of a text, if it is filed under one of the keys and below the directory. -/
def segmentOf? (st : Store) (keys : List String) (dir : Option Path) (id : Nat) :
    Option (Slot × Segment) :=
  st.segments.find? fun (slot, s) =>
    s.textId = id && keys.contains slot.tag && inDirectory dir slot.path

def hit? (st : Store) (keys : List String) (dir : Option Path) (t : StoredText) (score : Float) :
    Option (Hit × Float) :=
  (segmentOf? st keys dir t.id).map fun (slot, s) =>
    (⟨slot.path, t.content, .ofDouble score, s.firstLine, s.lastLine, .fullText⟩, score)

/-- The best `limit` segments that match a query. -/
def retrieve (st : Store) (tags : List Tag) (dir : Option Path) (query : Text) (limit : Nat) :
    Except IndexError (List Hit) :=
  let terms := (Query.terms query).map Text.fold
  if terms.isEmpty || tags.isEmpty || limit = 0 then .ok []
  else if limitBound ≤ limit then .error .integerConversion
  else
    let hits := (ranked terms st.texts).filterMap fun (t, score) =>
      hit? st (tags.map Tag.key) dir t score
    .ok (((hits.mergeSort fun a b => b.2 ≤ a.2).take limit).map (·.1))

end CodeIndex.FullText
