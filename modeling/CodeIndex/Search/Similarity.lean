import CodeIndex.Search.FullText

namespace CodeIndex.Similarity

/-- The rows of the keys in the order of the keys, each key once. -/
def rowsUnder (st : Store) (keys : List String) : List (Slot × EmbeddingRow) :=
  ((Query.distinct keys).mergeSort fun a b => a ≤ b).flatMap fun key => st.embeddings.underTag key

/-- A vector of another length than that of the query is passed over. -/
def hit? (query : Embedding) (slot : Slot) (r : EmbeddingRow) : Option Hit :=
  r.vector.bind fun bytes =>
    let vector := Embedding.ofBytes bytes
    if vector.length = query.length then
      some ⟨slot.path, r.content, query.cosine vector, r.firstLine, r.lastLine, .embeddings⟩
    else none

/-- By descending score, then by path, then by line. -/
def rank (a b : Hit) : Ordering :=
  (b.score.totalCompare a.score).then
    ((compare a.path b.path).then (compare a.firstLine b.firstLine))

/-- Whether there is anything to look for, so that the query needs a vector. -/
def asks (tags : List Tag) (query : Text) (limit : Nat) : Bool :=
  !tags.isEmpty && limit ≠ 0 && !query.trim.isEmpty

/-- The `limit` chunks most similar to a vector. -/
def retrieve (st : Store) (tags : List Tag) (dir : Option Path) (query : Embedding)
    (limit : Nat) : List Hit :=
  let rows := (rowsUnder st (tags.map Tag.key)).filter fun (slot, _) =>
    FullText.inDirectory dir slot.path
  ((rows.filterMap fun (slot, r) => hit? query slot r).mergeSort
    fun a b => (rank a b).isLE).take limit

end CodeIndex.Similarity
