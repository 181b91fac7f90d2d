import CodeIndex.Provider.Buckets
import CodeIndex.Refresh.Host
import CodeIndex.Search.Merge
import CodeIndex.Search.Similarity

namespace CodeIndex

/-- How many hits each source gives, and how many are left of all. -/
structure SearchSizes where
  retrieved : Nat
  final : Nat
deriving DecidableEq, Repr

def SearchSizes.check (z : SearchSizes) : Except IndexError Unit :=
  if z.final = 0 then .error (.configuration "n_final must be positive")
  else if z.retrieved < z.final then
    .error (.configuration ("n_final (" ++ toString z.final ++ ") exceeds n_retrieve ("
      ++ toString z.retrieved ++ ")"))
  else .ok ()

/-- What is asked for: a text, the tags to look under, and a directory if not all of them. -/
structure SearchQuery where
  tags : List Tag
  directory : Option Path
  text : Text

namespace SearchQuery

def tagsFor (q : SearchQuery) (kind : ArtifactKind) : List Tag := Tag.boundTo kind q.tags

end SearchQuery

/-- Hits by similarity; the provider is asked for the vector of the query. -/
def similar (h : Host σ) (provider : String) (st : Store) (tags : List Tag)
    (dir : Option Path) (query : Text) (limit : Nat) :
    StateM σ (Except IndexError (List Hit)) := do
  if Similarity.asks tags query limit then
    match ← h.embed [query] with
    | none => return .error .cancelled
    | some reply =>
      match onlyVector provider reply with
      | .error e => return .error (.provider e)
      | .ok vector => return .ok (Similarity.retrieve st tags dir vector limit)
  else return .ok []

/-- The hits of a source; one that failed has none. -/
def hitsOf : Except IndexError (List Hit) → List Hit
  | .ok hits => hits
  | .error _ => []

/-- The ranking of all sources. -/
def search (h : Host σ) (provider : String) (normalize : Ranking.Normalizer) (z : SearchSizes)
    (st : Store) (q : SearchQuery) : StateM σ (Except IndexError (List Hit)) := do
  match z.check with
  | .error e => return .error e
  | .ok () =>
    let byText := FullText.retrieve st (q.tagsFor .fullText) q.directory q.text z.retrieved
    let bySimilarity ←
      similar h provider st (q.tagsFor .embeddings) q.directory q.text z.retrieved
    return .ok (Ranking.merge normalize z.final [hitsOf byText, hitsOf bySimilarity])

end CodeIndex
