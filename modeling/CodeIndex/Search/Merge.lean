import CodeIndex.Search.Hit
import CodeIndex.Text.Utf8

namespace CodeIndex.Ranking

/-- Rewrites the scores of one source. -/
abbrev Normalizer := List Hit → List Hit

def keepScores : Normalizer := fun hits => hits

/-- Divides by the best score if that is a positive number, so that the best hit scores one. -/
def byBestScore : Normalizer := fun hits =>
  let best := Binary32.maximum (hits.map Hit.score)
  if Binary32.zero.lt best && best.isFinite then
    hits.map fun h => { h with score := h.score / best }
  else hits

/-- Takes a hit up unless its file has one with at least its score. -/
def keepBest (kept : List Hit) (h : Hit) : List Hit :=
  match kept with
  | [] => [h]
  | k :: ks =>
    if k.path = h.path then (if k.score.ge h.score then k else h) :: ks
    else k :: keepBest ks h

def pathLength (path : String) : Nat := path.utf8ByteSize

def rank (a b : Hit) : Ordering :=
  (b.score.totalCompare a.score).then
    ((compare (pathLength a.path) (pathLength b.path)).then (compare a.path b.path))

/-- One ranking with one hit for each file. -/
def merge (normalize : Normalizer) (count : Nat) (sources : List (List Hit)) : List Hit :=
  let best := (sources.flatMap normalize).foldl keepBest []
  (best.mergeSort fun a b => (rank a b).isLE).take count

end CodeIndex.Ranking
