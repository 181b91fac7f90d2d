import CodeIndex.Provider.Buckets

namespace CodeIndex

inductive Reaction where
  | fail (e : ProviderError)
  | answerNothing
  | dropLast
  | cancel
  /-- Cancels and never answers; of this rule only texts with a heading are the concern. -/
  | cancelAndHang

structure Rule where
  marker : Text
  reaction : Option Reaction
  vector : Option Embedding

/-- A provider that follows a script. It keeps a log of its batches, answers by hash buckets, and
has rules for texts that hold a marker. -/
structure Scripted where
  rules : List Rule
  buckets : Buckets
  log : List (List Text)

namespace Scripted

def hasHeading (t : Text) : Bool := t.take 2 == ['#', ' ']

def Rule.applies (r : Rule) (reaction : Reaction) (batch : List Text) : Bool :=
  batch.any fun t =>
    t.includes r.marker &&
      match reaction with
      | .cancelAndHang => hasHeading t
      | _ => true

/-- What the rules make of a batch: an early end, or whether the last vector is dropped; and
whether they cancel. -/
structure Verdict where
  early : Option (Option (Except ProviderError (List Embedding)))
  dropLast : Bool
  cancel : Bool

def judge (batch : List Text) : List Rule → Verdict
  | [] => ⟨none, false, false⟩
  | r :: rs =>
    match r.reaction with
    | none => judge batch rs
    | some reaction =>
      if Rule.applies r reaction batch then
        match reaction with
        | .fail e => ⟨some (some (.error e)), false, false⟩
        | .answerNothing => ⟨some (some (.ok [])), false, false⟩
        | .dropLast => { judge batch rs with dropLast := true }
        | .cancel => { judge batch rs with cancel := true }
        | .cancelAndHang => ⟨some none, false, true⟩
      else judge batch rs

/-- The vector that the first rule for a text gives it. -/
def vectorFor (rules : List Rule) (t : Text) (vector : Embedding) : Embedding :=
  (rules.findSome? fun r => if t.includes r.marker then r.vector else none).getD vector

/-- The reply to a batch, and whether it cancels the refresh. -/
def embedBatch (p : Scripted) (batch : List Text) :
    (Option (Except ProviderError (List Embedding)) × Bool) × Scripted :=
  let p := { p with log := p.log ++ [batch] }
  let verdict := judge batch p.rules
  match verdict.early with
  | some reply => ((reply, verdict.cancel), p)
  | none =>
    let (answer, buckets) := p.buckets.embedBatch batch
    let answer := answer.map fun vectors =>
      let vectors := List.zipWith (vectorFor p.rules) batch vectors
      if verdict.dropLast then vectors.dropLast else vectors
    ((some answer, verdict.cancel), { p with buckets })

end Scripted
end CodeIndex
