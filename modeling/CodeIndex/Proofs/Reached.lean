import CodeIndex.Proofs.Turns
import Mathlib.Data.List.Induction

namespace CodeIndex

/-- What the outside is free to do: the contents that files may have, the replies of the provider,
and the tags that a clear may find. -/
structure Rules where
  contents : Bytes → Prop
  replies : ReplyRule
  clears : List Tag → Prop

structure Rules.Allow (R : Rules) (h : Host σ) : Prop where
  reads : ∀ {p : Path} {w : σ} {bytes : Bytes}, ((h.read p).run w).1 = .ok bytes → R.contents bytes
  replies : ∀ (batch : List Text) (w : σ), R.replies batch ((h.embed batch).run w).1

/-- Anything may happen, but for clears. -/
def Rules.refreshing : Rules := ⟨fun _ => True, fun _ _ => True, fun _ => False⟩

theorem Rules.refreshing_allows (h : Host σ) : Rules.refreshing.Allow h :=
  ⟨fun _ => trivial, fun _ _ => trivial⟩

/-- The stores that are reached with some settings, each turn with its own. -/
inductive Reached (S : Settings → Prop) (R : Rules) : Store → Prop where
  | empty : Reached S R .empty
  | turn {s : Settings} {σ : Type} {h : Host σ} {r : Run} {st : Store} (w : σ)
      (hst : Reached S R st) (hs : S s) (hallow : R.Allow h) (hr : r.Working) :
      Reached S R ((r.next h s st).run w).1.store
  | clear {σ : Type} {h : Host σ} {st : Store} (w : σ) (hst : Reached S R st)
      (hclears : R.clears (h.tags.run w).1) : Reached S R ((clearIndexes h st).run w).1

/-- A version of a file that may come to be written. -/
structure Written (S : Settings → Prop) (R : Rules) (p : Path) (s : Settings) (bytes : Bytes)
    (vectors : List (Option Embedding)) : Prop where
  settings : S s
  contents : R.contents bytes
  answers : ∃ cs, s.chunksOf p bytes = .ok cs ∧
    Answers R.replies (s.batches (.ofBytes p bytes) cs) vectors

/-- An act that the outside may bring about. -/
def Act.Possible (S : Settings → Prop) (R : Rules) : Act → Prop
  | .write s _ p bytes vectors => Written S R p s bytes vectors
  | .remove _ _ => True
  | .clear tags => R.clears tags

theorem Answers.mono {allowed allowed' : ReplyRule} {batches : List (List Text)}
    {vectors : List (Option Embedding)} (h : Answers allowed batches vectors)
    (hmono : ∀ batch reply, allowed batch reply → allowed' batch reply) :
    Answers allowed' batches vectors := by
  induction h with
  | nil => exact .nil
  | cons reply hreply _ ih => exact .cons reply (hmono _ _ hreply) ih

section
variable {σ : Type} {h : Host σ} {s : Settings} {S : Settings → Prop} {R : Rules}

theorem Job.Acts.possible {j : Job} {a : Act} (ha : j.Acts h s a) (hs : S s)
    (hallow : R.Allow h) : a.Possible S R := by
  cases ha with
  | remove => trivial
  | write w _ hread hchunks hanswers =>
    refine ⟨hs, hallow.reads (read_of_read_within hread).1, _, hchunks, hanswers.mono ?_⟩
    rintro batch _ ⟨w, rfl⟩
    exact hallow.replies batch w

/-- A clear finds tags of scopes only. -/
theorem of_scope_of_mem_tags {w : σ} {tag : Tag} (htag : tag ∈ (h.tags.run w).1) :
    Store.OfScope tag := by
  rw [Host.tags, run_bind, run_pure, List.mem_flatten] at htag
  obtain ⟨tags, htags, htag⟩ := htag
  obtain ⟨kind, -, w₁, rfl⟩ := mem_run_mapM htags
  rw [Host.tagsFor, run_bind] at htag
  obtain ⟨dir, -, w₂, rfl⟩ := mem_run_mapM htag
  exact ⟨_, kind, rfl⟩

theorem clear_indexes_run (st : Store) (w : σ) :
    ((clearIndexes h st).run w).1 = (h.tags.run w).1.foldl Store.clearTag st := rfl

end

theorem Reached.tells {S : Settings → Prop} {R : Rules} {st : Store} (hst : Reached S R st) :
    ∃ journal, (∀ a ∈ journal, a.Possible S R) ∧ st.Tells journal := by
  induction hst with
  | empty => exact ⟨[], by simp, Store.tells_empty⟩
  | turn w _ hs hallow hr ih =>
    obtain ⟨journal, hpossible, ht⟩ := ih
    rcases (Run.next_leads w).tells hr ht with hsame | ⟨j, a, hacts, -, htells⟩
    · exact ⟨journal, hpossible, hsame⟩
    · refine ⟨journal ++ [a], ?_, htells⟩
      intro b hb
      rcases List.mem_append.mp hb with hb | hb
      · exact hpossible b hb
      · rw [List.mem_singleton.mp hb]
        exact hacts.possible hs hallow
  | clear w _ hclears ih =>
    obtain ⟨journal, hpossible, ht⟩ := ih
    rw [clear_indexes_run]
    refine ⟨journal ++ [.clear _], ?_, ht.clear fun tag => of_scope_of_mem_tags⟩
    intro b hb
    rcases List.mem_append.mp hb with hb | hb
    · exact hpossible b hb
    · rw [List.mem_singleton.mp hb]
      exact hclears

/-- A property of standings that every act on a file keeps holds of what stands of it. -/
theorem standing_keeps {k : ArtifactKind} {scope : Scope} {p : Path} {journal : List Act}
    (holds : Standing → Prop) (hnothing : holds .nothing)
    (hkeeps : ∀ a ∈ journal, a.touches k scope p → ∀ x, holds x → holds (a.leaves x)) :
    holds (standing k scope p journal) := by
  induction journal using List.reverseRecOn with
  | nil => exact hnothing
  | append_singleton journal a ih =>
    have hjournal := ih fun b hb => hkeeps b (List.mem_append_left _ hb)
    rw [standing_snoc]
    split
    · rename_i ha
      exact hkeeps a (by simp) ha _ hjournal
    · exact hjournal

/-- What stands of a file was read, cut and embedded under its own path. -/
structure Standing.Possible (S : Settings → Prop) (R : Rules) (p : Path) (x : Standing) :
    Prop where
  written : ∀ {s bytes vectors}, x.written = some (s, bytes, vectors) →
    Written S R p s bytes vectors
  recorded : ∀ {bytes}, x.recorded = some bytes → R.contents bytes

theorem Standing.Possible.nothing (S : Settings → Prop) (R : Rules) (p : Path) :
    Standing.nothing.Possible S R p := by
  constructor <;> intros <;> contradiction

theorem standing_possible {S : Settings → Prop} {R : Rules} {journal : List Act}
    (hpossible : ∀ a ∈ journal, a.Possible S R) (k : ArtifactKind) (scope : Scope) (p : Path) :
    (standing k scope p journal).Possible S R p := by
  apply standing_keeps (Standing.Possible S R p) (.nothing S R p)
  intro a ha htouches x hx
  have hp := hpossible a ha
  cases a with
  | write s t q bytes vectors =>
    obtain ⟨-, rfl⟩ := decide_eq_true_iff.mp htouches
    constructor
    · intro s' bytes' vectors' hw
      cases hw
      exact hp
    · intro bytes' hr
      simp only [Act.leaves] at hr
      split at hr
      · cases hr
        exact hp.contents
      · exact hx.recorded hr
  | remove | clear => exact .nothing S R p

/-- Two artifacts that are always touched together have the same standing. -/
theorem standing_congr {k l : ArtifactKind} {scope : Scope} {p : Path} {journal : List Act}
    (htouches : ∀ a ∈ journal, a.touches k scope p = a.touches l scope p) :
    standing k scope p journal = standing l scope p journal := by
  induction journal using List.reverseRecOn with
  | nil => rfl
  | append_singleton journal a ih =>
    rw [standing_snoc, standing_snoc, htouches a (by simp),
      ih fun b hb => htouches b (List.mem_append_left _ hb)]

end CodeIndex
