import CodeIndex.Proofs.Batches
import CodeIndex.Proofs.Journal

namespace CodeIndex

/-- A reply that a host can give. -/
def Host.Replies (h : Host σ) : ReplyRule := fun batch reply =>
  ∃ w, ((h.embed batch).run w).1 = reply

theorem Host.replies_embed (h : Host σ) (batch : List Text) (w : σ) :
    h.Replies batch ((h.embed batch).run w).1 := ⟨w, rfl⟩

namespace Act

/-- Nothing is lost of the file that is written. -/
def complete : Act → Bool
  | .write _ _ _ _ vectors => vectors.all Option.isSome
  | .remove _ _ | .clear _ => true

theorem recorded_of_complete {s : Settings} {scope : Scope} {p : Path} {bytes : Bytes}
    {vectors : List (Option Embedding)} (h : (write s scope p bytes vectors).complete)
    (x : Standing) : ((write s scope p bytes vectors).leaves x).recorded = some bytes := by
  have hvectors : vectors.all Option.isSome := h
  rw [leaves, if_pos hvectors]

end Act

/-- What a job may do to the store under a host. -/
inductive Job.Acts (h : Host σ) (s : Settings) (j : Job) : Act → Prop where
  | remove (hchange : j.change = .removed) : Acts h s j (.remove j.scope j.path)
  | write {bytes : Bytes} {cs : List Chunk} {vectors : List (Option Embedding)} (w : σ)
      (hchange : j.change ≠ .removed)
      (hread : ((h.readWithin s.maxFileSize j.path).run w).1 = .ok bytes)
      (hchunks : s.chunksOf j.path bytes = .ok cs)
      (hanswers : Answers h.Replies (s.batches (.ofBytes j.path bytes) cs) vectors) :
      Acts h s j (.write s j.scope j.path bytes vectors)

theorem touches_of_acts {h : Host σ} {s : Settings} {k : ArtifactKind} {scope : Scope} {p : Path}
    {j : Job} {a : Act} (ha : j.Acts h s a) :
    a.touches k scope p ↔ scope.stem = j.scope.stem ∧ p = j.path := by
  cases ha <;> exact decide_eq_true_iff

theorem read_within_eq (h : Host σ) (limit : Nat) (p : Path) (w : σ) :
    ((h.readWithin limit p).run w).1 = ((h.read p).run w).1.bind fun bytes =>
      if limit < bytes.length then .error (.fileTooLarge p bytes.length limit) else .ok bytes := by
  rw [Host.readWithin, run_bind]
  generalize (h.read p).run w = answer
  obtain ⟨bytes, w₁⟩ := answer
  cases bytes with
  | error e => rfl
  | ok bytes =>
    simp only [Except.bind]
    split <;> rfl

theorem read_of_read_within {h : Host σ} {limit : Nat} {p : Path} {w : σ} {bytes : Bytes}
    (hread : ((h.readWithin limit p).run w).1 = .ok bytes) :
    ((h.read p).run w).1 = .ok bytes ∧ bytes.length ≤ limit := by
  rw [read_within_eq] at hread
  cases hr : ((h.read p).run w).1 with
  | error e =>
    rw [hr] at hread
    cases hread
  | ok content =>
    rw [hr, Except.bind] at hread
    split at hread
    · cases hread
    · rename_i hsize
      cases hread
      exact ⟨rfl, Nat.not_lt.mp hsize⟩

section
variable {h : Host σ} {s : Settings}

theorem content_of_cut {e : FileEntry} {kind : ArtifactKind} {cs : List Chunk}
    (hcut : (e.require kind).bind (s.chunks e) = .ok cs) :
    ∃ content, e.content = some content ∧ s.chunks e content = .ok cs := by
  cases hcontent : e.content with
  | none =>
    rw [FileEntry.require, hcontent] at hcut
    cases hcut
  | some content =>
    rw [FileEntry.require, hcontent] at hcut
    exact ⟨content, rfl, hcut⟩

theorem cut_of_content {e : FileEntry} {kind : ArtifactKind} {content : Text} {cs : List Chunk}
    (hcontent : e.content = some content) (hcs : s.chunks e content = .ok cs) :
    (e.require kind).bind (s.chunks e) = .ok cs := by
  rw [FileEntry.require, hcontent]
  exact hcs

theorem prepare_of_cut {e : FileEntry} {change : Change} {cs : List Chunk} {w : σ}
    (hchange : change = .added ∨ change = .updated)
    (hcut : (e.require .embeddings).bind (s.chunks e) = .ok cs) :
    ((prepare h s e change).run w).1 = .ok ((embedChunks h s e cs).run w).1 := by
  rcases hchange with rfl | rfl
  all_goals simp only [prepare, hcut, run_bind, run_pure]

/-- Only a file that can be cut is embedded. -/
theorem prepare_some {e : FileEntry} {change : Change} {embedded : List Embedded} {w : σ}
    (hchange : change = .added ∨ change = .updated)
    (hmade : ((prepare h s e change).run w).1 = .ok (some embedded)) : ∃ content cs vectors,
      e.content = some content ∧ s.chunks e content = .ok cs ∧
        Answers h.Replies (s.batches e cs) vectors ∧
        embedded = List.zipWith Embedded.ofChunk cs vectors := by
  cases hcut : (e.require .embeddings).bind (s.chunks e) with
  | error err =>
    rcases hchange with rfl | rfl
    all_goals
      simp only [prepare, hcut, run_pure] at hmade
      cases hmade
  | ok cs =>
    rw [prepare_of_cut hchange hcut] at hmade
    obtain ⟨vectors, rfl, hanswers⟩ :=
      embed_chunks_answers h.replies_embed (Except.ok.inj hmade)
    obtain ⟨content, hcontent, hchunks⟩ := content_of_cut hcut
    exact ⟨content, cs, vectors, hcontent, hchunks, hanswers, rfl⟩

theorem prepare_error {e : FileEntry} {change : Change} {err : IndexError} {w : σ}
    (hmade : ((prepare h s e change).run w).1 = .error err) :
    change ≠ .removed ∧ (e.require .embeddings).bind (s.chunks e) = .error err := by
  cases change with
  | removed | unchanged => cases hmade
  | added | updated =>
    refine ⟨by simp, ?_⟩
    rw [prepare] at hmade
    cases hcut : (e.require .embeddings).bind (s.chunks e) with
    | error err' =>
      rw [hcut] at hmade
      exact congrArg Except.error (Except.error.inj hmade)
    | ok cs =>
      rw [hcut] at hmade
      cases hmade

/-- What can be wrong with a file that was read: there is nothing for an artifact to work on, or it
cannot be parsed. -/
inductive IndexError.OfFile : IndexError → Prop where
  | artifact (id reason : String) : OfFile (.artifact id reason)
  | parse (text : String) : OfFile (.parse text)

theorem chunk_file_error {parser : Parser} {source : Text} {language : Option Language}
    {limits : Limits} {err : IndexError}
    (hcut : chunkFile parser source language limits = .error err) : err.OfFile := by
  unfold chunkFile at hcut
  split at hcut
  · cases hcut
  · split at hcut
    · cases hcut
    · split at hcut
      · cases hcut
        exact .parse _
      · cases hcut

theorem cut_error {e : FileEntry} {kind : ArtifactKind} {err : IndexError}
    (hcut : (e.require kind).bind (s.chunks e) = .error err) : err.OfFile := by
  rw [FileEntry.require] at hcut
  cases hcontent : e.content with
  | none =>
    rw [hcontent] at hcut
    cases hcut
    exact .artifact _ _
  | some content =>
    rw [hcontent] at hcut
    exact chunk_file_error hcut

theorem update_error {e : FileEntry} {change : Change} {kind : ArtifactKind} {tag : Tag}
    {embedded : List Embedded} {st : Store} {err : IndexError}
    (hu : st.update s kind tag e change embedded = .error err) : err.OfFile := by
  cases change with
  | unchanged | removed => cases hu
  | added | updated =>
    rw [Store.update, FileEntry.require] at hu
    cases hcontent : e.content with
    | none =>
      simp only [hcontent] at hu
      cases hu
      exact .artifact _ _
    | some content =>
      simp only [hcontent] at hu
      cases kind with
      | metadata | fullText | embeddings => cases hu
      | chunk =>
        rw [Store.write] at hu
        split at hu
        · rename_i hcut
          cases hu
          exact chunk_file_error hcut
        · cases hu

theorem update_all_error {scope : Scope} {e : FileEntry} {change : Change}
    {embedded : List Embedded} {kinds : List ArtifactKind} {n : Nat} {st : Store}
    {err : IndexError} (hall : st.updateAll s scope e change embedded kinds n = .error err) :
    err.OfFile := by
  induction kinds generalizing n st with
  | nil => cases hall
  | cons kind kinds ih =>
    rw [Store.updateAll] at hall
    split at hall
    · rename_i hu
      cases hall
      exact update_error hu
    · exact ih hall

/-- Unless it is cancelled on the way, the artifacts are brought up to date as if at once. -/
theorem write_artifacts_result (j : Job) (e : FileEntry) (embedded : List Embedded)
    (kinds : List ArtifactKind) (n : Nat) (st : Store) (w : σ) :
    ((j.writeArtifacts h s e embedded kinds n st).run w).1 = .error .cancelled ∨
      ((j.writeArtifacts h s e embedded kinds n st).run w).1 =
        st.updateAll s j.scope e j.change embedded kinds n := by
  induction kinds generalizing n st w with
  | nil =>
    rw [Job.writeArtifacts, run_bind]
    split
    · exact Or.inl rfl
    · exact Or.inr rfl
  | cons kind kinds ih =>
    rw [Job.writeArtifacts, run_bind]
    split
    · exact Or.inl rfl
    · rw [Store.updateAll]
      cases st.update s kind (j.scope.tagFor kind) e j.change embedded with
      | error err => exact Or.inr rfl
      | ok result => exact ih _ _ _

/-- All that indexing can come to: it is cancelled, the file cannot be read or cut, or it is one
update of the store, with the file as it was read and embedded. -/
theorem index_result (j : Job) (st : Store) (w : σ) :
    ((j.index h s st).run w).1 = .error .cancelled ∨
    (∃ err, ((j.index h s st).run w).1 = .error err ∧ (((j.bytes h s).run w).1 = .error err ∨
      ∃ bytes w₁, ((j.bytes h s).run w).1 = .ok bytes ∧
        ((prepare h s (j.entry bytes) j.change).run w₁).1 = .error err)) ∨
    ∃ bytes embedded w₁, ((j.bytes h s).run w).1 = .ok bytes ∧
      ((prepare h s (j.entry bytes) j.change).run w₁).1 = .ok (some embedded) ∧
      ((j.index h s st).run w).1 =
        st.updateFile s j.scope (j.entry bytes) j.change embedded := by
  rw [Job.index, run_bind]
  generalize (j.bytes h s).run w = read
  obtain ⟨read, wr⟩ := read
  cases read with
  | error err => exact Or.inr (Or.inl ⟨err, rfl, Or.inl rfl⟩)
  | ok bytes =>
    simp only [run_bind]
    split
    · exact Or.inl rfl
    · rw [run_bind]
      generalize hp : (prepare h s (j.entry bytes) j.change).run _ = made
      obtain ⟨made, wp⟩ := made
      have hmade := congrArg Prod.fst hp
      cases made with
      | error err => exact Or.inr (Or.inl ⟨err, rfl, Or.inr ⟨bytes, _, rfl, hmade⟩⟩)
      | ok made =>
        cases made with
        | none => exact Or.inl rfl
        | some embedded =>
          have hwritten := write_artifacts_result (h := h) (s := s) j (j.entry bytes) embedded
            ArtifactKind.all 0 st wp
          simp only [run_bind]
          generalize (j.writeArtifacts h s _ embedded ArtifactKind.all 0 st).run wp = wrote
            at hwritten
          obtain ⟨wrote, ww⟩ := wrote
          rcases hwritten with rfl | rfl
          · exact Or.inl rfl
          · refine Or.inr (Or.inr ⟨bytes, embedded, _, rfl, hmade, ?_⟩)
            rw [Store.updateFile]
            cases st.updateAll s j.scope (j.entry bytes) j.change embedded ArtifactKind.all 0
            all_goals rfl

/-- Why a job may come to nothing: it is cancelled, or its file cannot be read, or something is
wrong with the file. -/
theorem index_fails {j : Job} {st : Store} {err : IndexError} {w : σ}
    (hi : ((j.index h s st).run w).1 = .error err) :
    err = .cancelled ∨ ((j.bytes h s).run w).1 = .error err ∨ err.OfFile := by
  rcases index_result (h := h) (s := s) j st w with hstopped | ⟨err', hfailed, hcause⟩ | hwritten
  · cases hi.symm.trans hstopped
    exact Or.inl rfl
  · cases hi.symm.trans hfailed
    rcases hcause with hread | ⟨_, _, -, hmade⟩
    · exact Or.inr (Or.inl hread)
    · exact Or.inr (Or.inr (cut_error (prepare_error hmade).2))
  · obtain ⟨_, _, _, -, -, hu⟩ := hwritten
    have hfile := hu.symm.trans hi
    rw [Store.updateFile] at hfile
    split at hfile
    · rename_i hall
      cases hfile
      exact Or.inr (Or.inr (update_all_error hall))
    · cases hfile

theorem index_ok {j : Job} {st st' : Store} {lost : Nat} {w : σ}
    (hi : ((j.index h s st).run w).1 = .ok (st', lost)) : ∃ bytes embedded w₁,
      ((j.bytes h s).run w).1 = .ok bytes ∧
        ((prepare h s (j.entry bytes) j.change).run w₁).1 = .ok (some embedded) ∧
        st.updateFile s j.scope (j.entry bytes) j.change embedded = .ok (st', lost) := by
  rcases index_result (h := h) (s := s) j st w with hstopped | ⟨err, hfailed, -⟩ | hwritten
  · cases hi.symm.trans hstopped
  · cases hi.symm.trans hfailed
  · obtain ⟨bytes, embedded, w₁, hread, hmade, hu⟩ := hwritten
    exact ⟨bytes, embedded, w₁, hread, hmade, hu.symm.trans hi⟩

/-- Indexing that succeeds enters one act into the journal, and reports no loss exactly if there
is none. -/
theorem index_tells {j : Job} {st st' : Store} {journal : List Act} {lost : Nat} {w : σ}
    (ht : st.Tells journal) (hj : j.change ≠ .unchanged)
    (hi : ((j.index h s st).run w).1 = .ok (st', lost)) : ∃ a,
      j.Acts h s a ∧ (lost = 0 ↔ a.complete) ∧ st'.Tells (journal ++ [a]) := by
  obtain ⟨bytes, embedded, w₁, hread, hmade, hu⟩ := index_ok hi
  by_cases hremoved : j.change = .removed
  · obtain ⟨st₁, hremove, htells⟩ := ht.remove j.scope j.path j.hash embedded
    rw [Job.entry, if_pos hremoved, hremoved, PathForm.text_path, hremove] at hu
    cases hu
    exact ⟨_, .remove hremoved, by simp [Act.complete], htells⟩
  · have hchange : j.change = .added ∨ j.change = .updated := by
      cases hc : j.change <;> simp_all
    rw [Job.bytes, if_neg hremoved] at hread
    rw [Job.entry, if_neg hremoved] at hmade hu
    obtain ⟨content, cs, vectors, hcontent, hchunks, hanswers, rfl⟩ := prepare_some hchange hmade
    cases hcontent
    obtain ⟨st₁, hwrite, htells⟩ :=
      ht.write j.scope hchange hchunks (length_of_answers hanswers)
    rw [hwrite] at hu
    cases hu
    exact ⟨_, .write w hremoved hread hchunks hanswers, Store.countP_isNone_eq_zero_iff, htells⟩

/-- A file that was read and embedded can be written into every artifact. -/
theorem writes_of_prepared {j : Job} {bytes : Bytes} {embedded : List Embedded} {w : σ}
    (hj : j.change ≠ .unchanged)
    (hmade : ((prepare h s (j.entry bytes) j.change).run w).1 = .ok (some embedded)) :
    ∃ new lost, Store.Writes s j.scope (j.entry bytes) j.change embedded new lost := by
  by_cases hremoved : j.change = .removed
  · rw [hremoved]
    exact ⟨_, _, Store.writes_removed⟩
  · have hchange : j.change = .added ∨ j.change = .updated := by
      cases hc : j.change <;> simp_all
    obtain ⟨content, cs, vectors, hcontent, hchunks, -, -⟩ := prepare_some hchange hmade
    exact ⟨_, _, Store.writes_content hchange hcontent hchunks⟩

/-- A job is given up only if its file cannot be read or cannot be cut. -/
theorem index_error {j : Job} {st : Store} {err : IndexError} {w : σ} (hl : st.Linked)
    (hj : j.change ≠ .unchanged) (hi : ((j.index h s st).run w).1 = .error err)
    (hne : err ≠ .cancelled) : j.change ≠ .removed ∧
      (((h.readWithin s.maxFileSize j.path).run w).1 = .error err ∨
        ∃ bytes, ((h.readWithin s.maxFileSize j.path).run w).1 = .ok bytes ∧
          s.chunksOf j.path bytes = .error err) := by
  rcases index_result (h := h) (s := s) j st w with hstopped | ⟨err', hfailed, hcause⟩ | hwritten
  · cases hi.symm.trans hstopped
    exact absurd rfl hne
  · cases hi.symm.trans hfailed
    rcases hcause with hread | ⟨bytes, w₁, hread, hmade⟩
    · rw [Job.bytes] at hread
      split at hread
      · cases hread
      · rename_i hremoved
        exact ⟨hremoved, Or.inl hread⟩
    · obtain ⟨hremoved, hcut⟩ := prepare_error hmade
      rw [Job.bytes, if_neg hremoved] at hread
      rw [Job.entry, if_neg hremoved] at hcut
      exact ⟨hremoved, Or.inr ⟨bytes, hread, hcut⟩⟩
  · obtain ⟨bytes, embedded, w₁, -, hmade, hu⟩ := hwritten
    obtain ⟨new, lost, hwrites⟩ := writes_of_prepared hj hmade
    obtain ⟨st', hupdated, -⟩ := hwrites.update_file hl
    cases (hi.symm.trans hu).trans hupdated

end
end CodeIndex
