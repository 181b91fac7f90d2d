import CodeIndex.Proofs.Files

namespace CodeIndex

/-- What the rows of a chunk have in common in the two artifacts that hold one. -/
structure Place where
  index : Nat
  firstLine : Nat
  lastLine : Nat
  content : Text
deriving DecidableEq, Repr

def ChunkRow.place (r : ChunkRow) : Place := ⟨r.index, r.firstLine, r.lastLine, r.content⟩

def EmbeddingRow.place (r : EmbeddingRow) : Place := ⟨r.index, r.firstLine, r.lastLine, r.content⟩

theorem places_of_embedded {cs : List Chunk} {vectors : List (Option Embedding)}
    (hlength : vectors.length = cs.length) :
    (EmbeddingRow.ofAll (List.zipWith Embedded.ofChunk cs vectors)).map EmbeddingRow.place =
      (ChunkRow.ofChunks cs).map ChunkRow.place := by
  apply List.ext_getElem
  · simp [EmbeddingRow.ofAll, ChunkRow.ofChunks, hlength]
  · intro i _ _
    simp [EmbeddingRow.ofAll, ChunkRow.ofChunks, EmbeddingRow.ofEmbedded, ChunkRow.ofChunk,
      EmbeddingRow.place, ChunkRow.place, Embedded.ofChunk]

namespace Store

/-- An artifact holds no row of a file. -/
def Bare (st : Store) (slot : Slot) : ArtifactKind → Prop
  | .metadata => st.facts.rows slot = []
  | .fullText => st.segments.rows slot = []
  | .chunk => st.chunks.rows slot = []
  | .embeddings => st.embeddings.rows slot = []

/-- An artifact holds of a file just what is made of these bytes. -/
def Reflects (st : Store) (s : Settings) (slot : Slot) (bytes : Bytes) : ArtifactKind → Prop
  | .metadata => st.facts.rows slot =
      Fact.ofContent (.ofBytes slot.path bytes) (Utf8.decodeLossy bytes)
  | .fullText => st.fullTextRows slot =
      (Window.ofContent s.segmentLines (Utf8.decodeLossy bytes)).map (.ofWindow slot.path)
  | .chunk => ∃ cs,
      chunkFile s.parser (Utf8.decodeLossy bytes) (Language.ofPath? slot.path) s.limits = .ok cs ∧
        st.chunks.rows slot = ChunkRow.ofChunks cs
  | .embeddings => ∃ cs,
      chunkFile s.parser (Utf8.decodeLossy bytes) (Language.ofPath? slot.path) s.limits = .ok cs ∧
        (st.embeddings.rows slot).map EmbeddingRow.place =
          (ChunkRow.ofChunks cs).map ChunkRow.place

theorem bare_iff {st : Store} {slot : Slot} {k : ArtifactKind} :
    st.Bare slot k ↔ st.rowsOf k slot = .empty k := by
  cases k <;> simp [Bare, rowsOf, Rows.empty, fullTextRows]

theorem reflects_of_rows {st : Store} {s : Settings} {slot : Slot} {bytes : Bytes}
    {cs : List Chunk} {vectors : List (Option Embedding)} {k : ArtifactKind}
    (hchunks : s.chunksOf slot.path bytes = .ok cs) (hlength : vectors.length = cs.length)
    (hrows : st.rowsOf k slot = .ofBytes s slot.path bytes vectors k) :
    st.Reflects s slot bytes k := by
  rw [Rows.of_bytes_ok hchunks] at hrows
  cases k with
  | metadata => exact Rows.facts.inj hrows
  | fullText => exact Rows.fullText.inj hrows
  | chunk => exact ⟨cs, hchunks, Rows.chunks.inj hrows⟩
  | embeddings =>
    refine ⟨cs, hchunks, ?_⟩
    rw [Rows.embeddings.inj hrows]
    exact places_of_embedded hlength

end Store

/-- A clear that finds the tags of the same scopes for every artifact, as it does while no branch
and no directory of the workspace changes. -/
def Even (tags : List Tag) : Prop :=
  ∃ scopes : List Scope, ∀ tag, tag ∈ tags ↔ ∃ kind, ∃ scope ∈ scopes, tag = scope.tagFor kind

/-- A workspace that stays with its directories and branches while it is asked for them. -/
structure Host.Steady {σ : Type} (h : Host σ) (still : σ → Prop) (dirs : List Path)
    (branch : Path → String) : Prop where
  dirs : ∀ w, still w → (h.dirs.run w).1 = dirs ∧ still (h.dirs.run w).2
  branch : ∀ dir w, still w →
    ((h.branch dir).run w).1 = branch dir ∧ still ((h.branch dir).run w).2

/-- The tags of a workspace that stays as it is while it is asked for them. -/
theorem tags_of_steady {σ : Type} {h : Host σ} {still : σ → Prop} {dirs : List Path}
    {branch : Path → String} (hsteady : h.Steady still dirs branch) {w : σ} (hw : still w) :
    (h.tags.run w).1 = (ArtifactKind.all.map fun k =>
      dirs.map fun dir => (Scope.mk (branch dir) dir).tagFor k).flatten ∧
      still (h.tags.run w).2 := by
  have htagsFor : ∀ (k : ArtifactKind) w, still w →
      ((h.tagsFor k.id).run w).1 = dirs.map (fun dir => (Scope.mk (branch dir) dir).tagFor k) ∧
        still ((h.tagsFor k.id).run w).2 := by
    intro k w hw
    obtain ⟨hdirs, hstill⟩ := hsteady.dirs w hw
    rw [Host.tagsFor, run_bind, hdirs]
    refine run_mapM_of_steady ?_ dirs hstill
    intro dir w hw
    obtain ⟨hbranch, hstill⟩ := hsteady.branch dir w hw
    rw [run_bind, Host.scope, run_bind, run_pure, run_pure, hbranch]
    exact ⟨rfl, hstill⟩
  obtain ⟨htags, hstill⟩ := run_mapM_of_steady htagsFor ArtifactKind.all hw
  rw [Host.tags, run_bind, run_pure, htags]
  exact ⟨rfl, hstill⟩

/-- A clear is even if it finds the same directories on the same branches all the time. -/
theorem tags_even {σ : Type} {h : Host σ} {still : σ → Prop} {dirs : List Path}
    {branch : Path → String} (hsteady : h.Steady still dirs branch) {w : σ} (hw : still w) :
    Even (h.tags.run w).1 := by
  refine ⟨dirs.map fun dir => ⟨branch dir, dir⟩, ?_⟩
  intro tag
  rw [(tags_of_steady hsteady hw).1]
  simp [ArtifactKind.mem_all, eq_comm]

theorem touches_of_even {tags : List Tag} (heven : Even tags) (k l : ArtifactKind) (scope : Scope)
    (p : Path) (htouches : (Act.clear tags).touches k scope p) :
    (Act.clear tags).touches l scope p := by
  obtain ⟨scopes, hmem⟩ := heven
  obtain ⟨tag, htag, hkey⟩ := List.any_eq_true.mp htouches
  obtain ⟨kind, t, ht, rfl⟩ := (hmem tag).mp htag
  obtain ⟨hstem, -⟩ := Scope.key_eq_iff.mp (decide_eq_true_iff.mp hkey)
  refine List.any_eq_true.mpr ⟨t.tagFor l, (hmem _).mpr ⟨l, t, ht, rfl⟩, ?_⟩
  exact decide_eq_true_iff.mpr (Scope.key_eq_iff.mpr ⟨hstem, rfl⟩)

/-- Of two artifacts of a file, one may have been cleared; what was written last of both is the
same. -/
theorem standing_one_version (k l : ArtifactKind) (scope : Scope) (p : Path) (journal : List Act) :
    (standing k scope p journal).written = none ∨ (standing l scope p journal).written = none ∨
      (standing k scope p journal).written = (standing l scope p journal).written := by
  induction journal using List.reverseRecOn with
  | nil => exact Or.inl rfl
  | append_singleton journal a ih =>
    rw [standing_snoc, standing_snoc]
    cases a with
    | write s t q bytes vectors =>
      have hsame : (Act.write s t q bytes vectors).touches l scope p =
        (Act.write s t q bytes vectors).touches k scope p := rfl
      rw [hsame]
      cases (Act.write s t q bytes vectors).touches k scope p with
      | true => exact Or.inr (Or.inr rfl)
      | false => exact ih
    | remove t q =>
      have hsame : (Act.remove t q).touches l scope p = (Act.remove t q).touches k scope p := rfl
      rw [hsame]
      cases (Act.remove t q).touches k scope p with
      | true => exact Or.inl rfl
      | false => exact ih
    | clear tags =>
      split
      · exact Or.inl rfl
      · split
        · exact Or.inr (Or.inl rfl)
        · exact ih

/-- If every clear is even, so are the artifacts of a file. -/
theorem standing_even {S : Settings → Prop} {R : Rules} {journal : List Act}
    (hpossible : ∀ a ∈ journal, a.Possible S R) (heven : ∀ tags, R.clears tags → Even tags)
    (k l : ArtifactKind) (scope : Scope) (p : Path) :
    standing k scope p journal = standing l scope p journal := by
  apply standing_congr
  intro a ha
  cases a with
  | write | remove => rfl
  | clear tags =>
    have htags := heven tags (hpossible _ ha)
    exact Bool.eq_iff_iff.mpr ⟨touches_of_even htags k l scope p, touches_of_even htags l k scope p⟩

/-- For every scope and path, either no artifact has a row, or there is one content that all rows
are made of; an artifact can be without its rows only if a clear was uneven. -/
theorem artifacts_reflect_one_content {S : Settings → Prop} {R : Rules} {st : Store}
    (hst : Reached S R st) (scope : Scope) (p : Path) :
    (∀ k, st.Bare (scope.slot k p) k) ∨ ∃ s bytes, S s ∧ R.contents bytes ∧
      (∀ k, st.Bare (scope.slot k p) k ∨ st.Reflects s (scope.slot k p) bytes k) ∧
      ((∀ tags, R.clears tags → Even tags) → ∀ k, st.Reflects s (scope.slot k p) bytes k) := by
  obtain ⟨journal, hpossible, ht⟩ := hst.tells
  have hbare : ∀ k, (standing k scope p journal).written = none → st.Bare (scope.slot k p) k := by
    intro k hw
    rw [Store.bare_iff, ht.rows, Standing.rows, hw]
  have hreflects : ∀ k {s bytes vectors},
      (standing k scope p journal).written = some (s, bytes, vectors) →
      st.Reflects s (scope.slot k p) bytes k := by
    intro k s bytes vectors hw
    obtain ⟨cs, hchunks, hanswers⟩ := ((standing_possible hpossible k scope p).written hw).answers
    have hrows := ht.rows k scope p
    rw [Standing.rows, hw] at hrows
    exact Store.reflects_of_rows hchunks (length_of_answers hanswers) hrows
  by_cases hnone : ∀ k, (standing k scope p journal).written = none
  · exact Or.inl fun k => hbare k (hnone k)
  · obtain ⟨k, hk⟩ := Classical.not_forall.mp hnone
    obtain ⟨⟨s, bytes, vectors⟩, hw⟩ := Option.ne_none_iff_exists'.mp hk
    have hwritten := (standing_possible hpossible k scope p).written hw
    refine Or.inr ⟨s, bytes, hwritten.settings, hwritten.contents, ?_, ?_⟩
    · intro l
      rcases standing_one_version k l scope p journal with h | h | h
      · exact absurd h hk
      · exact Or.inl (hbare l h)
      · exact Or.inr (hreflects l (h ▸ hw))
    · intro heven l
      exact hreflects l (standing_even hpossible heven k l scope p ▸ hw)

/-- A file without its vectors has the rows of its bytes in all artifacts. -/
theorem artifacts_reflect_one_content_degraded : ∃ st bytes,
    Refreshes (Files.single.host failing) .standard ["/d"] .empty st ∧
      ∀ k, st.Reflects .standard ((Scope.mk noBranch "/d").slot k "/d/a.md") bytes k := by
  obtain ⟨st, hst, hrows⟩ : ∃ st,
      Refreshes (Files.single.host failing) .standard ["/d"] .empty st ∧
        st.facts.rows ((Scope.mk noBranch "/d").slot .metadata "/d/a.md") ≠ [] := by
    refine ⟨_, refreshes_of_done (w := ()) ?_, ?_⟩
    all_goals decide +kernel
  have hreached : Reached (· = .standard) .refreshing st :=
    hst.reached rfl (Rules.refreshing_allows _) .empty
  rcases artifacts_reflect_one_content hreached ⟨noBranch, "/d"⟩ "/d/a.md" with hbare | hsome
  · exact absurd (hbare .metadata) hrows
  · obtain ⟨s, bytes, rfl, -, -, hall⟩ := hsome
    exact ⟨st, bytes, hst, hall fun _ hclear => hclear.elim⟩

/-- A workspace at rest, but for its branch, which is another one whenever it is asked for. -/
def Files.switching (files : Files) (dirs : List Path) : Host (List String) where
  dirs := pure dirs
  branch _ := fun branches => (branches.headD noBranch, branches.tail)
  list dir := pure (files.list dir)
  read p := pure (files.read p)
  embed _ := pure none
  isCancelled := pure false
  isPaused := pure false

/-- The branch is switched while a clear asks for the tags of one artifact after another. The facts
of a file are dropped and its other rows are left, so they reflect no content at all. -/
theorem uneven_clear_tears : ∃ st st',
    Completes (Files.single.host (answering fun _ => [.one])) .standard ["/d"] .empty st ∧
    ((clearIndexes (Files.single.switching ["/d"]) st).run
      [noBranch, "b", "b", "b"]).1 = st' ∧
    ¬ ((∀ k, st'.Bare ((Scope.mk noBranch "/d").slot k "/d/a.md") k) ∨
      ∃ s bytes, ∀ k, st'.Reflects s ((Scope.mk noBranch "/d").slot k "/d/a.md") bytes k) := by
  obtain ⟨st, hst, hdropped, hleft⟩ : ∃ st,
      Completes (Files.single.host (answering fun _ => [.one])) .standard ["/d"] .empty st ∧
        let st' := ((clearIndexes (Files.single.switching ["/d"]) st).run
          [noBranch, "b", "b", "b"]).1
        st'.facts.rows ((Scope.mk noBranch "/d").slot .metadata "/d/a.md") = [] ∧
          st'.chunks.rows ((Scope.mk noBranch "/d").slot .chunk "/d/a.md") ≠ [] := by
    refine exists_completes (w := ()) ?_
    decide +kernel
  refine ⟨st, _, hst, rfl, ?_⟩
  rintro (hbare | ⟨s, bytes, hreflects⟩)
  · exact hleft (hbare .chunk)
  · have hfacts := (hreflects .metadata).symm.trans hdropped
    cases hfacts

end CodeIndex
