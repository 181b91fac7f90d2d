import CodeIndex.Proofs.Directories
import CodeIndex.Proofs.Files
import CodeIndex.Proofs.Rankings
import CodeIndex.Proofs.Words
import CodeIndex.Search.Pipeline

namespace CodeIndex

/-- The branch and the directory of a tag. -/
def Tag.scope (t : Tag) : Scope := ⟨t.branch, t.directory⟩

/-- The store holds a hit as a row of its source, filed under a key and the path of the hit. A chunk
without a vector is not held. -/
def Store.Holds (st : Store) (key : String) (h : Hit) : Prop :=
  match h.source with
  | .fullText => ∃ row ∈ st.fullTextRows ⟨key, h.path⟩, row.text = some (h.path, h.content) ∧
      row.firstLine = h.firstLine ∧ row.lastLine = h.lastLine
  | .embeddings => ∃ row ∈ st.embeddings.rows ⟨key, h.path⟩, row.status = "ok" ∧
      row.content = h.content ∧ row.firstLine = h.firstLine ∧ row.lastLine = h.lastLine
  | .metadata | .chunk => False

/-- A hit was found under one of these tags and inside the directory. -/
structure Found (st : Store) (tags : List Tag) (dir : Option Path) (h : Hit) : Prop where
  row : ∃ tag ∈ tags, st.Holds (tag.scope.tagFor h.source).key h
  inside : ∀ d, dir = some d → (Path.below d).toList <+: h.path.toList

theorem Tag.mem_of_lastOfEqual {t : Tag} {ts : List Tag} (h : t ∈ lastOfEqual ts) : t ∈ ts := by
  fun_induction lastOfEqual ts with
  | case1 s t ts _ ih => exact List.mem_cons_of_mem _ (ih h)
  | case2 s t ts _ ih =>
    rcases List.mem_cons.mp h with rfl | h
    · exact List.mem_cons_self
    · exact List.mem_cons_of_mem _ (ih h)
  | case3 => exact h

theorem Tag.mem_boundTo {kind : ArtifactKind} {t : Tag} {ts : List Tag} (h : t ∈ boundTo kind ts) :
    ∃ tag ∈ ts, t = tag.scope.tagFor kind := by
  obtain ⟨tag, htag, rfl⟩ := List.mem_map.mp (List.mem_mergeSort.mp (mem_of_lastOfEqual h))
  exact ⟨tag, htag, rfl⟩

theorem in_directory_iff {dir : Option Path} {p : Path} :
    FullText.inDirectory dir p ↔ ∀ d, dir = some d → (Path.below d).toList <+: p.toList := by
  cases dir with
  | none => simp [FullText.inDirectory]
  | some d =>
    rw [FullText.inDirectory, Path.is_below_iff]
    simp

section
variable {st : Store} {keys : List String} {dir : Option Path}

theorem FullText.mem_of_ranked {terms : List Text} {texts : List StoredText}
    {t : StoredText × Float} (h : t ∈ ranked terms texts) : t.1 ∈ texts := by
  obtain ⟨⟨u, e⟩, hue, hsome⟩ := List.mem_filterMap.mp h
  dsimp only at hsome
  split at hsome
  · cases hsome
    exact (List.of_mem_zip hue).1
  · cases hsome

/-- The hit of a text is the row of its segment. -/
theorem FullText.hit_found (hl : st.Linked) {t : StoredText} (ht : t ∈ st.texts) {score : Float}
    {h : Hit × Float} (hhit : hit? st keys dir t score = some h) :
    h.1.source = .fullText ∧ (∃ key ∈ keys, st.Holds key h.1) ∧ inDirectory dir h.1.path := by
  obtain ⟨⟨slot, s⟩, hsegment, rfl⟩ := Option.map_eq_some_iff.mp hhit
  have hmem := List.mem_of_find?_eq_some hsegment
  have hwanted := List.find?_some hsegment
  simp only [Bool.and_eq_true, decide_eq_true_eq, List.contains_iff_mem] at hwanted
  obtain ⟨⟨hid, hkey⟩, hdir⟩ := hwanted
  have hpath := hl.same_path ht hmem hid
  have hrow : st.fullTextRow s ∈ st.fullTextRows slot :=
    List.mem_map_of_mem (List.mem_map.mpr ⟨_, List.mem_filter.mpr ⟨hmem, by simp⟩, rfl⟩)
  refine ⟨rfl, ⟨slot.tag, hkey, st.fullTextRow s, hrow, ?_, rfl, rfl⟩, hdir⟩
  simp [Store.fullTextRow, hid, hl.text_at ht, hpath]

theorem FullText.retrieve_found (hl : st.Linked) {tags : List Tag} {query : Text} {limit : Nat}
    {hits : List Hit} (hhits : retrieve st tags dir query limit = .ok hits) :
    ∀ h ∈ hits, h.source = .fullText ∧ (∃ tag ∈ tags, st.Holds tag.key h) ∧
      inDirectory dir h.path := by
  unfold retrieve at hhits
  dsimp only at hhits
  split at hhits
  · cases hhits
    simp
  · split at hhits
    · cases hhits
    · cases hhits
      intro h hh
      obtain ⟨scored, hscored, rfl⟩ := List.mem_map.mp hh
      have hmem := List.mem_mergeSort.mp (List.mem_of_mem_take hscored)
      obtain ⟨⟨t, score⟩, ht, hhit⟩ := List.mem_filterMap.mp hmem
      obtain ⟨hsource, ⟨key, hkey, hholds⟩, hdir⟩ := hit_found hl (mem_of_ranked ht) hhit
      obtain ⟨tag, htag, rfl⟩ := List.mem_map.mp hkey
      exact ⟨hsource, ⟨tag, htag, hholds⟩, hdir⟩

theorem Similarity.retrieve_found {tags : List Tag} {query : Embedding} {limit : Nat} :
    ∀ h ∈ retrieve st tags dir query limit, h.source = .embeddings ∧
      (∃ tag ∈ tags, st.Holds tag.key h) ∧ FullText.inDirectory dir h.path := by
  intro h hh
  have hmem := List.mem_mergeSort.mp (List.mem_of_mem_take hh)
  obtain ⟨⟨slot, r⟩, hrow, hhit⟩ := List.mem_filterMap.mp hmem
  obtain ⟨hrow, hdir⟩ := List.mem_filter.mp hrow
  obtain ⟨key, hkey, hunder⟩ := List.mem_flatMap.mp hrow
  obtain ⟨hstored, htag⟩ := List.mem_filter.mp hunder
  rw [decide_eq_true_eq] at htag
  obtain ⟨tag, hwanted, rfl⟩ :=
    List.mem_map.mp (Query.mem_of_distinct (List.mem_mergeSort.mp hkey))
  obtain ⟨bytes, hvector, hhit⟩ := Option.bind_eq_some_iff.mp hhit
  dsimp only at hhit
  split at hhit
  · cases hhit
    refine ⟨rfl, ⟨tag, hwanted, r, ?_, ?_, rfl, rfl, rfl⟩, hdir⟩
    · refine List.mem_map.mpr ⟨_, List.mem_filter.mpr ⟨hstored, ?_⟩, rfl⟩
      rw [← htag, decide_eq_true_eq]
    · simp [EmbeddingRow.status, EmbeddingRow.failed, hvector]
  · cases hhit

theorem similar_found {σ : Type} {h : Host σ} {provider : String} {tags : List Tag} {query : Text}
    {limit : Nat} {w : σ} {hits : List Hit}
    (hhits : ((similar h provider st tags dir query limit).run w).1 = .ok hits) :
    ∀ hit ∈ hits, hit.source = .embeddings ∧ (∃ tag ∈ tags, st.Holds tag.key hit) ∧
      FullText.inDirectory dir hit.path := by
  unfold similar at hhits
  split at hhits
  · rw [run_bind] at hhits
    split at hhits
    · cases hhits
    · split at hhits
      · cases hhits
      · cases hhits
        exact Similarity.retrieve_found
  · cases hhits
    simp

end

theorem mem_hitsOf {answer : Except IndexError (List Hit)} {h : Hit} (hh : h ∈ hitsOf answer) :
    ∃ hits, answer = .ok hits ∧ h ∈ hits := by
  cases answer with
  | error => simp [hitsOf] at hh
  | ok hits => exact ⟨hits, rfl, hh⟩

/-- What a source found under the tags bound to it, it found under the tags of the query. -/
theorem found_of_bound {st : Store} {q : SearchQuery} {kind : ArtifactKind} {h : Hit}
    (hfound : h.source = kind ∧ (∃ tag ∈ q.tagsFor kind, st.Holds tag.key h) ∧
      FullText.inDirectory q.directory h.path) : Found st q.tags q.directory h := by
  obtain ⟨rfl, ⟨bound, hbound, hholds⟩, hdir⟩ := hfound
  obtain ⟨tag, htag, rfl⟩ := Tag.mem_boundTo hbound
  exact ⟨⟨tag, htag, hholds⟩, in_directory_iff.mp hdir⟩

/-- A change of the score is not a change of the row. -/
theorem Found.rescored {st : Store} {tags : List Tag} {dir : Option Path} {h : Hit}
    (hfound : Found st tags dir h) (score : Binary32) : Found st tags dir { h with score } :=
  ⟨hfound.row, hfound.inside⟩

section
variable {σ : Type} {normalize : Ranking.Normalizer}
  {z : SearchSizes} {st : Store} {q : SearchQuery} {w : σ}

/-- Every hit of a search is a stored row of the scopes asked for, inside the directory. The hits
are strictly ranked, one for each file, and a source that fails leaves the ranking to the other. -/
theorem search_stays_in_scope (h : Host σ) (provider : String) {S : Settings → Prop}
    {R : Rules} (hst : Reached S R st) (hnormalize : Ranking.Rescores normalize)
    (hsizes : z.check = .ok ()) :
    let byText := FullText.retrieve st (q.tagsFor .fullText) q.directory q.text z.retrieved
    let bySimilarity :=
      ((similar h provider st (q.tagsFor .embeddings) q.directory q.text z.retrieved).run w).1
    ∃ hits, ((search h provider normalize z st q).run w).1 = .ok hits ∧
      (∀ hit ∈ hits, Found st q.tags q.directory hit) ∧
      hits.length ≤ z.final ∧ (hits.map Hit.path).Nodup ∧ hits.Pairwise Ranking.Above ∧
      (∀ e, byText = .error e →
        hits = Ranking.merge normalize z.final [hitsOf bySimilarity]) ∧
      (∀ e, bySimilarity = .error e → hits = Ranking.merge normalize z.final [hitsOf byText]) := by
  intro byText bySimilarity
  obtain ⟨_, -, htells⟩ := hst.tells
  have hrun : ((search h provider normalize z st q).run w).1 =
      .ok (Ranking.merge normalize z.final [hitsOf byText, hitsOf bySimilarity]) := by
    rw [search, hsizes]
    rfl
  refine ⟨_, hrun, fun hit hhit => ?_, Ranking.merge_ranked.1, Ranking.merge_ranked.2.1,
    Ranking.merge_ranked.2.2, fun e he => ?_, fun e he => ?_⟩
  · obtain ⟨source, hsource, found, hfound, hsame⟩ := Ranking.mem_merge hnormalize hhit
    rw [hsame]
    refine Found.rescored ?_ _
    rcases List.mem_cons.mp hsource with rfl | hsource
    · obtain ⟨hits, hhits, hmem⟩ := mem_hitsOf hfound
      exact found_of_bound (FullText.retrieve_found htells.linked hhits found hmem)
    · rw [List.mem_singleton.mp hsource] at hfound
      obtain ⟨hits, hhits, hmem⟩ := mem_hitsOf hfound
      exact found_of_bound (similar_found hhits found hmem)
  · rw [he]
    exact Ranking.merge_nil_left [hitsOf bySimilarity] hnormalize
  · rw [he]
    exact Ranking.merge_nil_right [hitsOf byText] hnormalize

end

/-- A workspace of one file with words to look for. -/
def Files.worded : Files := .ofList [("/d/a.md", Utf8.encode "some words".toList)]

/-- A query for one of the words below the directory of the file. -/
def SearchQuery.word : SearchQuery :=
  ⟨[(Scope.mk noBranch "/d").tagFor .metadata], some "/d", "words".toList⟩

/-- Where the provider has no vectors, the file is found by its text alone. -/
theorem search_stays_in_scope_worded : ∃ st hits,
    Refreshes (Files.worded.host failing) .standard ["/d"] .empty st ∧
    ((search (Files.worded.host failing) "none" Ranking.keepScores ⟨2, 1⟩ st .word).run ()).1 =
      .ok hits ∧
    hits.map Hit.path = ["/d/a.md"] ∧
    ∀ hit ∈ hits, Found st SearchQuery.word.tags (some "/d") hit := by
  obtain ⟨st, hst, hpaths⟩ : ∃ st,
      Refreshes (Files.worded.host failing) .standard ["/d"] .empty st ∧
        (hitsOf ((search (Files.worded.host failing) "none" Ranking.keepScores ⟨2, 1⟩ st
          .word).run ()).1).map Hit.path = ["/d/a.md"] := by
    refine ⟨_, refreshes_of_done (w := ()) ?_, ?_⟩
    all_goals decide +kernel
  have hreached : Reached (· = .standard) .refreshing st :=
    hst.reached rfl (Rules.refreshing_allows _) .empty
  obtain ⟨hits, hrun, hfound, -⟩ := search_stays_in_scope (q := .word) (w := ())
    (z := ⟨2, 1⟩) (Files.worded.host failing) "none" hreached Ranking.keep_scores_rescores rfl
  rw [hrun] at hpaths
  exact ⟨st, hits, hst, hrun, hpaths, hfound⟩

end CodeIndex
