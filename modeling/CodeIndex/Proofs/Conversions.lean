import CodeIndex.Config.Basic
import CodeIndex.Proofs.MachineIndexing
import CodeIndex.Proofs.Retrieval

namespace CodeIndex
namespace Machine

/-- A hit as it is read: its lines were stored as signed words. -/
def hit (h : Hit) : Except IndexError Hit := do
  return { h with firstLine := ← signed h.firstLine, lastLine := ← signed h.lastLine }

/-- The length up to which paths are compared with a directory. -/
def belowLength (dir : Option Path) : Except IndexError Nat :=
  match dir with
  | none => return 0
  | some d => signed (Path.below d).toList.length

def fullText (st : Store) (tags : List Tag) (dir : Option Path) (query : Text) (limit : Nat) :
    Except IndexError (List Hit) := do
  if (Query.terms query).isEmpty || tags.isEmpty || limit = 0 then return []
  else
    let _ ← belowLength dir
    (← FullText.retrieve st tags dir query limit).mapM hit

def similarity (st : Store) (tags : List Tag) (dir : Option Path) (query : Embedding)
    (limit : Nat) : Except IndexError (List Hit) := do
  let _ ← belowLength dir
  let rows := (Similarity.rowsUnder st (tags.map Tag.key)).filter fun (slot, _) =>
    FullText.inDirectory dir slot.path
  let hits ← (rows.filterMap fun (slot, r) => Similarity.hit? query slot r).mapM hit
  return (hits.mergeSort fun a b => (Similarity.rank a b).isLE).take limit

def similar (h : Host σ) (provider : String) (st : Store) (tags : List Tag) (dir : Option Path)
    (query : Text) (limit : Nat) : StateM σ (Except IndexError (List Hit)) := do
  if Similarity.asks tags query limit then
    match ← h.embed [query] with
    | none => return .error .cancelled
    | some reply =>
      match onlyVector provider reply with
      | .error e => return .error (.provider e)
      | .ok vector => return similarity st tags dir vector limit
  else return .ok []

/-- A directory that fits into memory. -/
def Short (dir : Option Path) : Prop :=
  ∀ d, dir = some d → (Path.below d).toList.length < FullText.limitBound

theorem belowLength_ok {dir : Option Path} (h : Short dir) : ∃ n, belowLength dir = .ok n := by
  cases dir with
  | none => exact ⟨0, rfl⟩
  | some d => exact ⟨_, signed_ok (h d rfl)⟩

section
variable {st : Store} {tags : List Tag} {dir : Option Path}

theorem hit_ok (hst : Readable st) {key : String} {h : Hit} (hheld : st.Holds key h) :
    hit h = .ok h := by
  obtain ⟨hfirst, hlast⟩ :
      h.firstLine < FullText.limitBound ∧ h.lastLine < FullText.limitBound := by
    unfold Store.Holds at hheld
    cases hsource : h.source with
    | metadata | chunk =>
      rw [hsource] at hheld
      exact hheld.elim
    | fullText =>
      rw [hsource] at hheld
      obtain ⟨row, hrow, -, hfirst, hlast⟩ := hheld
      obtain ⟨segment, hsegment, rfl⟩ := List.mem_map.mp hrow
      obtain ⟨r, hr, rfl⟩ := List.mem_map.mp hsegment
      have hfits := hst.segments r (List.mem_of_mem_filter hr)
      exact ⟨hfirst ▸ hfits.firstLine, hlast ▸ hfits.lastLine⟩
    | embeddings =>
      rw [hsource] at hheld
      obtain ⟨row, hrow, -, -, hfirst, hlast⟩ := hheld
      obtain ⟨r, hr, rfl⟩ := List.mem_map.mp hrow
      have hfits := hst.embeddings r (List.mem_of_mem_filter hr)
      exact ⟨hfirst ▸ hfits.firstLine, hlast ▸ hfits.lastLine⟩
  rw [hit, signed_ok hfirst, ok_bind, signed_ok hlast]
  rfl

theorem hits_ok (hst : Readable st) {hits : List Hit}
    (hhits : ∀ h ∈ hits, ∃ key, st.Holds key h) : hits.mapM hit = .ok hits := by
  have hmap := mapM_ok (f := hit) (g := id) fun h hh => (hhits h hh).elim fun _ => hit_ok hst
  rwa [List.map_id] at hmap

theorem fullText_eq (hst : Readable st) (hl : st.Linked) (hdir : Short dir) (tags : List Tag)
    (query : Text) (limit : Nat) :
    fullText st tags dir query limit = FullText.retrieve st tags dir query limit := by
  obtain ⟨n, hn⟩ := belowLength_ok hdir
  rw [fullText, hn]
  split
  · rename_i hnothing
    rw [FullText.retrieve]
    simp only [List.isEmpty_map, hnothing, if_true]
    rfl
  · rw [ok_bind]
    cases hhits : FullText.retrieve st tags dir query limit with
    | error err => rfl
    | ok hits =>
      refine hits_ok hst fun h hh => ?_
      obtain ⟨-, ⟨tag, -, hheld⟩, -⟩ := FullText.retrieve_found hl hhits h hh
      exact ⟨tag.key, hheld⟩

theorem similarity_ok (hst : Readable st) (hdir : Short dir) (tags : List Tag) (query : Embedding)
    (limit : Nat) : similarity st tags dir query limit =
      .ok (Similarity.retrieve st tags dir query limit) := by
  obtain ⟨n, hn⟩ := belowLength_ok hdir
  rw [similarity, hn, ok_bind]
  dsimp only
  rw [hits_ok hst]
  · rfl
  · intro h hh
    -- Of all that is scored, the first ones are found whatever the limit is.
    obtain ⟨all, hall⟩ : ∃ all, h ∈ Similarity.retrieve st tags dir query all := by
      constructor
      unfold Similarity.retrieve
      dsimp only
      rwa [List.take_of_length_le (Nat.le_refl _), List.mem_mergeSort]
    obtain ⟨-, ⟨tag, -, hheld⟩, -⟩ := Similarity.retrieve_found h hall
    exact ⟨tag.key, hheld⟩

theorem similar_eq {σ : Type} (hst : Readable st) (hdir : Short dir) (h : Host σ)
    (provider : String) (tags : List Tag) (query : Text) (limit : Nat) :
    similar h provider st tags dir query limit =
      CodeIndex.similar h provider st tags dir query limit := by
  unfold similar CodeIndex.similar
  split
  · refine bind_congr fun reply => ?_
    cases reply with
    | none => rfl
    | some reply =>
      dsimp only
      cases onlyVector provider reply with
      | error err => rfl
      | ok vector => simp only [similarity_ok hst hdir]
  · rfl

end
end Machine

section
variable {st : Store} {tags : List Tag} {dir : Option Path}

/-- A full-text search fails exactly if there is something to look for and the limit is too
large. -/
theorem full_text_error_iff {query : Text} {limit : Nat} {err : IndexError} :
    FullText.retrieve st tags dir query limit = .error err ↔
      err = .integerConversion ∧ Query.terms query ≠ [] ∧ tags ≠ [] ∧
        FullText.limitBound ≤ limit := by
  have hpositive : FullText.limitBound ≠ 0 := by decide
  rw [FullText.retrieve]
  dsimp only
  split
  · rename_i hnothing
    simp only [Bool.or_eq_true, List.isEmpty_iff, List.map_eq_nil_iff, decide_eq_true_eq]
      at hnothing
    refine iff_of_false (by simp) ?_
    rintro ⟨-, hterms, htags, hlimit⟩
    rcases hnothing with (h | h) | h
    · exact hterms h
    · exact htags h
    · omega
  · rename_i hsome
    simp only [Bool.or_eq_true, List.isEmpty_iff, List.map_eq_nil_iff, decide_eq_true_eq,
      not_or] at hsome
    split
    · rename_i hlarge
      simp [hsome, hlarge, eq_comm]
    · rename_i hfits
      simp [hfits]

/-- Up to the bound, a full-text search with a lower limit gives the first hits of one with a higher
limit. -/
theorem full_text_take {query : Text} {fewer limit : Nat} (hle : fewer ≤ limit)
    (hlimit : limit < FullText.limitBound) :
    ∃ hits, FullText.retrieve st tags dir query limit = .ok hits ∧
      FullText.retrieve st tags dir query fewer = .ok (hits.take fewer) := by
  have hok (n : Nat) (hn : n < FullText.limitBound) :
      ∃ hits, FullText.retrieve st tags dir query n = .ok hits := by
    cases hhits : FullText.retrieve st tags dir query n with
    | ok hits => exact ⟨hits, rfl⟩
    | error err => exact absurd (full_text_error_iff.mp hhits).2.2.2 (Nat.not_le.mpr hn)
  obtain ⟨hits, hhits⟩ := hok limit hlimit
  refine ⟨hits, hhits, ?_⟩
  rw [FullText.retrieve] at hhits ⊢
  dsimp only at hhits ⊢
  by_cases hnothing : ((Query.terms query).map Text.fold).isEmpty || tags.isEmpty
  · simp only [hnothing, Bool.true_or, if_true] at hhits ⊢
    cases hhits
    rw [List.take_nil]
  · simp only [hnothing, Bool.false_or, decide_eq_true_eq, Nat.not_le.mpr hlimit,
      Nat.not_le.mpr (Nat.lt_of_le_of_lt hle hlimit), if_false] at hhits ⊢
    split
    · rename_i hzero
      rw [hzero, List.take_zero]
    · rw [if_neg (by omega)] at hhits
      cases hhits
      rw [← List.map_take, List.take_take, Nat.min_eq_left hle]

theorem full_text_asked {query : Text} {limit : Nat} {hits : List Hit}
    (hhits : FullText.retrieve st tags dir query limit = .ok hits) (hsome : hits ≠ []) :
    Query.terms query ≠ [] ∧ tags ≠ [] := by
  rw [FullText.retrieve] at hhits
  constructor
  · intro hterms
    rw [hterms] at hhits
    cases hhits
    exact hsome rfl
  · intro htags
    rw [htags] at hhits
    simp only [List.isEmpty_nil, Bool.or_true, Bool.true_or, if_true] at hhits
    cases hhits
    exact hsome rfl

/-- Where a lower limit has hits, a higher one has none exactly if it is too large. -/
theorem full_text_nil_iff {query : Text} {fewer limit : Nat} (hle : fewer ≤ limit)
    (hsome : hitsOf (FullText.retrieve st tags dir query fewer) ≠ []) :
    hitsOf (FullText.retrieve st tags dir query limit) = [] ↔ FullText.limitBound ≤ limit := by
  constructor
  · intro hnone
    by_contra hlimit
    obtain ⟨hits, hhits, hfewer⟩ : ∃ hits, FullText.retrieve st tags dir query limit = .ok hits ∧
        FullText.retrieve st tags dir query fewer = .ok (hits.take fewer) :=
      full_text_take hle (Nat.not_le.mp hlimit)
    rw [hhits] at hnone
    rw [hfewer, show hits = [] from hnone] at hsome
    exact hsome List.take_nil
  · intro hlimit
    obtain ⟨hit, hhit⟩ := List.exists_mem_of_ne_nil _ hsome
    obtain ⟨hits, hhits, hmem⟩ := mem_hitsOf hhit
    obtain ⟨hterms, htags⟩ := full_text_asked hhits (List.ne_nil_of_mem hmem)
    rw [full_text_error_iff.mpr ⟨rfl, hterms, htags, hlimit⟩]
    rfl

section
variable {σ : Type} {h : Host σ} {provider : String} {query : Text} {w : σ}

theorem similar_not_conversion {limit : Nat} :
    ((similar h provider st tags dir query limit).run w).1 ≠ .error .integerConversion := by
  intro hfails
  unfold similar at hfails
  split at hfails
  · rw [run_bind] at hfails
    split at hfails
    · cases hfails
    · split at hfails <;> cases hfails
  · cases hfails

/-- A search by similarity that has hits has the same ones first with any higher limit. -/
theorem similar_take {fewer limit : Nat} (hle : fewer ≤ limit) {hits : List Hit}
    (hhits : ((similar h provider st tags dir query fewer).run w).1 = .ok hits)
    (hsome : hits ≠ []) :
    ∃ more, ((similar h provider st tags dir query limit).run w).1 = .ok more ∧
      hits = more.take fewer := by
  unfold similar at hhits ⊢
  by_cases hasks : Similarity.asks tags query fewer
  · have hmore : Similarity.asks tags query limit := by
      simp only [Similarity.asks, Bool.and_eq_true, decide_eq_true_eq] at hasks ⊢
      refine ⟨⟨hasks.1.1, ?_⟩, hasks.2⟩
      have := hasks.1.2
      omega
    rw [if_pos hasks, run_bind] at hhits
    rw [if_pos hmore, run_bind]
    generalize (h.embed [query]).run w = answer at hhits
    obtain ⟨reply, w₁⟩ := answer
    cases reply with
    | none => cases hhits
    | some reply =>
      dsimp only at hhits ⊢
      cases hvector : onlyVector provider reply with
      | error err =>
        rw [hvector] at hhits
        cases hhits
      | ok vector =>
        rw [hvector] at hhits
        cases hhits
        refine ⟨_, rfl, ?_⟩
        simp only [Similarity.retrieve, List.take_take, Nat.min_eq_left hle]
  · rw [if_neg hasks] at hhits
    cases hhits
    exact absurd rfl hsome

end
end

theorem Config.validate_limits {c : Config} (h : c.validate = .ok ()) :
    c.limits.target ≠ 0 ∧ c.limits.target ≤ c.limits.max := by
  have hfine : c.complaint? = none := by
    rw [Config.validate] at h
    cases hcomplaint : c.complaint? with
    | none => rfl
    | some complaint =>
      rw [hcomplaint] at h
      cases h
  by_contra hlimits
  have hrefused : c.limits.target = 0 ∨ c.limits.max < c.limits.target := by omega
  rw [Config.complaint?, if_pos hrefused] at hfine
  by_cases hbatch : c.embeddings.batchSize = 0
  · rw [if_pos hbatch] at hfine
    cases hfine
  · rw [if_neg hbatch] at hfine
    by_cases hconcurrency : c.embeddings.maxConcurrency = 0
    · rw [if_pos hconcurrency] at hfine
      cases hfine
    · rw [if_neg hconcurrency] at hfine
      cases hfine

theorem Config.sound {c : Config} {parser : Parser} (h : c.validate = .ok ())
    (hparser : Machine.Reads parser) : Machine.Sound (c.settings parser) := by
  obtain ⟨hsome, hordered⟩ := Config.validate_limits h
  exact ⟨Nat.le_trans (Nat.pos_of_ne_zero hsome) hordered, hordered, hparser⟩

section
variable {σ : Type} {h : Host σ}

/-- Where reading makes no conversion in vain, indexing makes none either. -/
theorem index_not_conversion (hreads : ∀ p w, ((h.read p).run w).1 ≠ .error .integerConversion)
    (s : Settings) (j : Job) (st : Store) (w : σ) :
    ((j.index h s st).run w).1 ≠ .error .integerConversion := by
  intro hfailed
  rcases index_fails hfailed with hcancelled | hread | hfile
  · cases hcancelled
  · rw [Job.bytes] at hread
    split at hread
    · cases hread
    · rw [read_within_eq] at hread
      cases hbytes : ((h.read j.path).run w).1 with
      | error err =>
        rw [hbytes] at hread
        cases hread
        exact hreads j.path w hbytes
      | ok bytes =>
        rw [hbytes, Except.bind] at hread
        split at hread <;> cases hread
  · cases hfile

/-- Indexing with bounded numbers is indexing, and makes no failing conversion. -/
structure IndexesBounded (h : Host σ) (s : Settings) (st : Store) (w : σ) : Prop where
  same : ∀ j : Job, (Machine.index h s j st).run w = (j.index h s st).run w
  converts : ∀ j : Job, ((j.index h s st).run w).1 ≠ .error .integerConversion

/-- A full-text search with bounded numbers is one. It fails exactly if its limit does not fit a
signed word, and only then a larger limit loses what a smaller one finds. -/
structure FindsTextBounded (st : Store) (tags : List Tag) (dir : Option Path) (query : Text)
    (limit : Nat) : Prop where
  same : Machine.fullText st tags dir query limit = FullText.retrieve st tags dir query limit
  fails : ∀ err, FullText.retrieve st tags dir query limit = .error err ↔
    err = .integerConversion ∧ Query.terms query ≠ [] ∧ tags ≠ [] ∧ FullText.limitBound ≤ limit
  loses : ∀ fewer ≤ limit, hitsOf (FullText.retrieve st tags dir query fewer) ≠ [] →
    (hitsOf (FullText.retrieve st tags dir query limit) = [] ↔ FullText.limitBound ≤ limit)

/-- A search by similarity with bounded numbers is one, makes no failing conversion, and finds
something with a larger limit if it does with a smaller one. -/
structure FindsSimilarBounded (h : Host σ) (provider : String) (st : Store) (tags : List Tag)
    (dir : Option Path) (query : Text) (limit : Nat) (w : σ) : Prop where
  same : Machine.similar h provider st tags dir query limit =
    similar h provider st tags dir query limit
  converts : ((similar h provider st tags dir query limit).run w).1 ≠ .error .integerConversion
  keeps : ∀ fewer ≤ limit,
    hitsOf ((similar h provider st tags dir query fewer).run w).1 ≠ [] →
      hitsOf ((similar h provider st tags dir query limit).run w).1 ≠ []

/-- What numbers of bounded size do to an index that is searched with this limit. -/
structure Bounded (h : Host σ) (s : Settings) (provider : String) (st : Store) (tags : List Tag)
    (dir : Option Path) (query : Text) (limit : Nat) (w : σ) : Prop where
  indexing : IndexesBounded h s st w
  byText : FindsTextBounded st tags dir query limit
  bySimilarity : FindsSimilarBounded h provider st tags dir query limit w

/-- Under a valid configuration nothing is converted in vain but for the limit of a full-text
search. Indexing and searching with bounded numbers is indexing and searching; indexing and searches
by similarity make no failing conversion; a full-text search fails exactly if its limit does not fit
a signed word. So only there a larger limit loses what a smaller one finds. -/
theorem conversion_fails_iff {c : Config} {parser : Parser} {R : Rules} {st : Store}
    {dir : Option Path} (hvalid : c.validate = .ok ()) (hparser : Machine.Reads parser)
    (hcontents : ∀ bytes, R.contents bytes → bytes.length < FullText.limitBound)
    (hallow : R.Allow h) (hreads : ∀ p w, ((h.read p).run w).1 ≠ .error .integerConversion)
    (hst : Reached Machine.Sound R st) (hdir : Machine.Short dir) (provider : String)
    (tags : List Tag) (query : Text) (w : σ) :
    Bounded h (c.settings parser) provider st tags dir query c.sizes.retrieved w := by
  have hsound := Config.sound hvalid hparser
  have hreadable := Machine.reached_readable (fun _ => id) hcontents hst
  obtain ⟨_, -, htells⟩ := hst.tells
  refine ⟨⟨?_, ?_⟩, ⟨?_, fun _ => full_text_error_iff, fun _ => full_text_nil_iff⟩,
    ⟨?_, similar_not_conversion, ?_⟩⟩
  · intro j
    refine Machine.index_eq hsound (fun _ bytes _ hread => ?_) j st w
    exact hcontents bytes (hallow.reads hread)
  · intro j
    exact index_not_conversion hreads _ j st w
  · exact Machine.fullText_eq hreadable htells.linked hdir tags query c.sizes.retrieved
  · exact Machine.similar_eq hreadable hdir h provider tags query c.sizes.retrieved
  · intro fewer hfewer hsome
    obtain ⟨hit, hhit⟩ := List.exists_mem_of_ne_nil _ hsome
    obtain ⟨hits, hhits, hmem⟩ := mem_hitsOf hhit
    obtain ⟨more, hmore, rfl⟩ := similar_take hfewer hhits (List.ne_nil_of_mem hmem)
    rw [hmore]
    exact List.ne_nil_of_mem (List.mem_of_mem_take hmem)

end

/-- A valid configuration that asks each source for more than a signed word can count. -/
def Config.unlimited : Config := { sizes := ⟨FullText.limitBound, 10⟩ }

/-- Files that fit into memory, and no clears. -/
def Rules.inMemory : Rules where
  contents bytes := bytes.length < FullText.limitBound
  replies _ _ := True
  clears _ := False

/-- A parser that knows one text. -/
def TwoFunctions.reader : Parser := fun _ source =>
  if source = TwoFunctions.source then some tree else none

theorem TwoFunctions.reads : Machine.Reads reader := by
  intro l source root hparse
  unfold reader at hparse
  split at hparse
  · rename_i hsource
    cases hparse
    exact hsource ▸ tree_within
  · cases hparse

theorem worded_fits (provider : List Text → Except ProviderError (List Embedding)) :
    Rules.inMemory.Allow (Files.worded.host provider) := by
  refine Files.host_allowed ?_ fun _ => trivial
  intro p bytes hread
  rw [List.mem_singleton.mp (Files.mem_of_of_list_read hread)]
  show (Utf8.encode "some words".toList).length < FullText.limitBound
  decide +kernel

theorem worded_reads {provider : List Text → Except ProviderError (List Embedding)} (p : Path)
    (w : Unit) : (((Files.worded.host provider).read p).run w).1 ≠ .error .integerConversion := by
  show (Files.ofList _).read p ≠ _
  simp only [Files.ofList]
  split <;> simp

/-- With such a limit, the source by text loses what it finds with a smaller one, and the source by
similarity does not. -/
theorem conversion_fails_iff_unlimited : ∃ st,
    let h := Files.worded.host (answering fun _ => [.one])
    let s := Config.unlimited.settings TwoFunctions.reader
    let byText := FullText.retrieve st (SearchQuery.word.tagsFor .fullText) (some "/d")
      "words".toList
    let retrieved := Config.unlimited.sizes.retrieved
    Refreshes h s ["/d"] .empty st ∧
    (∀ j : Job, (Machine.index h s j st).run () = (j.index h s st).run ()) ∧
    (hitsOf (byText 10)).map Hit.path = ["/d/a.md"] ∧
    byText retrieved = .error .integerConversion ∧ hitsOf (byText retrieved) = [] ∧
    hitsOf ((similar h "one" st (SearchQuery.word.tagsFor .embeddings) (some "/d") "words".toList
      retrieved).run ()).1 ≠ [] := by
  obtain ⟨st, hst, htext, hsimilar⟩ : ∃ st,
      Refreshes (Files.worded.host (answering fun _ => [.one]))
        (Config.unlimited.settings TwoFunctions.reader) ["/d"] .empty st ∧
      (hitsOf (FullText.retrieve st (SearchQuery.word.tagsFor .fullText) (some "/d")
        "words".toList 10)).map Hit.path = ["/d/a.md"] ∧
      (hitsOf ((similar (Files.worded.host (answering fun _ => [.one])) "one" st
        (SearchQuery.word.tagsFor .embeddings) (some "/d") "words".toList 10).run ()).1).map
          Hit.path = ["/d/a.md"] := by
    refine exists_refreshes (w := ()) ?_
    decide +kernel
  have hallow := worded_fits (answering fun _ => [.one])
  have hdir : Machine.Short (some "/d") := by
    rintro _ ⟨⟩
    decide
  have hsound : Machine.Sound (Config.unlimited.settings TwoFunctions.reader) :=
    Config.sound (by decide) TwoFunctions.reads
  have hconversions := fun tags => conversion_fails_iff (c := .unlimited) (by decide)
    TwoFunctions.reads (fun _ h => h) hallow worded_reads (hst.reached hsound hallow .empty) hdir
    "one" tags "words".toList ()
  have hbyText := (hconversions (SearchQuery.word.tagsFor .fullText)).byText
  have hbounded := hconversions (SearchQuery.word.tagsFor .embeddings)
  refine ⟨st, hst, hbounded.indexing.same, htext, ?_, ?_, ?_⟩
  · exact (hbyText.fails _).mpr ⟨rfl, by decide +kernel, by decide +kernel, Nat.le_refl _⟩
  · refine (hbyText.loses 10 (by decide) fun hnone => ?_).mpr (Nat.le_refl _)
    rw [hnone] at htext
    cases htext
  · refine hbounded.bySimilarity.keeps 10 (by decide) fun hnone => ?_
    rw [hnone] at hsimilar
    cases hsimilar

/-- Where the provider has no vectors either, nothing at all is found. -/
theorem too_large_limit_finds_nothing : ∃ st,
    let h := Files.worded.host failing
    Config.unlimited.validate = .ok () ∧
    Reached (· = Config.unlimited.settings TwoFunctions.reader) .inMemory st ∧
    FullText.retrieve st (SearchQuery.word.tagsFor .fullText) (some "/d") "words".toList
      Config.unlimited.sizes.retrieved = .error .integerConversion ∧
    (hitsOf ((search h "none" Ranking.keepScores ⟨10, 10⟩ st .word).run ()).1).map Hit.path =
      ["/d/a.md"] ∧
    (hitsOf ((search h "none" Ranking.keepScores Config.unlimited.sizes st .word).run ()).1).map
      Hit.path = [] := by
  obtain ⟨st, hst, hfound⟩ : ∃ st,
      Refreshes (Files.worded.host failing) (Config.unlimited.settings TwoFunctions.reader) ["/d"]
        .empty st ∧
      (hitsOf ((search (Files.worded.host failing) "none" Ranking.keepScores ⟨10, 10⟩ st
        .word).run ()).1).map Hit.path = ["/d/a.md"] ∧
      (hitsOf ((search (Files.worded.host failing) "none" Ranking.keepScores
        Config.unlimited.sizes st .word).run ()).1).map Hit.path = [] := by
    refine exists_refreshes (w := ()) ?_
    decide +kernel
  refine ⟨st, by decide, hst.reached rfl (worded_fits failing) .empty, ?_, hfound⟩
  exact full_text_error_iff.mpr ⟨rfl, by decide +kernel, by decide +kernel, Nat.le_refl _⟩

end CodeIndex
