import CodeIndex.Proofs.NamedFiles
import CodeIndex.Proofs.Records
import CodeIndex.Proofs.Retrieval

namespace CodeIndex

namespace Table

/-- The rows whose key is not gone. -/
def outside (gone : String → Bool) (t : Table α) : Table α := t.filter (!gone ·.1.tag)

theorem under_outside (gone : String → Bool) (key : String) (t : Table α) :
    (t.outside gone).underTag key = if gone key then [] else t.underTag key := by
  rw [outside, underTag, List.filter_filter]
  split
  · rename_i hgone
    rw [List.filter_eq_nil_iff]
    intro r _ hr
    simp only [Bool.and_eq_true, decide_eq_true_eq] at hr
    rw [hr.1, hgone] at hr
    exact absurd hr.2 (by simp)
  · rename_i hgone
    apply List.filter_congr
    intro r _
    by_cases hkey : r.1.tag = key
    · simp [hkey, hgone]
    · simp [hkey]

theorem outside_outside (gone gone' : String → Bool) (t : Table α) :
    (t.outside gone).outside gone' = t.outside fun key => gone key || gone' key := by
  simp only [outside, List.filter_filter, Bool.not_or]
  congr 1
  funext r
  exact Bool.and_comm _ _

theorem outside_eq_self {gone : String → Bool} {t : Table α}
    (hnone : ∀ slot ∈ t.map Prod.fst, gone slot.tag = false) : t.outside gone = t := by
  apply List.filter_eq_self.mpr
  intro r hr
  rw [hnone r.1 (List.mem_map_of_mem hr)]
  rfl

theorem withoutTag_eq (key : String) (t : Table α) : t.withoutTag key = t.outside (· = key) := by
  simp [withoutTag, outside]

theorem rows_of_under_nil {key : String} {t : Table α} (hnone : t.underTag key = []) (p : Path) :
    t.rows ⟨key, p⟩ = [] := by
  rw [rows, List.map_eq_nil_iff, List.filter_eq_nil_iff]
  intro r hr hslot
  rw [decide_eq_true_eq] at hslot
  have hmem : r ∈ t.underTag key := List.mem_filter.mpr ⟨hr, by simp [hslot]⟩
  rw [hnone] at hmem
  cases hmem

end Table

namespace Store

/-- The store without all that is filed under keys that are gone. -/
def outside (gone : String → Bool) (st : Store) : Store where
  catalog := st.catalog.outside gone
  facts := st.facts.outside gone
  texts := withoutTexts ((st.segments.filter (gone ·.1.tag)).map (·.2)) st.texts
  segments := st.segments.outside gone
  chunks := st.chunks.outside gone
  embeddings := st.embeddings.outside gone

theorem outside_nothing (st : Store) : st.outside (fun _ => false) = st := by
  simp [outside, Table.outside, withoutTexts]

theorem outside_outside (gone gone' : String → Bool) (st : Store) :
    (st.outside gone).outside gone' = st.outside fun key => gone key || gone' key := by
  have htexts : ((st.outside gone).outside gone').texts =
      (st.outside fun key => gone key || gone' key).texts := by
    simp only [outside, withoutTexts, Table.outside, List.filter_filter, List.any_map,
      List.any_filter]
    apply List.filter_congr
    intro t _
    rw [← Bool.not_or]
    congr 1
    rw [Bool.eq_iff_iff]
    simp only [Bool.or_eq_true, List.any_eq_true, Bool.and_eq_true, Function.comp_apply]
    grind
  simp only [outside] at htexts
  simp only [outside, Table.outside_outside, htexts]

/-- The slots of the rows of an artifact. -/
def slotsOf (k : ArtifactKind) (st : Store) : List Slot :=
  match k with
  | .metadata => st.facts.map Prod.fst
  | .fullText => st.segments.map Prod.fst
  | .chunk => st.chunks.map Prod.fst
  | .embeddings => st.embeddings.map Prod.fst

/-- The rows of each artifact are filed under its own keys. -/
def Filed (st : Store) : Prop :=
  ∀ k, ∀ slot ∈ st.slotsOf k, ∃ (t : Scope) (p : Path), slot = t.slot k p

theorem mem_slots_of {k : ArtifactKind} {slot : Slot} {st : Store} :
    slot ∈ st.slotsOf k ↔ st.rowsOf k slot ≠ .empty k := by
  cases k <;>
    simp [slotsOf, rowsOf, Rows.empty, fullTextRows, Table.rows, List.filter_eq_nil_iff]

theorem filed_empty : Store.empty.Filed := by
  intro k slot hslot
  cases k <;> cases hslot

/-- New rows of an artifact in slots of its own leave all rows where they belong. -/
theorem Brings.filed {st st' : Store} {here : ArtifactKind → Slot → Prop}
    {new : ArtifactKind → Rows} (hb : st.Brings here new st') (hf : st.Filed)
    (hhere : ∀ {k slot}, here k slot → ∃ (t : Scope) (p : Path), slot = t.slot k p) :
    st'.Filed := by
  intro k slot hslot
  by_cases h : here k slot
  · exact hhere h
  · apply hf k slot
    rw [mem_slots_of] at hslot ⊢
    rwa [hb.outside h] at hslot

theorem Filed.congr {st st' : Store} (hf : st.Filed)
    (hrows : ∀ k slot, st'.rowsOf k slot = st.rowsOf k slot) : st'.Filed := by
  intro k slot hslot
  apply hf k slot
  rw [mem_slots_of] at hslot ⊢
  rwa [hrows] at hslot

/-- A file that was indexed has its rows in slots of its own. -/
theorem Filed.index {σ : Type} {h : Host σ} {s : Settings} {j : Job} {st st' : Store} {lost : Nat}
    {w : σ} (hf : st.Filed) (hl : st.Linked) (hj : j.change ≠ .unchanged)
    (hindex : ((j.index h s st).run w).1 = .ok (st', lost)) : st'.Filed := by
  obtain ⟨bytes, embedded, w₁, -, hmade, hu⟩ := index_ok hindex
  obtain ⟨new, lost', hwrites⟩ := writes_of_prepared hj hmade
  obtain ⟨st₁, hall, hb⟩ := hwrites.update_all ArtifactKind.all 0 hl
  obtain ⟨st₂, hu', -, hrows, -, -⟩ := update_file_view hall hb
  cases hu.symm.trans hu'
  refine (hb.filed hf ?_).congr hrows
  rintro k slot ⟨-, rfl⟩
  exact ⟨_, _, rfl⟩

/-- An artifact other than the one that a key names has no row under it. -/
theorem Filed.apart {st : Store} (hf : st.Filed) {scope : Scope} {k l : ArtifactKind} (hkl : k ≠ l)
    {slot : Slot} (hslot : slot ∈ st.slotsOf l) :
    decide (slot.tag = (scope.tagFor k).key) = false := by
  obtain ⟨t, p, rfl⟩ := hf l slot hslot
  rw [decide_eq_false_iff_not]
  intro hkey
  exact hkl (Scope.key_eq_iff.mp hkey).2.symm

theorem texts_eq_self (gone : String → Bool) {st : Store}
    (hnone : ∀ slot ∈ st.segments.map Prod.fst, gone slot.tag = false) :
    withoutTexts ((st.segments.filter (gone ·.1.tag)).map (·.2)) st.texts = st.texts := by
  have hdropped : st.segments.filter (gone ·.1.tag) = [] := by
    rw [List.filter_eq_nil_iff]
    intro e he
    rw [hnone e.1 (List.mem_map_of_mem he)]
    simp
  rw [hdropped]
  simp [withoutTexts]

/-- The tables of the other artifacts have nothing to lose. -/
theorem Filed.clear_tag_eq {st : Store} (hf : st.Filed) {tag : Tag} (htag : OfScope tag) :
    st.clearTag tag = st.outside (· = tag.key) := by
  obtain ⟨scope, kind, rfl⟩ := htag
  rw [clear_tag_scope]
  generalize hkey : (scope.tagFor kind).key = key
  have hapart : ∀ l, kind ≠ l → ∀ slot ∈ st.slotsOf l, decide (slot.tag = key) = false := by
    intro l hl slot hslot
    rw [← hkey]
    exact hf.apart hl hslot
  have hfacts : kind ≠ .metadata → st.facts.outside (· = key) = st.facts :=
    fun hne => Table.outside_eq_self (hapart .metadata hne)
  have hsegments : kind ≠ .fullText → st.segments.outside (· = key) = st.segments :=
    fun hne => Table.outside_eq_self (hapart .fullText hne)
  have htexts : kind ≠ .fullText →
      withoutTexts ((st.segments.filter (·.1.tag = key)).map (·.2)) st.texts = st.texts :=
    fun hne => texts_eq_self (· = key) (hapart .fullText hne)
  have hchunks : kind ≠ .chunk → st.chunks.outside (· = key) = st.chunks :=
    fun hne => Table.outside_eq_self (hapart .chunk hne)
  have hembeddings : kind ≠ .embeddings → st.embeddings.outside (· = key) = st.embeddings :=
    fun hne => Table.outside_eq_self (hapart .embeddings hne)
  cases kind with
  | metadata =>
    simp only [clear, forgetTag, outside, Table.withoutTag_eq, hsegments (by decide),
      htexts (by decide), hchunks (by decide), hembeddings (by decide)]
  | fullText =>
    simp only [clear, forgetTag, outside, clearWindows, Table.underTag, Table.withoutTag_eq,
      hfacts (by decide), hchunks (by decide), hembeddings (by decide)]
  | chunk =>
    simp only [clear, forgetTag, outside, Table.withoutTag_eq, hfacts (by decide),
      hsegments (by decide), htexts (by decide), hembeddings (by decide)]
  | embeddings =>
    simp only [clear, forgetTag, outside, Table.withoutTag_eq, hfacts (by decide),
      hsegments (by decide), htexts (by decide), hchunks (by decide)]

theorem Filed.outside {st : Store} (hf : st.Filed) (gone : String → Bool) :
    (st.outside gone).Filed := by
  intro k slot hslot
  apply hf k slot
  cases k with
  | metadata | fullText | chunk | embeddings =>
    obtain ⟨r, hr, rfl⟩ := List.mem_map.mp hslot
    exact List.mem_map_of_mem (List.mem_filter.mp hr).1

/-- Clearing tag after tag removes just the rows under their keys. -/
theorem Filed.clear_tags_eq {tags : List Tag} (htags : ∀ tag ∈ tags, OfScope tag) {st : Store}
    (hf : st.Filed) : tags.foldl clearTag st = st.outside fun key => tags.any (·.key = key) := by
  induction tags generalizing st with
  | nil => exact st.outside_nothing.symm
  | cons tag tags ih =>
    have htag := htags tag List.mem_cons_self
    rw [List.foldl_cons, hf.clear_tag_eq htag,
      ih (fun t ht => htags t (List.mem_cons_of_mem _ ht)) (hf.outside _), outside_outside]
    congr 1
    funext key
    rw [List.any_cons]
    congr 1
    exact decide_eq_decide.mpr eq_comm

end Store

/-- In every store that is reached, the rows of each artifact are filed under its own keys. -/
theorem Reached.filed {S : Settings → Prop} {R : Rules} {st : Store} (hst : Reached S R st) :
    st.Filed := by
  induction hst with
  | empty => exact Store.filed_empty
  | @turn s σ h r st w hst _ hallow hr ih =>
    obtain ⟨_, -, ht⟩ := hst.tells
    generalize hturn : ((r.next h s st).run w).1 = t
    have hmoves : r.Moves h s st t := hturn ▸ Run.next_moves w
    cases hmoves with
    | settle _ hjobs hsettles =>
      cases hsettles with
      | written w' hindex =>
        exact ih.index ht.linked (hr _ (hjobs ▸ List.mem_cons_self)) hindex
      | failed => exact ih
    | plan | announce | reject | hold | stop | finish | idle => exact ih
  | clear w _ _ ih =>
    rw [clear_indexes_run, ih.clear_tags_eq fun tag => of_scope_of_mem_tags]
    exact ih.outside _

/-- All rows under some keys are lost, and nothing else; the texts that are left are those that the
segments that are left point to. -/
structure Store.Forgets (st : Store) (gone : String → Prop) (st' : Store) : Prop where
  lost : ∀ {key}, gone key → st'.catalog.underTag key = [] ∧ st'.facts.underTag key = [] ∧
    st'.segments.underTag key = [] ∧ st'.chunks.underTag key = [] ∧ st'.embeddings.underTag key = []
  kept : ∀ {key}, ¬ gone key → st'.catalog.underTag key = st.catalog.underTag key ∧
    st'.facts.underTag key = st.facts.underTag key ∧
    st'.segments.underTag key = st.segments.underTag key ∧
    st'.chunks.underTag key = st.chunks.underTag key ∧
    st'.embeddings.underTag key = st.embeddings.underTag key
  texts : st'.texts = st.texts.filter fun t => st'.segments.any fun e => e.2.textId = t.id
  joined : ∀ e ∈ st'.segments, ∃ t ∈ st'.texts,
    st.textAt? e.2.textId = some t ∧ st'.textAt? e.2.textId = some t

theorem Store.Linked.outside_forgets {st : Store} (hl : st.Linked) (gone : String → Prop)
    [DecidablePred gone] : st.Forgets gone (st.outside fun key => gone key) := by
  let q : Slot → Bool := fun slot => gone slot.tag
  have hsegment : ∀ {e}, e ∈ (st.outside fun key => gone key).segments ↔
      e ∈ st.segments ∧ ¬ gone e.1.tag := by
    intro e
    simp [outside, Table.outside]
  refine ⟨?_, ?_, ?_, ?_⟩
  · intro key hgone
    simp only [outside, Table.under_outside, hgone, decide_true, if_true, and_self]
  · intro key hgone
    simp only [outside, Table.under_outside, hgone, decide_false, Bool.false_eq_true, if_false,
      and_self]
  · apply List.filter_congr
    intro t ht
    obtain ⟨e, he, hid⟩ := hl.has_segment ht
    rw [← hid, hl.dropped_iff q he, Bool.eq_iff_iff, List.any_eq_true]
    constructor
    · intro hkept
      exact ⟨e, hsegment.mpr ⟨he, by simpa [q] using hkept⟩, by simp⟩
    · rintro ⟨f, hf, hsame⟩
      obtain ⟨hf, hgone⟩ := hsegment.mp hf
      rw [hl.same_slot he hf (of_decide_eq_true hsame).symm]
      simpa [q] using hgone
  · intro e he
    obtain ⟨hmem, hgone⟩ := hsegment.mp he
    have hlinked := hl.drop_segments q
    obtain ⟨t, ht, hid⟩ := hlinked.has_text he
    have hfound : (st.dropSegments q).textAt? e.2.textId = some t := hid ▸ hlinked.text_at ht
    refine ⟨t, ht, ?_, hfound⟩
    rw [← hl.text_of_kept q hmem (by simpa [q] using hgone), hfound]

/-- A tag key of one of the directories on its branch. -/
def KeyOf (branch : Path → String) (dirs : List Path) (key : String) : Prop :=
  ∃ dir ∈ dirs, ∃ k : ArtifactKind, key = ((Scope.mk (branch dir) dir).tagFor k).key

instance (branch : Path → String) (dirs : List Path) : DecidablePred (KeyOf branch dirs) :=
  fun key => decidable_of_iff
    (∃ dir ∈ dirs, ∃ k ∈ ArtifactKind.all, key = ((Scope.mk (branch dir) dir).tagFor k).key)
    (by simp [KeyOf, ArtifactKind.mem_all])

section
variable {s : Settings} {st st' : Store} {branch : Path → String} {dirs : List Path}

/-- A clear is the removal of all keys of the workspace. -/
theorem clear_eq_outside {σ : Type} {h : Host σ} {still : σ → Prop} (hf : st.Filed)
    (hsteady : h.Steady still dirs branch) {w : σ} (hw : still w) :
    ((clearIndexes h st).run w).1 = st.outside fun key => KeyOf branch dirs key := by
  have hmem : ∀ tag, tag ∈ (h.tags.run w).1 ↔
      ∃ k : ArtifactKind, ∃ dir ∈ dirs, tag = (Scope.mk (branch dir) dir).tagFor k := by
    intro tag
    rw [(tags_of_steady hsteady hw).1]
    simp [ArtifactKind.mem_all, eq_comm]
  rw [clear_indexes_run, hf.clear_tags_eq fun tag => of_scope_of_mem_tags]
  congr 1
  funext key
  rw [Bool.eq_iff_iff, List.any_eq_true, decide_eq_true_eq]
  constructor
  · rintro ⟨tag, htag, hkey⟩
    obtain ⟨k, dir, hdir, rfl⟩ := (hmem tag).mp htag
    exact ⟨dir, hdir, k, (of_decide_eq_true hkey).symm⟩
  · rintro ⟨dir, hdir, k, rfl⟩
    exact ⟨_, (hmem _).mpr ⟨k, dir, hdir, rfl⟩, decide_eq_true rfl⟩

/-- What is not stored cannot be found. -/
theorem Store.Forgets.not_holds {gone : String → Prop} (hf : st.Forgets gone st') {key : String}
    (hkey : gone key) (hit : Hit) : ¬ st'.Holds key hit := by
  obtain ⟨-, -, hsegments, -, hembeddings⟩ := hf.lost hkey
  intro hholds
  unfold Store.Holds at hholds
  split at hholds
  · obtain ⟨row, hrow, -⟩ := hholds
    rw [fullTextRows, Table.rows_of_under_nil hsegments] at hrow
    cases hrow
  · obtain ⟨row, hrow, -⟩ := hholds
    rw [Table.rows_of_under_nil hembeddings] at hrow
    cases hrow
  · exact hholds
  · exact hholds

/-- A search under tags of which nothing is stored finds nothing. -/
theorem Store.Forgets.search_nil (hf : st.Forgets (KeyOf branch dirs) st') (hl : st'.Linked)
    {τ : Type} (h : Host τ) (provider : String) {normalize : Ranking.Normalizer}
    (hnormalize : Ranking.Rescores normalize) {z : SearchSizes} (hsizes : z.check = .ok ())
    {q : SearchQuery} (htags : ∀ tag ∈ q.tags, ∃ dir ∈ dirs, tag.scope = ⟨branch dir, dir⟩)
    (w : τ) : ((search h provider normalize z st' q).run w).1 = .ok [] := by
  have hkey : ∀ {kind tag}, tag ∈ q.tagsFor kind → KeyOf branch dirs tag.key := by
    intro kind tag htag
    obtain ⟨asked, hasked, rfl⟩ := Tag.mem_boundTo htag
    obtain ⟨dir, hdir, hscope⟩ := htags asked hasked
    exact ⟨dir, hdir, kind, by rw [hscope]⟩
  have hnone : ∀ {kind} {answer : Except IndexError (List Hit)},
      (∀ hits, answer = .ok hits → ∀ hit ∈ hits, ∃ tag ∈ q.tagsFor kind, st'.Holds tag.key hit) →
      hitsOf answer = [] := by
    intro kind answer hfound
    rw [List.eq_nil_iff_forall_not_mem]
    intro hit hhit
    obtain ⟨hits, hhits, hmem⟩ := mem_hitsOf hhit
    obtain ⟨tag, htag, hholds⟩ := hfound hits hhits hit hmem
    exact hf.not_holds (hkey htag) hit hholds
  have htext : ∀ {limit}, hitsOf (FullText.retrieve st' (q.tagsFor .fullText) q.directory q.text
      limit) = [] :=
    hnone fun hits hhits hit hhit => (FullText.retrieve_found hl hhits hit hhit).2.1
  have hsimilar : ∀ {limit}, hitsOf ((similar h provider st' (q.tagsFor .embeddings) q.directory
      q.text limit).run w).1 = [] :=
    hnone fun hits hhits hit hhit => (similar_found hhits hit hhit).2.1
  have hmerged : Ranking.merge normalize z.final [[], []] = [] := by
    rw [Ranking.merge_nil_left _ hnormalize, Ranking.merge_nil_left _ hnormalize]
    simp [Ranking.merge]
  rw [search, hsizes, run_bind, run_pure, htext, hsimilar, hmerged]

/-- Of a directory of which nothing is recorded, each listed file that can be read is planned as
added, and nothing else is planned. -/
theorem Store.Forgets.plan_added (hf : st.Forgets (KeyOf branch dirs) st') {τ : Type} {h : Host τ}
    {files : Files} (hshows : h.Shows files) (hbranch : ∀ dir ∈ dirs, files.branch dir = branch dir)
    {plan : Plan} {w : τ} (hplan : ((Plan.ofDirs h s st' dirs).run w).1 = .ok plan) (j : Job) :
    j ∈ plan.jobs ↔ ∃ dir ∈ dirs, ∃ listed bytes, files.list dir = .ok listed ∧
      j.path ∈ listed ∧ files.readWithin s.maxFileSize j.path = .ok bytes ∧
      j = ⟨⟨branch dir, dir⟩, j.path, .added, hashBytes bytes⟩ := by
  rw [of_dirs_at_rest hshows] at hplan
  obtain ⟨-, hjobs, -⟩ := plan_dirs_ok hplan
  rw [hjobs]
  apply exists_congr
  intro dir
  apply and_congr_right
  intro hdir
  have hscope : files.scope dir = ⟨branch dir, dir⟩ := by rw [Files.scope, hbranch dir hdir]
  have hone : st'.OneCatalog ⟨branch dir, dir⟩ fun _ => none := by
    intro k p
    obtain ⟨hcatalog, -⟩ := hf.lost ⟨dir, hdir, k, rfl⟩
    exact Table.rows_of_under_nil hcatalog p
  simp only [hscope, Store.mem_jobs, hone.mem_plan]
  obtain ⟨scope, p, change, hash⟩ := j
  constructor
  · rintro ⟨listed, hlist, rfl, hfollows⟩
    cases hfollows with
    | added hlisted hhash =>
      rw [Files.hash?] at hhash
      split at hhash
      · rename_i bytes hread
        cases hhash
        exact ⟨listed, bytes, hlist, hlisted, hread, rfl⟩
      · cases hhash
  · rintro ⟨listed, bytes, hlist, hlisted, hread, hj⟩
    cases hj
    exact ⟨listed, hlist, rfl, .added hlisted (by simp only [Files.hash?, hread])⟩

end

/-- A clear forgets the scopes of its workspace completely, and nothing else. Whatever was indexed
before, and however often it failed: no table keeps a row under a tag key of the workspace, every
row under another key is kept, and of the texts just those that segments still point to. A search
under the cleared tags finds nothing, a second clear changes nothing, and on the same branches all
that is listed and can be read is planned as added. -/
theorem clear_forgets_scopes {σ : Type} {h : Host σ} {still : σ → Prop} {s : Settings}
    {S : Settings → Prop} {R : Rules} {st : Store} {branch : Path → String} {dirs : List Path}
    (hst : Reached S R st)
    (hsteady : h.Steady still dirs branch) {w : σ} (hw : still w) {st' : Store}
    (hclear : ((clearIndexes h st).run w).1 = st') :
    st.Forgets (KeyOf branch dirs) st' ∧
    (∀ {τ : Type} (h' : Host τ) provider normalize z q w', Ranking.Rescores normalize →
      z.check = .ok () → (∀ tag ∈ q.tags, ∃ dir ∈ dirs, tag.scope = ⟨branch dir, dir⟩) →
      ((search h' provider normalize z st' q).run w').1 = .ok []) ∧
    (∀ w', still w' → ((clearIndexes h st').run w').1 = st') ∧
    ∀ {τ : Type} (h' : Host τ) files plan w', h'.Shows files →
      (∀ dir ∈ dirs, files.branch dir = branch dir) →
      ((Plan.ofDirs h' s st' dirs).run w').1 = .ok plan →
      ∀ j, j ∈ plan.jobs ↔ ∃ dir ∈ dirs, ∃ listed bytes, files.list dir = .ok listed ∧
        j.path ∈ listed ∧ files.readWithin s.maxFileSize j.path = .ok bytes ∧
        j = ⟨⟨branch dir, dir⟩, j.path, .added, hashBytes bytes⟩ := by
  obtain ⟨_, -, ht⟩ := hst.tells
  have hf : st.Forgets (KeyOf branch dirs) st' := by
    rw [← hclear, clear_eq_outside hst.filed hsteady hw]
    exact ht.linked.outside_forgets (KeyOf branch dirs)
  have hl : st'.Linked := by
    rw [← hclear, clear_indexes_run]
    exact (Store.clear_tags_view ht.linked fun tag => of_scope_of_mem_tags).1
  have hfiled : st'.Filed := by
    rw [← hclear, clear_eq_outside hst.filed hsteady hw]
    exact hst.filed.outside _
  refine ⟨hf, ?_, ?_, ?_⟩
  · intro τ h' provider normalize z q w' hnormalize hsizes htags
    exact hf.search_nil hl h' provider hnormalize hsizes htags w'
  · intro w' hw'
    rw [clear_eq_outside hfiled hsteady hw', ← hclear, clear_eq_outside hst.filed hsteady hw,
      Store.outside_outside]
    simp only [Bool.or_self]
  · intro τ h' files plan w' hshows hbranch hplan j
    exact hf.plan_added hshows hbranch hplan j

/-- Of two nested directories the outer one is cleared. -/
theorem clear_forgets_scopes_nested : ∃ st st' plan,
    Completes (Files.nested.host (answering fun _ => [.one])) .standard ["/d", "/d/e"] .empty st ∧
    ((clearIndexes (Files.nested.workspace ["/d"] failing) st).run ()).1 = st' ∧
    st'.facts.underTag ((Scope.mk noBranch "/d").tagFor .metadata).key = [] ∧
    st'.facts.underTag ((Scope.mk noBranch "/d/e").tagFor .metadata).key =
      st.facts.underTag ((Scope.mk noBranch "/d/e").tagFor .metadata).key ∧
    st.facts.underTag ((Scope.mk noBranch "/d/e").tagFor .metadata).key ≠ [] ∧
    ((Plan.ofDirs (Files.nested.host failing) .standard st' ["/d"]).run ()).1 = .ok plan ∧
    ⟨⟨noBranch, "/d"⟩, "/d/e/a.md", .added, hashBytes [97]⟩ ∈ plan.jobs := by
  obtain ⟨st, hc, hstored⟩ : ∃ st,
      Completes (Files.nested.host (answering fun _ => [.one])) .standard ["/d", "/d/e"] .empty st ∧
        st.facts.underTag ((Scope.mk noBranch "/d/e").tagFor .metadata).key ≠ [] := by
    exact exists_completes (w := ()) (by decide +kernel)
  have hst : Reached (· = .standard) .refreshing st :=
    hc.reached rfl (Rules.refreshing_allows _) .empty
  have hsteady : (Files.nested.workspace ["/d"] failing).Steady (fun _ => True) ["/d"]
      fun _ => noBranch := ⟨fun _ _ => ⟨rfl, trivial⟩, fun _ _ _ => ⟨rfl, trivial⟩⟩
  obtain ⟨hforgets, -, -, hadded⟩ := clear_forgets_scopes hst hsteady (w := ()) trivial rfl
  obtain ⟨plan, hplan⟩ : ∃ plan, Files.nested.planDirs .standard
      ((clearIndexes (Files.nested.workspace ["/d"] failing) st).run ()).1 ["/d"] = .ok plan :=
    plan_dirs_total fun _ _ => ⟨_, rfl⟩
  rw [← of_dirs_at_rest (Files.host_shows _ failing) ["/d"] ()] at hplan
  have hlost := hforgets.lost ⟨"/d", List.mem_singleton_self _, .metadata, rfl⟩
  have hother : ¬ KeyOf (fun _ => noBranch) ["/d"]
      ((Scope.mk noBranch "/d/e").tagFor .metadata).key := by decide
  have hkept := hforgets.kept hother
  refine ⟨st, _, plan, hc, rfl, hlost.2.1, hkept.2.1, hstored, hplan, ?_⟩
  refine (hadded _ _ _ _ (Files.host_shows _ failing) (fun _ _ => rfl) hplan _).mpr ?_
  exact ⟨"/d", List.mem_singleton_self _, _, [97], rfl, List.mem_singleton_self _, by decide, rfl⟩

end CodeIndex
