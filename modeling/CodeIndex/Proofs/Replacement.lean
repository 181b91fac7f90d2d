import CodeIndex.Proofs.Completeness
import CodeIndex.Proofs.Resumption
import CodeIndex.Proofs.RowKeys

namespace CodeIndex

/-- What is stored of a file after an update: nothing if it is removed, otherwise the rows of its
content, if that can be cut into chunks. -/
inductive FileEntry.Leaves (s : Settings) (e : FileEntry) :
    Change → (List Embedded → ArtifactKind → Rows) → Prop where
  | removed : Leaves s e .removed fun _ => .empty
  | written {change : Change} {content : Text} {cs : List Chunk}
      (hchange : change = .added ∨ change = .updated) (hcontent : e.content = some content)
      (hcs : s.chunks e content = .ok cs) : Leaves s e change (.ofFile s e content cs)

namespace Store

section
variable {s : Settings} {kind : ArtifactKind} {tag : Tag} {e : FileEntry} {change : Change}
  {new : List Embedded → ArtifactKind → Rows} {embedded : List Embedded} {st st' : Store}

theorem update_leaves (hl : st.Linked) (hnew : e.Leaves s change new) (kind : ArtifactKind)
    (tag : Tag) (embedded : List Embedded) :
    ∃ st' out, st.update s kind tag e change embedded = .ok (st', out) ∧
      st.Brings (fun k slot => k = kind ∧ slot = ⟨tag.key, e.path⟩) (new embedded) st' := by
  cases hnew with
  | removed => exact ⟨_, _, rfl, remove_brings hl kind _⟩
  | written hchange hcontent hcs =>
    obtain ⟨st', out, hupdate, -, hbrings⟩ :=
      update_content hl hchange hcontent hcs kind tag embedded
    exact ⟨st', out, hupdate, hbrings⟩

/-- However the database numbers new texts, an update brings what it brings in one numbering. -/
theorem Updates.brings (hl : st.Linked) (hnew : e.Leaves s change new)
    (hu : st.Updates s kind tag e change embedded st') :
    st.Brings (fun k slot => k = kind ∧ slot = ⟨tag.key, e.path⟩) (new embedded) st' := by
  obtain ⟨st'', out, hupdated, hbrings⟩ := update_leaves hl hnew kind tag embedded
  cases hu with
  | windows hkind hchange hwindows hinserts =>
    subst hkind
    cases hnew with
    | removed => simp at hchange
    | @written _ _ cs _ hcontent _ =>
      cases hcontent.symm.trans hwindows
      exact inserts_brings hl rfl hinserts cs embedded
  | other _ hupdate =>
    cases hupdated.symm.trans hupdate
    exact hbrings
  | refused hupdate => cases hupdated.symm.trans hupdate

/-- No row of an update is refused for its key, and nothing else is done than to remove the old rows
and to enter the new ones. -/
theorem Updates.enters (hl : st.Linked) (hnew : e.Leaves s change new)
    (hu : st.Updates s kind tag e change embedded st') :
    ∃ rows, (st.remove kind ⟨tag.key, e.path⟩).enterAll? ⟨tag.key, e.path⟩ rows = some st' := by
  cases hu with
  | windows hkind _ _ hinserts =>
    subst hkind
    apply hinserts.enters
    simp [dropWindows, Table.rows_without, Window.nodup_indexes]
  | other hother hupdate =>
    cases hnew with
    | removed =>
      cases hupdate
      exact ⟨[], rfl⟩
    | written hchange hcontent _ =>
      rw [update_of_content hchange hcontent] at hupdate
      refine write_enters ?_ hupdate
      intro hkind
      obtain ⟨hadded, hupdated⟩ := hother hkind
      exact hchange.elim hadded hupdated
  | refused hupdate =>
    obtain ⟨_, _, hupdated, -⟩ := update_leaves hl hnew kind tag embedded
    cases hupdated.symm.trans hupdate

end
end Store

namespace Table

theorem count_rows [DecidableEq α] (t : Table α) (slot : Slot) (a : α) :
    (t.rows slot).count a = t.count (slot, a) := by
  induction t with
  | nil => rfl
  | cons r t ih =>
    obtain ⟨place, b⟩ := r
    unfold rows at ih ⊢
    by_cases hplace : place = slot
    · simp [hplace, List.count_cons, ih]
    · simp [hplace, ih]

/-- Tables with the same rows in every slot differ in their order only. -/
theorem perm_of_rows [DecidableEq α] {t u : Table α} (h : ∀ slot, t.rows slot = u.rows slot) :
    t.Perm u := by
  apply List.perm_iff_count.mpr
  intro r
  rw [← count_rows t r.1 r.2, ← count_rows u r.1 r.2, h]

end Table

namespace Store

/-- The same rows and records in every place, and the same texts as often. The numbers that join
segments and texts may differ. -/
structure Renumbered (st st' : Store) : Prop extends st.Alike st' where
  texts : (st.texts.map fun t => (t.path, t.content)).Perm
    (st'.texts.map fun t => (t.path, t.content))

/-- The segments of all places with their texts. -/
def shownSegments (st : Store) : Table FullTextRow :=
  st.segments.map fun e => (e.1, st.fullTextRow e.2)

theorem rows_shown_segments (st : Store) (slot : Slot) :
    st.shownSegments.rows slot = st.fullTextRows slot := by
  unfold shownSegments fullTextRows Table.rows
  simp [List.filter_map, Function.comp_def]

theorem Linked.texts_shown {st : Store} (h : st.Linked) :
    st.texts.map (fun t => (t.path, t.content)) =
      st.shownSegments.filterMap fun r => r.2.text := by
  have hshown := congrArg (List.filterMap (Option.map fun t => (t.path, t.content))) h.texts_eq
  rw [List.filterMap_map, List.filterMap_map] at hshown
  rw [shownSegments, List.filterMap_map, ← List.filterMap_eq_map]
  exact hshown

theorem Alike.renumbered {st st' : Store} (h : st.Alike st') (hl : st.Linked)
    (hl' : st'.Linked) : st.Renumbered st' := by
  refine ⟨h, ?_⟩
  rw [hl.texts_shown, hl'.texts_shown]
  apply List.Perm.filterMap
  apply Table.perm_of_rows
  intro slot
  rw [rows_shown_segments, rows_shown_segments]
  exact Rows.fullText.inj (h.rows .fullText slot)

/-- Of two changes to one place, only the second one counts. -/
theorem Brings.overwrite {here : ArtifactKind → Slot → Prop} {old new : ArtifactKind → Rows}
    {st st₁ st₂ st' : Store} (h₁ : st.Brings here old st₁) (h₂ : st₁.Brings here new st₂)
    (h' : st.Brings here new st') : st₂.Renumbered st' := by
  refine Alike.renumbered ⟨?_, ?_⟩ h₂.linked h'.linked
  · intro k slot
    by_cases hplace : here k slot
    · rw [h₂.inside hplace, h'.inside hplace]
    · rw [h₂.outside hplace, h₁.outside hplace, h'.outside hplace]
  · intro slot
    rw [h₂.catalog, h₁.catalog, h'.catalog]

end Store

section
variable {σ : Type} {h : Host σ} {provider : List Text → Except ProviderError (List Embedding)}
  {s : Settings} {e : FileEntry} {change : Change} {new : List Embedded → ArtifactKind → Rows}

/-- A provider that answers by a fixed function makes the same of a file at any time. -/
theorem exists_prepared (hprovider : ∀ batch w, ((h.embed batch).run w).1 = some (provider batch))
    (hnew : e.Leaves s change new) :
    ∃ made, ∀ w, ((prepare h s e change).run w).1 = .ok (some made) := by
  cases hnew with
  | removed => exact ⟨[], fun _ => rfl⟩
  | @written _ content cs hchange hcontent hcs =>
    refine ⟨List.zipWith Embedded.ofChunk cs (entriesOf provider (s.batches e cs)), fun w => ?_⟩
    have hanswers : ∀ batch w, ((h.embed batch).run w).1 ≠ none := by simp [hprovider]
    have hfixed : ∀ batch w, Fixed provider batch ((h.embed batch).run w).1 :=
      fun batch w => Or.inr (hprovider batch w)
    obtain ⟨embedded, hembedded⟩ := embed_chunks_total hanswers s e cs w
    obtain ⟨vectors, rfl, hvectors⟩ := embed_chunks_answers hfixed hembedded
    rw [hvectors.fixed] at hembedded
    rw [prepare_of_cut hchange (cut_of_content hcontent hcs), hembedded]

/-- Only the rows of one artifact have vectors in them. -/
theorem FileEntry.Leaves.unembedded (hnew : e.Leaves s change new) {kind : ArtifactKind}
    (hkind : kind ≠ .embeddings) (made embedded : List Embedded) :
    new made kind = new embedded kind := by
  cases hnew with
  | removed => rfl
  | written _ _ _ => cases kind <;> first | rfl | exact absurd rfl hkind

/-- One artifact of a file is brought up to date, with the vectors that were made for it before, if
its rows have any. -/
def Store.UpdatesUnder (h : Host σ) (s : Settings) (kind : ArtifactKind) (tag : Tag) (e : FileEntry)
    (change : Change) (st st' : Store) : Prop :=
  ∃ embedded, (kind = .embeddings → ∃ w, ((prepare h s e change).run w).1 = .ok (some embedded)) ∧
    st.Updates s kind tag e change embedded st'

/-- What an update leaves in the place of a file depends on the file only. -/
theorem exists_left (hprovider : ∀ batch w, ((h.embed batch).run w).1 = some (provider batch))
    (hnew : e.Leaves s change new) (kind : ArtifactKind) :
    ∃ left : ArtifactKind → Rows, ∀ (tag : Tag) (st st' : Store), st.Linked →
      st.UpdatesUnder h s kind tag e change st' →
        st.Brings (fun k slot => k = kind ∧ slot = ⟨tag.key, e.path⟩) left st' := by
  obtain ⟨made, hmade⟩ := exists_prepared hprovider hnew
  refine ⟨new made, ?_⟩
  rintro tag st st' hl ⟨embedded, hembedded, hupdate⟩
  have hbrings := hupdate.brings hl hnew
  have hsame : new embedded kind = new made kind := by
    by_cases hkind : kind = .embeddings
    · obtain ⟨w, hw⟩ := hembedded hkind
      cases (hmade w).symm.trans hw
      rfl
    · exact hnew.unembedded hkind embedded made
  refine ⟨hbrings.linked, hbrings.catalog, ?_, hbrings.outside⟩
  rintro k slot ⟨rfl, rfl⟩
  rw [hbrings.inside ⟨rfl, rfl⟩, hsame]

end

/-- The old rows in one place are removed and others entered, none of which is refused for its key.
All other rows and the catalog stay. -/
structure Store.Rewrites (kind : ArtifactKind) (slot : Slot) (st st' : Store) : Prop where
  entered : ∃ rows, (st.remove kind slot).enterAll? slot rows = some st'
  catalog : st'.catalog = st.catalog
  elsewhere : ∀ k other, ¬ (k = kind ∧ other = slot) → st'.rowsOf k other = st.rowsOf k other

/-- Two updates of one artifact of a file leave the store that the second one alone would leave, but
for the numbers of its texts, whatever the file was stored as before. An update that can be carried
out does not fail, none of its rows is refused for its key, and it touches no other place. A removal
leaves a place that held nothing as it was before the update. -/
theorem updates_replace {σ : Type} {h : Host σ}
    {provider : List Text → Except ProviderError (List Embedding)}
    (hprovider : ∀ batch w, ((h.embed batch).run w).1 = some (provider batch)) {s : Settings}
    {ops : List Operation} {d : Database} (hruns : Database.Runs ops d) (kind : ArtifactKind)
    (tag : Tag) {e₁ e₂ : FileEntry} {c₁ c₂ : Change}
    {new₁ new₂ : List Embedded → ArtifactKind → Rows} (hpath : e₁.path = e₂.path)
    (h₁ : e₁.Leaves s c₁ new₁) (h₂ : e₂.Leaves s c₂ new₂) :
    (∀ w, ∃ embedded, ((prepare h s e₂ c₂).run w).1 = .ok (some embedded)) ∧
    (∀ st, st = d.current ∨ d.current.UpdatesUnder h s kind tag e₁ c₁ st →
      (∀ embedded, ∃ st' outcome, st.update s kind tag e₂ c₂ embedded = .ok (st', outcome)) ∧
      ∀ st', st.UpdatesUnder h s kind tag e₂ c₂ st' →
        st.Rewrites kind ⟨tag.key, e₂.path⟩ st') ∧
    ∀ st₁ st₂, d.current.UpdatesUnder h s kind tag e₁ c₁ st₁ →
      st₁.UpdatesUnder h s kind tag e₂ c₂ st₂ →
      (∀ st', d.current.UpdatesUnder h s kind tag e₂ c₂ st' → st₂.Renumbered st') ∧
      (c₂ = .removed → d.current.rowsOf kind ⟨tag.key, e₂.path⟩ = .empty kind →
        st₂.Renumbered d.current) := by
  have hl : d.current.Linked := hruns.mirrors.2.linked
  obtain ⟨made, hmade⟩ := exists_prepared hprovider h₂
  obtain ⟨left₁, hleft₁⟩ := exists_left hprovider h₁ kind
  obtain ⟨left₂, hleft₂⟩ := exists_left hprovider h₂ kind
  rw [hpath] at hleft₁
  refine ⟨fun w => ⟨made, hmade w⟩, ?_, ?_⟩
  · intro st hst
    have hlinked : st.Linked := by
      rcases hst with rfl | hu
      · exact hl
      · exact (hleft₁ tag _ st hl hu).linked
    refine ⟨fun embedded => ?_, fun st' hu => ?_⟩
    · obtain ⟨st', outcome, hupdate, -⟩ := Store.update_leaves hlinked h₂ kind tag embedded
      exact ⟨st', outcome, hupdate⟩
    · have hbrings := hleft₂ tag st st' hlinked hu
      obtain ⟨_, -, hupdate⟩ := hu
      exact ⟨hupdate.enters hlinked h₂, hbrings.catalog, fun _ _ hother => hbrings.outside hother⟩
  · intro st₁ st₂ hu₁ hu₂
    have hfirst := hleft₁ tag _ st₁ hl hu₁
    refine ⟨fun st' hu' => ?_, ?_⟩
    · exact hfirst.overwrite (hleft₂ tag st₁ st₂ hfirst.linked hu₂) (hleft₂ tag _ st' hl hu')
    · rintro rfl hnothing
      obtain ⟨_, -, hupdate⟩ := hu₂
      have hremoved := hupdate.brings hfirst.linked .removed
      refine hfirst.overwrite hremoved ⟨hl, rfl, ?_, fun _ => rfl⟩
      rintro k slot ⟨rfl, rfl⟩
      exact hnothing

/-- A file of two windows becomes one of a single window, next to another file whose text has the
number seven. The database may number the new text three or eight. -/
theorem updates_replace_renumbered : ∃ ops d, ∃ st₁ st₂ st' : Store, Database.Runs ops d ∧
    d.current.texts = [⟨7, "/d/b.md", ['a']⟩] ∧
    st₁.segments.map (fun e => e.2.index) = [0, 0, 2] ∧
    st₂.texts = [⟨7, "/d/b.md", ['a']⟩, ⟨8, "/d/a.md", ['a']⟩] ∧
    st'.texts = [⟨7, "/d/b.md", ['a']⟩, ⟨3, "/d/a.md", ['a']⟩] ∧
    st₁.Rewrites .fullText ⟨"/d::main::fts", "/d/a.md"⟩ st₂ ∧ st₂.Renumbered st' := by
  let s := Database.lineByLine
  let tag : Tag := ⟨"main", "/d", "fts"⟩
  let e₁ := Database.spaced
  let e₂ := FileEntry.ofBytes "/d/a.md" [97]
  let st : Store := Store.empty.insertWindow ⟨tag.key, "/d/b.md"⟩ 7 ⟨0, 1, 1, ['a']⟩
  have hruns := Database.Runs.start.next (.update (Database.updates_line tag "/d/b.md" 7
    (by decide)))
  have h₁ : e₁.Leaves s .added _ := .written (Or.inl rfl) rfl rfl
  have h₂ : e₂.Leaves s .updated _ := .written (Or.inr rfl) rfl rfl
  have hwindows : Window.ofContent s.segmentLines (Utf8.decodeLossy [97]) =
      [⟨0, 1, 1, ['a']⟩] := by
    decide +kernel
  let st₁ := st.putWindows ⟨tag.key, e₁.path⟩ (Window.ofContent s.segmentLines (e₁.content.getD []))
  have hfirst : st.Updates s .fullText tag e₁ .added [] st₁ := Store.update_updates rfl
  have hsecond : st₁.Updates s .fullText tag e₂ .updated [] _ := Store.update_updates rfl
  have halone : st.Updates s .fullText tag e₂ .updated [] ((st.dropWindows
      ⟨tag.key, e₂.path⟩).insertWindow ⟨tag.key, e₂.path⟩ 3 ⟨0, 1, 1, ['a']⟩) := by
    refine .windows rfl (Or.inr rfl) rfl ?_
    rw [hwindows]
    exact .window 3 (by decide) (.nothing _)
  let h := Files.single.host (answering fun _ => [.one])
  have hunder : ∀ {e : FileEntry} {c : Change} {st st' : Store},
      st.Updates s .fullText tag e c [] st' → st.UpdatesUnder h s .fullText tag e c st' :=
    fun hu => ⟨[], fun hkind => absurd hkind (by decide), hu⟩
  obtain ⟨-, hevery, hpair⟩ := updates_replace (h := h) (fun _ _ => rfl) hruns .fullText tag
    (by rfl) h₁ h₂
  have hrewrites := (hevery _ (Or.inr (hunder hfirst))).2 _ (hunder hsecond)
  have hrenumbered := (hpair _ _ (hunder hfirst) (hunder hsecond)).1 _ (hunder halone)
  refine ⟨_, _, st₁, _, _, hruns, ?_, ?_, ?_, ?_, hrewrites, hrenumbered⟩
  all_goals decide +kernel

end CodeIndex
