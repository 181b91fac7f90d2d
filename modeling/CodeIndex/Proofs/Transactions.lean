import CodeIndex.Proofs.Files

namespace CodeIndex

/-- What is asked of the database: to bring one artifact of a file up to date or to clear it under a
tag, to enter a file into the catalog or to forget a tag there, and to end a transaction. -/
inductive Operation where
  | update (s : Settings) (kind : ArtifactKind) (tag : Tag) (e : FileEntry) (change : Change)
      (embedded : List Embedded)
  | clear (kind : ArtifactKind) (tag : Tag)
  | commit (scope : Scope) (e : FileEntry) (change : Change)
  | forget (tag : Tag)
  | save
  | rollback

namespace Store

/-- What an update of an artifact may make of a store, when new texts are numbered by the database.
An update that is refused changes nothing. -/
inductive Updates (s : Settings) (kind : ArtifactKind) (tag : Tag) (e : FileEntry)
    (change : Change) (embedded : List Embedded) (st : Store) : Store → Prop where
  | windows {content : Text} {st' : Store} (hkind : kind = .fullText)
      (hchange : change = .added ∨ change = .updated) (hcontent : e.content = some content)
      (hinserts : Inserts ⟨tag.key, e.path⟩ (st.dropWindows ⟨tag.key, e.path⟩)
        (Window.ofContent s.segmentLines content) st') :
      Updates s kind tag e change embedded st st'
  | other {st' : Store} {outcome : Outcome}
      (hother : kind = .fullText → change ≠ .added ∧ change ≠ .updated)
      (hupdate : st.update s kind tag e change embedded = .ok (st', outcome)) :
      Updates s kind tag e change embedded st st'
  | refused {err : IndexError}
      (hupdate : st.update s kind tag e change embedded = .error err) :
      Updates s kind tag e change embedded st st

section
variable {s : Settings} {kind : ArtifactKind} {tag : Tag} {e : FileEntry} {change : Change}
  {embedded : List Embedded} {st st' : Store}

/-- To number new texts in ascending order is one way to number them. -/
theorem update_updates {outcome : Outcome}
    (h : st.update s kind tag e change embedded = .ok (st', outcome)) :
    st.Updates s kind tag e change embedded st' := by
  by_cases hwrites : kind = .fullText ∧ (change = .added ∨ change = .updated)
  · obtain ⟨rfl, hchange⟩ := hwrites
    cases hcontent : e.content with
    | none =>
      rcases hchange with rfl | rfl
      all_goals
        simp only [update, FileEntry.require, hcontent] at h
        cases h
    | some content =>
      refine .windows rfl hchange hcontent ?_
      rcases hchange with rfl | rfl
      all_goals
        simp only [update, FileEntry.require, hcontent, write] at h
        cases h
        exact inserts_add_windows _ _ _
  · refine .other (fun hkind => ?_) h
    exact ⟨fun hc => hwrites ⟨hkind, Or.inl hc⟩, fun hc => hwrites ⟨hkind, Or.inr hc⟩⟩

/-- The other artifacts have tables of their own. -/
theorem write_elsewhere {slot : Slot} {content : Text} {outcome : Outcome}
    (hkind : kind ≠ .fullText)
    (h : st.write s kind slot e content embedded = .ok (st', outcome)) :
    st'.texts = st.texts ∧ st'.segments = st.segments := by
  cases kind with
  | fullText => exact absurd rfl hkind
  | metadata | embeddings =>
    cases h
    exact ⟨rfl, rfl⟩
  | chunk =>
    simp only [write] at h
    split at h
    · cases h
    · cases h
      exact ⟨rfl, rfl⟩

theorem update_elsewhere {outcome : Outcome} (hkind : kind ≠ .fullText)
    (h : st.update s kind tag e change embedded = .ok (st', outcome)) :
    st'.texts = st.texts ∧ st'.segments = st.segments := by
  cases change with
  | unchanged =>
    cases h
    exact ⟨rfl, rfl⟩
  | removed =>
    cases h
    cases kind <;> first | exact absurd rfl hkind | exact ⟨rfl, rfl⟩
  | added | updated =>
    simp only [update] at h
    split at h
    · cases h
    · exact write_elsewhere hkind h

end

end Store

/-- A store as it was last saved, and as the transaction that is under way sees it. -/
structure Database where
  saved : Store
  current : Store

namespace Database

inductive Step (d : Database) : Operation → Database → Prop where
  | update {s : Settings} {kind : ArtifactKind} {tag : Tag} {e : FileEntry} {change : Change}
      {embedded : List Embedded} {st : Store}
      (hupdate : d.current.Updates s kind tag e change embedded st) :
      Step d (.update s kind tag e change embedded) { d with current := st }
  | clear (kind : ArtifactKind) (tag : Tag) :
      Step d (.clear kind tag) { d with current := d.current.clear kind tag.key }
  | commit (scope : Scope) (e : FileEntry) (change : Change) :
      Step d (.commit scope e change) { d with current := d.current.commit scope e change }
  | forget (tag : Tag) : Step d (.forget tag) { d with current := d.current.forgetTag tag.key }
  | save : Step d .save { d with saved := d.current }
  | rollback : Step d .rollback { d with current := d.saved }

/-- What a database may be after some operations. -/
inductive Runs : List Operation → Database → Prop where
  | start : Runs [] ⟨.empty, .empty⟩
  | next {ops : List Operation} {d d' : Database} {op : Operation} (hruns : Runs ops d)
      (hstep : d.Step op d') : Runs (ops ++ [op]) d'

end Database

namespace Database.Runs

variable {ops : List Operation} {saved st st' : Store}

theorem update_all {s : Settings} {scope : Scope} {e : FileEntry} {change : Change}
    {embedded : List Embedded} {kinds : List ArtifactKind} {n lost : Nat}
    (h : Runs ops ⟨saved, st⟩)
    (hall : st.updateAll s scope e change embedded kinds n = .ok (st', lost)) :
    ∃ ops', Runs ops' ⟨saved, st'⟩ := by
  induction kinds generalizing ops n st with
  | nil =>
    cases hall
    exact ⟨ops, h⟩
  | cons kind kinds ih =>
    rw [Store.updateAll] at hall
    split at hall
    · cases hall
    · rename_i hupdate
      exact ih (h.next (.update (Store.update_updates hupdate))) hall

/-- A file that is brought up to date is one transaction. -/
theorem update_file {s : Settings} {scope : Scope} {e : FileEntry} {change : Change}
    {embedded : List Embedded} {lost : Nat} (h : Runs ops ⟨saved, st⟩)
    (hupdate : st.updateFile s scope e change embedded = .ok (st', lost)) :
    ∃ ops', Runs ops' ⟨st', st'⟩ := by
  rw [Store.updateFile] at hupdate
  split at hupdate
  · cases hupdate
  · rename_i hall
    obtain ⟨ops₁, h₁⟩ := h.update_all hall
    cases hupdate
    split
    · exact ⟨_, (h₁.next (.commit scope e change)).next .save⟩
    · exact ⟨_, h₁.next .save⟩

theorem clear_tags (tags : List Tag) (h : Runs ops ⟨saved, st⟩) :
    ∃ ops', Runs ops' ⟨saved, tags.foldl Store.clearTag st⟩ := by
  induction tags generalizing ops st with
  | nil => exact ⟨ops, h⟩
  | cons tag tags ih =>
    rw [List.foldl_cons, Store.clearTag]
    split
    · rename_i kind _
      exact ih ((h.next (.clear kind tag)).next (.forget tag))
    · exact ih (h.next (.forget tag))

end Database.Runs

/-- Every store that refreshes and clears reach is one that such a sequence saves. -/
theorem Reached.runs {S : Settings → Prop} {R : Rules} {st : Store} (h : Reached S R st) :
    ∃ ops, Database.Runs ops ⟨st, st⟩ := by
  induction h with
  | empty => exact ⟨[], .start⟩
  | @turn s σ h r st w _ _ _ _ ih =>
    obtain ⟨ops, hruns⟩ := ih
    have hleads : r.Leads h s st ((r.next h s st).run w).1 := Run.next_leads w
    generalize ((r.next h s st).run w).1 = turn at hleads
    cases hleads with
    | index _ _ _ _ hindex =>
      obtain ⟨_, _, _, -, -, hupdate⟩ := index_ok hindex
      exact hruns.update_file hupdate
    | _ => exact ⟨ops, hruns⟩
  | clear w _ _ ih =>
    obtain ⟨ops, hruns⟩ := ih
    rw [clear_indexes_run]
    obtain ⟨ops₁, h₁⟩ := hruns.clear_tags _
    exact ⟨_, h₁.next .save⟩

/-- The content that a file was last indexed with, and how many lines each window has. -/
structure Indexed where
  lines : Nat
  content : Text
deriving DecidableEq

def Indexed.windows (x : Indexed) : List Window := Window.ofContent x.lines x.content

/-- What the full-text artifact is to hold in each place. -/
abbrev Shelf := Slot → Option Indexed

namespace Shelf

/-- The windows in a place, as they are found. -/
def rows (shelf : Shelf) (slot : Slot) : List FullTextRow :=
  ((shelf slot).elim [] Indexed.windows).map (.ofWindow slot.path)

def set (shelf : Shelf) (slot : Slot) (x : Option Indexed) : Shelf := fun other =>
  if other = slot then x else shelf other

/-- An update of the full-text artifact. Without content there is nothing to index. -/
def update (shelf : Shelf) (s : Settings) (slot : Slot) (e : FileEntry) (change : Change) : Shelf :=
  match change, e.content with
  | .removed, _ => shelf.set slot none
  | .added, some content | .updated, some content => shelf.set slot (some ⟨s.segmentLines, content⟩)
  | _, _ => shelf

def clear (shelf : Shelf) (key : String) : Shelf := fun slot =>
  if slot.tag = key then none else shelf slot

theorem rows_set (shelf : Shelf) (slot s : Slot) (x : Option Indexed) :
    (shelf.set slot x).rows s =
      if s = slot then (x.elim [] Indexed.windows).map (.ofWindow slot.path) else shelf.rows s := by
  unfold rows set
  split
  · rename_i hs
    rw [hs]
  · rfl

theorem rows_clear (shelf : Shelf) (key : String) (s : Slot) :
    (shelf.clear key).rows s = if s.tag = key then [] else shelf.rows s := by
  unfold rows clear
  split <;> rfl

end Shelf

/-- What is saved, and what the transaction under way sees. -/
structure Shelves where
  saved : Shelf
  current : Shelf

def Shelves.after (x : Shelves) : Operation → Shelves
  | .update s .fullText tag e change _ =>
    { x with current := x.current.update s ⟨tag.key, e.path⟩ e change }
  | .clear .fullText tag => { x with current := x.current.clear tag.key }
  | .update .. | .clear .. | .commit .. | .forget .. => x
  | .save => { x with saved := x.current }
  | .rollback => { x with current := x.saved }

def shelves (ops : List Operation) : Shelves :=
  ops.foldl Shelves.after ⟨fun _ => none, fun _ => none⟩

/-- Segments and texts are in bijection, each text has the path of its segment, and the segments in
each place lead to the windows that are to be there. -/
structure Store.Keeps (st : Store) (shelf : Shelf) : Prop where
  segments : st.segments.Nodup
  texts : st.texts.Nodup
  text : ∀ e ∈ st.segments, ∃! t, t ∈ st.texts ∧ t.id = e.2.textId
  segment : ∀ t ∈ st.texts, ∃! e, e ∈ st.segments ∧ e.2.textId = t.id
  path : ∀ t ∈ st.texts, ∀ e ∈ st.segments, e.2.textId = t.id → t.path = e.1.path
  rows : ∀ slot, st.fullTextRows slot = shelf.rows slot

/-- The form of the same that an operation is seen to keep. -/
structure Store.Mirrors (st : Store) (shelf : Shelf) : Prop where
  linked : st.Linked
  rows : ∀ slot, st.fullTextRows slot = shelf.rows slot

namespace Store

variable {st st' : Store} {shelf : Shelf}

theorem Mirrors.keeps (h : st.Mirrors shelf) : st.Keeps shelf := by
  have hnodup : (st.segments.map fun e => e.2.textId).Nodup := h.linked.ids ▸ h.linked.distinct
  refine ⟨hnodup.of_map, h.linked.distinct.of_map, ?_, ?_, ?_, h.rows⟩
  · intro e he
    obtain ⟨t, ht, hid⟩ := h.linked.has_text he
    refine ⟨t, ⟨ht, hid⟩, ?_⟩
    intro u hu
    exact List.inj_on_of_nodup_map h.linked.distinct hu.1 ht (hu.2.trans hid.symm)
  · intro t ht
    obtain ⟨e, he, hid⟩ := h.linked.has_segment ht
    refine ⟨e, ⟨he, hid⟩, ?_⟩
    intro f hf
    exact h.linked.same_slot hf.1 he (hf.2.trans hid.symm)
  · intro t ht e he hid
    exact h.linked.same_path ht he hid

theorem mirrors_empty : Store.empty.Mirrors fun _ => none := ⟨linked_empty, fun _ => rfl⟩

/-- The full-text artifact is read off its two tables alone. -/
theorem Mirrors.congr (h : st.Mirrors shelf) (htexts : st'.texts = st.texts)
    (hsegments : st'.segments = st.segments) : st'.Mirrors shelf := by
  refine ⟨⟨?_, ?_⟩, ?_⟩
  · rw [htexts, hsegments]
    exact h.linked.paired
  · rw [htexts]
    exact h.linked.distinct
  · intro slot
    rw [← h.rows slot]
    unfold fullTextRows fullTextRow textAt?
    rw [htexts, hsegments]

theorem Mirrors.inserts (h : st.Mirrors shelf) {slot : Slot} {x : Indexed}
    (hinserts : Inserts slot (st.dropWindows slot) x.windows st') :
    st'.Mirrors (shelf.set slot (some x)) := by
  obtain ⟨hl, hrows⟩ := h.linked.replaces hinserts
  refine ⟨hl, ?_⟩
  intro s
  rw [hrows, h.rows, Shelf.rows_set]
  rfl

theorem Mirrors.drop_windows (h : st.Mirrors shelf) (slot : Slot) :
    (st.dropWindows slot).Mirrors (shelf.set slot none) := by
  rw [drop_windows_eq]
  refine ⟨h.linked.drop_segments _, ?_⟩
  intro s
  rw [h.linked.full_text_rows_drop, h.rows, Shelf.rows_set]
  simp

theorem Mirrors.clear_windows (h : st.Mirrors shelf) (key : String) :
    (st.clearWindows key).Mirrors (shelf.clear key) := by
  rw [clear_windows_eq]
  refine ⟨h.linked.drop_segments _, ?_⟩
  intro s
  rw [h.linked.full_text_rows_drop, h.rows, Shelf.rows_clear]
  simp

theorem Mirrors.updates (h : st.Mirrors shelf) {s : Settings} {tag : Tag} {e : FileEntry}
    {change : Change} {embedded : List Embedded}
    (hu : st.Updates s .fullText tag e change embedded st') :
    st'.Mirrors (shelf.update s ⟨tag.key, e.path⟩ e change) := by
  cases hu with
  | windows _ hchange hcontent hinserts =>
    rcases hchange with rfl | rfl
    all_goals
      simp only [Shelf.update, hcontent]
      exact h.inserts hinserts
  | other hother hupdate =>
    obtain ⟨hadded, hupdated⟩ := hother rfl
    cases change with
    | added => exact absurd rfl hadded
    | updated => exact absurd rfl hupdated
    | removed =>
      cases hupdate
      exact h.drop_windows _
    | unchanged =>
      cases hupdate
      exact h
  | refused hupdate =>
    -- Only content can be missing, and then there is nothing to index either.
    cases change with
    | removed | unchanged => cases hupdate
    | added | updated =>
      cases hcontent : e.content with
      | some content =>
        simp only [update, FileEntry.require, hcontent, write] at hupdate
        cases hupdate
      | none =>
        simp only [Shelf.update, hcontent]
        exact h

theorem Mirrors.updates_elsewhere (h : st.Mirrors shelf) {s : Settings} {kind : ArtifactKind}
    {tag : Tag} {e : FileEntry} {change : Change} {embedded : List Embedded}
    (hkind : kind ≠ .fullText) (hu : st.Updates s kind tag e change embedded st') :
    st'.Mirrors shelf := by
  cases hu with
  | windows hfull => exact absurd hfull hkind
  | other _ hupdate =>
    obtain ⟨htexts, hsegments⟩ := update_elsewhere hkind hupdate
    exact h.congr htexts hsegments
  | refused => exact h

end Store

namespace Database

variable {d d' : Database} {x : Shelves} {op : Operation}

theorem Step.mirrors (hstep : d.Step op d') (hsaved : d.saved.Mirrors x.saved)
    (hcurrent : d.current.Mirrors x.current) :
    d'.saved.Mirrors (x.after op).saved ∧ d'.current.Mirrors (x.after op).current := by
  cases hstep with
  | @update s kind tag e change embedded st hupdate =>
    by_cases hkind : kind = .fullText
    · subst hkind
      exact ⟨hsaved, hcurrent.updates hupdate⟩
    · have hafter : x.after (.update s kind tag e change embedded) = x := by
        cases kind <;> first | exact absurd rfl hkind | rfl
      rw [hafter]
      exact ⟨hsaved, hcurrent.updates_elsewhere hkind hupdate⟩
  | clear kind tag =>
    cases kind with
    | fullText => exact ⟨hsaved, hcurrent.clear_windows tag.key⟩
    | metadata | chunk | embeddings => exact ⟨hsaved, hcurrent.congr rfl rfl⟩
  | commit scope e change =>
    rw [Store.commit_eq]
    exact ⟨hsaved, hcurrent.congr rfl rfl⟩
  | forget => exact ⟨hsaved, hcurrent.congr rfl rfl⟩
  | save => exact ⟨hcurrent, hcurrent⟩
  | rollback => exact ⟨hsaved, hsaved⟩

theorem Runs.mirrors {ops : List Operation} (h : Runs ops d) :
    d.saved.Mirrors (shelves ops).saved ∧ d.current.Mirrors (shelves ops).current := by
  induction h with
  | start => exact ⟨Store.mirrors_empty, Store.mirrors_empty⟩
  | next _ hstep ih =>
    rw [shelves, List.foldl_append]
    exact hstep.mirrors ih.1 ih.2

/-- After any updates, removals and clears under any tags, saved or rolled back, and however the
database numbers its texts, the two full-text tables are in bijection, and the segments of a file
lead to what it was last indexed with. No text is left over, and no number that comes back is
reached through another file. -/
theorem full_text_tables_agree {ops : List Operation} (h : Runs ops d) :
    d.saved.Keeps (shelves ops).saved ∧ d.current.Keeps (shelves ops).current :=
  ⟨h.mirrors.1.keeps, h.mirrors.2.keeps⟩

/-- A text of one line that is filed under any number. -/
theorem updates_line (tag : Tag) (p : Path) (id : Nat) {st : Store}
    (hfresh : id ∉ (st.dropWindows ⟨tag.key, p⟩).texts.map StoredText.id) :
    st.Updates .standard .fullText tag (.ofBytes p [97]) .added []
      ((st.dropWindows ⟨tag.key, p⟩).insertWindow ⟨tag.key, p⟩ id ⟨0, 1, 1, ['a']⟩) := by
  have htext : Utf8.decodeLossy [97] = ['a'] := by decide +kernel
  have hcontent : (FileEntry.ofBytes p [97]).content = some ['a'] := congrArg some htext
  have hwindows : Window.ofContent Settings.standard.segmentLines ['a'] = [⟨0, 1, 1, ['a']⟩] := by
    decide +kernel
  refine .windows rfl (Or.inl rfl) hcontent ?_
  rw [hwindows]
  exact .window id hfresh (.nothing _)

theorem removes_file (tag : Tag) (p : Path) {st : Store} :
    st.Updates .standard .fullText tag (.gone p "") .removed [] (st.dropWindows ⟨tag.key, p⟩) :=
  Store.update_updates rfl

/-- A file is indexed under number seven and removed; then the number comes back for another file on
another branch. To clear that branch is rolled back. -/
def renumbering : List Operation :=
  [.update .standard .fullText ⟨"main", "/d", "fts"⟩ (.ofBytes "/d/a.md" [97]) .added [],
   .save,
   .update .standard .fullText ⟨"main", "/d", "fts"⟩ (.gone "/d/a.md" "") .removed [],
   .update .standard .fullText ⟨"dev", "/d", "fts"⟩ (.ofBytes "/d/b.md" [97]) .added [],
   .save,
   .clear .fullText ⟨"dev", "/d", "fts"⟩,
   .rollback]

theorem full_text_tables_agree_renumbered : ∃ d, Runs renumbering d ∧
    d.current.texts = [⟨7, "/d/b.md", ['a']⟩] ∧
    d.saved.Keeps (shelves renumbering).saved ∧ d.current.Keeps (shelves renumbering).current := by
  have hfirst := Runs.start.next (.update (updates_line ⟨"main", "/d", "fts"⟩ "/d/a.md" 7
    (by decide)))
  have hremoved := (hfirst.next .save).next (.update (removes_file ⟨"main", "/d", "fts"⟩ "/d/a.md"))
  have hreused := hremoved.next (.update (updates_line ⟨"dev", "/d", "fts"⟩ "/d/b.md" 7
    (by decide +kernel)))
  have hruns := ((hreused.next .save).next (.clear .fullText ⟨"dev", "/d", "fts"⟩)).next .rollback
  exact ⟨_, hruns, by decide +kernel, full_text_tables_agree hruns⟩

end Database
end CodeIndex
