import CodeIndex.Proofs.Protocol

namespace CodeIndex

/-- Nothing changes but the rows and records of one file, the records only if nothing is lost. -/
structure Store.ChangesOnly (st : Store) (scope : Scope) (p : Path) (lost : Nat) (st' : Store) :
    Prop where
  linked : st'.Linked
  rows : ∀ k slot, slot ≠ scope.slot k p → st'.rowsOf k slot = st.rowsOf k slot
  records : ∀ slot, slot ∉ scope.slots p → st'.catalog.rows slot = st.catalog.rows slot
  catalog : lost ≠ 0 → st'.catalog = st.catalog

/-- The file of a job is brought up to date as a whole, with so many of its chunks left without a
vector. All four artifacts get the rows of the bytes that were read, or lose theirs. -/
structure Job.Updates (h : Host σ) (s : Settings) (j : Job) (st : Store) (lost : Nat)
    (st' : Store) : Prop extends st.ChangesOnly j.scope j.path lost st' where
  applied : ∃ bytes embedded w w₁, ((j.bytes h s).run w).1 = .ok bytes ∧
    ((prepare h s (j.entry bytes) j.change).run w₁).1 = .ok (some embedded) ∧
    st.updateFile s j.scope (j.entry bytes) j.change embedded = .ok (st', lost)
  unchanged : j.change = .unchanged → lost = 0 ∧ ∀ k slot, st'.rowsOf k slot = st.rowsOf k slot
  removed : j.change = .removed → lost = 0 ∧ ∀ k,
    st'.rowsOf k (j.scope.slot k j.path) = .empty k ∧
      st'.catalog.rows (j.scope.slot k j.path) = []
  written : j.change = .added ∨ j.change = .updated → ∃ bytes vectors w,
    ((h.readWithin s.maxFileSize j.path).run w).1 = .ok bytes ∧
      lost = (st'.embeddings.rows (j.scope.slot .embeddings j.path)).countP EmbeddingRow.failed ∧
      ∀ k, st'.rowsOf k (j.scope.slot k j.path) = .ofBytes s j.path bytes vectors k ∧
        (lost = 0 → st'.catalog.rows (j.scope.slot k j.path) = [hashBytes bytes])

namespace Store

section
variable {s : Settings} {scope : Scope} {e : FileEntry} {change : Change}
  {embedded : List Embedded} {here : ArtifactKind → Slot → Prop} {new : ArtifactKind → Rows}
  {lost : Nat} {st st₁ st' : Store}

theorem update_file_changes
    (hall : st.updateAll s scope e change embedded ArtifactKind.all 0 = .ok (st₁, lost))
    (hb : st.Brings here new st₁) (hhere : ∀ k slot, here k slot → slot = scope.slot k e.path) :
    ∃ st', st.updateFile s scope e change embedded = .ok (st', lost) ∧
      st.ChangesOnly scope e.path lost st' ∧
      (∀ k slot, st'.rowsOf k slot = st₁.rowsOf k slot) ∧
      ∀ k, lost = 0 → st'.catalog.rows (scope.slot k e.path) = recordOf e change := by
  obtain ⟨st', hu, hlinked, hrows, hrecords, hcatalog⟩ := update_file_view hall hb
  refine ⟨st', hu, ⟨hlinked, ?_, ?_, hcatalog⟩, hrows, ?_⟩
  · intro k slot hslot
    rw [hrows]
    exact hb.outside fun hin => hslot (hhere k slot hin)
  · intro slot hslot
    rw [hrecords, if_neg fun hin => hslot hin.2]
  · intro k hlost
    rw [hrecords, if_pos ⟨hlost, Scope.mem_slots.mpr ⟨k, rfl⟩⟩]

theorem update_all_unchanged (s : Settings) (scope : Scope) (e : FileEntry)
    (embedded : List Embedded) (kinds : List ArtifactKind) (n : Nat) (st : Store) :
    st.updateAll s scope e .unchanged embedded kinds n = .ok (st, n) := by
  induction kinds generalizing n with
  | nil => rfl
  | cons kind kinds ih => exact ih n

/-- A file that is brought up to date in all artifacts, with the new rows of each. -/
theorem Writes.changes {lost : ArtifactKind → Nat}
    (h : Writes s scope e change embedded new lost) (hl : st.Linked) : ∃ st',
      st.updateFile s scope e change embedded = .ok (st', lostBy lost ArtifactKind.all) ∧
        st.ChangesOnly scope e.path (lostBy lost ArtifactKind.all) st' ∧
        (∀ k, st'.rowsOf k (scope.slot k e.path) = new k) ∧
        ∀ k, lostBy lost ArtifactKind.all = 0 →
          st'.catalog.rows (scope.slot k e.path) = recordOf e change := by
  obtain ⟨st₁, hall, hb⟩ := h.update_all ArtifactKind.all 0 hl
  rw [Nat.zero_add] at hall
  obtain ⟨st', hu, hchanges, hrows, hrecords⟩ :=
    update_file_changes hall hb fun k slot hin => hin.2
  refine ⟨st', hu, hchanges, ?_, hrecords⟩
  intro k
  rw [hrows]
  exact hb.inside ⟨ArtifactKind.mem_all k, rfl⟩

end
end Store

namespace Act

/-- How many of the chunks that are written have no vector. -/
def missing : Act → Nat
  | .write _ _ _ _ vectors => vectors.countP Option.isNone
  | .remove _ _ | .clear _ => 0

theorem missing_eq_zero_iff (a : Act) : a.missing = 0 ↔ a.complete := by
  cases a with
  | write => exact Store.countP_isNone_eq_zero_iff
  | remove | clear => exact ⟨fun _ => rfl, fun _ => rfl⟩

/-- The rows of an artifact in the place of the file. -/
def newRows (k : ArtifactKind) : Act → Rows
  | .write s _ p bytes vectors => .ofBytes s p bytes vectors k
  | .remove _ _ | .clear _ => .empty k

/-- The record of the file, unless something is missing. -/
def newRecords : Act → List String
  | .write _ _ _ bytes _ => [hashBytes bytes]
  | .remove _ _ | .clear _ => []

end Act

section
variable {σ : Type} {h : Host σ} {s : Settings} {j : Job} {st st' : Store} {lost : Nat}

theorem Job.path_entry (j : Job) (bytes : Bytes) : (j.entry bytes).path = j.path := by
  rw [entry]
  split <;> rfl

/-- Indexing that comes to its end does its act as a whole and nothing else. -/
theorem index_changes {w : σ} (hl : st.Linked) (hj : j.change ≠ .unchanged)
    (hi : ((j.index h s st).run w).1 = .ok (st', lost)) : ∃ a,
      j.Acts h s a ∧ lost = a.missing ∧ st.ChangesOnly j.scope j.path lost st' ∧
        ∀ k, st'.rowsOf k (j.scope.slot k j.path) = a.newRows k ∧
          (lost = 0 → st'.catalog.rows (j.scope.slot k j.path) = a.newRecords) := by
  obtain ⟨bytes, embedded, w₁, hread, hmade, hu⟩ := index_ok hi
  have hpath := j.path_entry bytes
  by_cases hremoved : j.change = .removed
  · rw [hremoved] at hu
    have hwrites : Store.Writes s j.scope (j.entry bytes) .removed embedded .empty fun _ => 0 :=
      Store.writes_removed
    obtain ⟨st₁, hu₁, hchanges, hrows, hrecords⟩ := hwrites.changes hl
    rw [hu] at hu₁
    cases hu₁
    rw [hpath] at hchanges hrows hrecords
    exact ⟨_, .remove hremoved, rfl, hchanges, fun k => ⟨hrows k, fun _ => hrecords k rfl⟩⟩
  · have hchange : j.change = .added ∨ j.change = .updated := by
      cases hc : j.change <;> simp_all
    rw [Job.bytes, if_neg hremoved] at hread
    rw [Job.entry, if_neg hremoved, PathForm.text_path] at hmade hu
    obtain ⟨content, cs, vectors, hcontent, hchunks, hanswers, hembedded⟩ :=
      prepare_some hchange hmade
    cases hcontent
    have hwrites : Store.Writes s j.scope (.ofBytes j.path bytes) j.change embedded
        (.ofFile s (.ofBytes j.path bytes) (Utf8.decodeLossy bytes) cs embedded)
        (Store.lost embedded) := Store.writes_content hchange rfl hchunks
    obtain ⟨st₁, hu₁, hchanges, hrows, hrecords⟩ := hwrites.changes hl
    rw [hu] at hu₁
    cases hu₁
    subst hembedded
    refine ⟨_, .write w hremoved hread hchunks hanswers,
      Store.lost_eq_missing (length_of_answers hanswers), hchanges, fun k => ⟨?_, fun hlost => ?_⟩⟩
    · exact (hrows k).trans (Rows.of_bytes_ok hchunks vectors k).symm
    · have hrecord := hrecords k hlost
      rw [Store.recordOf, if_neg hremoved] at hrecord
      exact hrecord

theorem Job.Settles.linked {fate : Job.Fate} (hs : j.Settles h s st fate st')
    (hj : j.change ≠ .unchanged) (hl : st.Linked) : st'.Linked := by
  cases hs with
  | written w hindex =>
    obtain ⟨a, -, -, hchanges, -⟩ := index_changes hl hj hindex
    exact hchanges.linked
  | failed => exact hl

/-- Indexing that comes to its end without an error updates the file as a whole. -/
theorem Job.Settles.updates (hl : st.Linked) (hs : j.Settles h s st (.written lost) st') :
    j.Updates h s st lost st' := by
  obtain ⟨w, hindex⟩ : ∃ w, ((j.index h s st).run w).1 = .ok (st', lost) := by
    cases hs with
    | written w hindex => exact ⟨w, hindex⟩
  obtain ⟨bytes, embedded, w₁, hread, hmade, hu⟩ := index_ok hindex
  have happlied : ∃ bytes embedded w w₁, ((j.bytes h s).run w).1 = .ok bytes ∧
      ((prepare h s (j.entry bytes) j.change).run w₁).1 = .ok (some embedded) ∧
      st.updateFile s j.scope (j.entry bytes) j.change embedded = .ok (st', lost) :=
    ⟨bytes, embedded, w, w₁, hread, hmade, hu⟩
  by_cases hunchanged : j.change = .unchanged
  · rw [hunchanged] at hu
    obtain ⟨st₁, hu₁, hchanges, hrows, -⟩ := Store.update_file_changes
      (Store.update_all_unchanged s j.scope (j.entry bytes) embedded _ 0 st)
      (Store.Brings.refl hl .empty) fun _ _ hin => hin.elim
    rw [hu] at hu₁
    cases hu₁
    rw [j.path_entry bytes] at hchanges
    exact ⟨hchanges, happlied, fun _ => ⟨rfl, hrows⟩, by simp [hunchanged], by simp [hunchanged]⟩
  obtain ⟨a, hacts, hlost, hchanges, hnew⟩ := index_changes hl hunchanged hindex
  cases hacts with
  | remove hremoved =>
    subst hlost
    exact ⟨hchanges, happlied, fun hc => absurd hc hunchanged,
      fun _ => ⟨rfl, fun k => ⟨(hnew k).1, (hnew k).2 rfl⟩⟩, by simp [hremoved]⟩
  | @write bytes cs vectors w hremoved hread hchunks hanswers =>
    refine ⟨hchanges, happlied, fun hc => absurd hc hunchanged, fun hc => absurd hc hremoved, ?_⟩
    intro _
    refine ⟨bytes, vectors, w, hread, ?_, hnew⟩
    have hembeddings := (hnew .embeddings).1.trans (Rows.of_bytes_ok hchunks vectors .embeddings)
    rw [Rows.embeddings.inj hembeddings, Store.countP_failed (length_of_answers hanswers)]
    exact hlost

end

/-- The item reports what became of the file of a job. -/
def Progress.isVerdict (p : Progress) : Bool := p.change.isSome

/-- The items that report what became of the files of some jobs. -/
def Plan.verdicts (p : Plan) (told : List Told) : List Progress :=
  (told.zipIdx p.rejected.length).map fun (x, n) =>
    x.fate.item (Progress.share (n + 1) p.total) x.job

/-- The store after the files of some jobs: each one that was written is updated as a whole, and
nothing is left of one that was given up. -/
inductive Store.Applies (h : Host σ) (s : Settings) (st : Store) : List Told → Store → Prop where
  | nothing : Applies h s st [] st
  | update {told : List Told} {st₁ st₂ : Store} {j : Job} {lost : Nat} (held : Bool)
      (happlied : Applies h s st told st₁) (hupdates : j.Updates h s st₁ lost st₂) :
      Applies h s st (told ++ [⟨j, held, .written lost⟩]) st₂
  | giveUp {told : List Told} {st₁ : Store} (j : Job) (held : Bool) (e : IndexError)
      (happlied : Applies h s st told st₁) : Applies h s st (told ++ [⟨j, held, .failed e⟩]) st₁

section
variable {σ : Type} {h : Host σ} {s : Settings} {st st' : Store} {told : List Told}

theorem Store.Takes.applies (hl : st.Linked) (ht : st.Takes h s told st') :
    st'.Linked ∧ st.Applies h s told st' := by
  induction ht with
  | nothing => exact ⟨hl, .nothing⟩
  | @next told x st₁ st₂ _ hsettles ih =>
    obtain ⟨hl₁, happlied⟩ := ih
    obtain ⟨j, held, fate⟩ := x
    cases fate with
    | written lost =>
      have hupdates := hsettles.updates hl₁
      exact ⟨hupdates.linked, .update held happlied hupdates⟩
    | failed e =>
      cases hsettles with
      | failed => exact ⟨hl₁, .giveUp j held e happlied⟩

end

/-- What is filed elsewhere than the files of the jobs stays as it is. -/
theorem Store.Applies.elsewhere {σ : Type} {h : Host σ} {s : Settings} {st st' : Store}
    {told : List Told} (ha : st.Applies h s told st') :
    (∀ k slot, (∀ x ∈ told, slot ≠ x.job.scope.slot k x.job.path) →
        st'.rowsOf k slot = st.rowsOf k slot) ∧
      ∀ slot, (∀ x ∈ told, slot ∉ x.job.scope.slots x.job.path) →
        st'.catalog.rows slot = st.catalog.rows slot := by
  induction ha with
  | nothing => exact ⟨fun _ _ _ => rfl, fun _ _ => rfl⟩
  | @update told st₁ st₂ j lost held _ hupdates ih =>
    obtain ⟨hrows, hrecords⟩ := ih
    let x : Told := ⟨j, held, .written lost⟩
    have hlast : x ∈ told ++ [x] := List.mem_append_right _ List.mem_cons_self
    constructor
    · intro k slot hslot
      rw [hupdates.rows k slot (hslot x hlast)]
      exact hrows k slot fun y hy => hslot y (List.mem_append_left _ hy)
    · intro slot hslot
      rw [hupdates.records slot (hslot x hlast)]
      exact hrecords slot fun y hy => hslot y (List.mem_append_left _ hy)
  | giveUp j held e _ ih =>
    obtain ⟨hrows, hrecords⟩ := ih
    exact ⟨fun k slot hslot => hrows k slot fun x hx => hslot x (List.mem_append_left _ hx),
      fun slot hslot => hrecords slot fun x hx => hslot x (List.mem_append_left _ hx)⟩

theorem Plan.verdicts_snoc (p : Plan) (told : List Told) (x : Told) :
    p.verdicts (told ++ [x]) = p.verdicts told ++
      [x.fate.item (Progress.share (p.through told + 1) p.total) x.job] := by
  simp [verdicts, through, List.zipIdx_append]

theorem Plan.opening_no_verdicts (p : Plan) (files : List Rejected) :
    (p.opening files).filter Progress.isVerdict = [] := by
  rw [List.filter_eq_nil_iff]
  intro x hx
  rcases List.mem_cons.mp hx with rfl | hx
  · exact Bool.false_ne_true
  · obtain ⟨file, -, rfl⟩ := List.mem_map.mp hx
    exact Bool.false_ne_true

theorem Progress.pauses_no_verdicts (held : Bool) (fraction : Binary32) :
    (pauses held fraction).filter isVerdict = [] := by
  cases held <;> rfl

theorem Told.verdict_items (total n : Nat) (x : Told) :
    (x.items total n).filter Progress.isVerdict =
      [x.fate.item (Progress.share (n + 1) total) x.job] := by
  have hitem : (x.fate.item (Progress.share (n + 1) total) x.job).isVerdict := by
    cases x.fate with
    | written lost => cases lost <;> rfl
    | failed e => rfl
  rw [items, List.filter_append, Progress.pauses_no_verdicts, List.nil_append,
    List.filter_cons_of_pos hitem, List.filter_nil]

theorem Plan.verdicts_tellings (p : Plan) (told : List Told) :
    (p.tellings told).filter Progress.isVerdict = p.verdicts told := by
  induction told using List.reverseRecOn with
  | nil => rfl
  | append_singleton told x ih =>
    rw [tellings_snoc, List.filter_append, ih, Told.verdict_items, verdicts_snoc]

theorem Plan.front_verdicts (p : Plan) (told : List Told) :
    (p.opening p.rejected ++ p.tellings told).filter Progress.isVerdict = p.verdicts told := by
  rw [List.filter_append, opening_no_verdicts, verdicts_tellings, List.nil_append]

theorem Plan.closing_no_verdicts (p : Plan) (told : List Told) (c : Closing) :
    (p.closing told c).filter Progress.isVerdict = [] := by
  cases c with
  | stopped held =>
    rw [closing, List.filter_append, Progress.pauses_no_verdicts]
    rfl
  | done => rfl

theorem Run.Stands.verdicts {p : Plan} {r : Run} {items : List Progress} {told : List Told}
    (hs : r.Stands p items told) : items.filter Progress.isVerdict = p.verdicts told := by
  cases hs with
  | planned => rfl
  | rejecting => exact p.opening_no_verdicts _
  | between => exact p.front_verdicts told
  | held =>
    have hpaused : [Progress.paused r.share].filter Progress.isVerdict = [] := rfl
    rw [List.filter_append, p.front_verdicts, hpaused, List.append_nil]
  | «over» =>
    rw [Plan.stream, List.filter_append, p.front_verdicts, p.closing_no_verdicts, List.append_nil]

/-- After every item of a refresh, the store is the first one with the whole files that were
reported as indexed or as degraded, in the order of the plan; no other file has changed anything. -/
theorem refresh_applies_whole_files {σ : Type} {h : Host σ} {s : Settings}
    {S : Settings → Prop} {R : Rules} {plan : Plan} {st st' : Store} {items : List Progress}
    {r : Run} (hst : Reached S R st)
    (hy : (Run.ofPlan plan).Yields h s st items r st') : ∃ told,
      told.map Told.job <+: plan.jobs ∧ items.filter Progress.isVerdict = plan.verdicts told ∧
        st.Applies h s told st' := by
  obtain ⟨journal, -, ht⟩ := hst.tells
  obtain ⟨told, htaken, hs⟩ := hy.tells_of
  obtain ⟨c, htold, -⟩ := hs.begins
  exact ⟨told, htold, hs.verdicts, (htaken.applies ht.linked).2⟩

/-- A file that is degraded, one that is missing, and then the removal of the first one, which is
cancelled after its facts were dropped. -/
def interruptedPlan : Plan where
  jobs := [⟨⟨noBranch, "/d"⟩, "/d/a.md", .added, ""⟩, ⟨⟨noBranch, "/d"⟩, "/d/b.md", .updated, ""⟩,
    ⟨⟨noBranch, "/d"⟩, "/d/a.md", .removed, ""⟩]
  rejected := []

/-- All that the store holds is the degraded file, facts included. -/
theorem refresh_applies_whole_files_cut : ∃ items r st told,
    Reached (· = .standard) .refreshing .empty ∧
    (Run.ofPlan interruptedPlan).Yields (Files.single.switched failing) .standard .empty
      items r st ∧
    (∃ x ∈ items, x.cancelled) ∧ told.length = 2 ∧
    told.map Told.job <+: interruptedPlan.jobs ∧
    Store.empty.Applies (Files.single.switched failing) .standard told st ∧
    (st.facts.rows ((Scope.mk noBranch "/d").slot .metadata "/d/a.md")).length = 5 := by
  have hy := (Run.ofPlan interruptedPlan).take_yields (h := Files.single.switched failing)
    (s := .standard) 5 .empty ⟨List.replicate 11 false ++ [true], []⟩
  obtain ⟨told, htold, hverdicts, happlies⟩ :=
    refresh_applies_whole_files (Reached.empty : Reached (· = .standard) .refreshing .empty) hy
  have hlength := congrArg List.length hverdicts
  rw [Plan.verdicts, List.length_map, List.length_zipIdx] at hlength
  refine ⟨_, _, _, told, .empty, hy, ?_, hlength.symm.trans ?_, htold, happlies, ?_⟩
  all_goals decide +kernel

end CodeIndex
