import CodeIndex.Proofs.AtRest
import CodeIndex.Proofs.Sessions

namespace CodeIndex

/-- What has happened to a listed file with this record. -/
def Change.since (current : String) : Option String → Change
  | none => .added
  | some old => if old = current then .unchanged else .updated

/-- Tags that all have the same record tell a file that is new from one that was changed. -/
theorem Change.classify_replicate (current : String) (n : Nat) (record : Option String) :
    classify current (List.replicate (n + 1) record) = since current record := by
  rw [classify]
  cases record with
  | none => simp [since]
  | some old => by_cases hold : old = current <;> simp [since, hold]

namespace FileChange

/-- What is to be done about a path with this record. -/
inductive Follows (listed : List Path) (hashOf : Path → Option String) :
    Option String → FileChange → Prop where
  | added {p : Path} {hash : String} (hlisted : p ∈ listed) (hhash : hashOf p = some hash) :
      Follows listed hashOf none ⟨p, .added, hash⟩
  | updated {p : Path} {hash old : String} (hlisted : p ∈ listed) (hhash : hashOf p = some hash)
      (hdiffers : old ≠ hash) : Follows listed hashOf (some old) ⟨p, .updated, hash⟩
  | removed {p : Path} {old : String} (hgone : p ∉ listed) :
      Follows listed hashOf (some old) ⟨p, .removed, old⟩

end FileChange

/-- The tags of a scope all have this record of a path, each at the time when its catalog is read.
-/
def Plan.OneRecord (scope : Scope) (stores : ArtifactKind → Store) (p : Path)
    (record : Option String) : Prop :=
  ∀ k, (stores k).hash? (scope.slot k p) = record

namespace Plan.OneRecord

variable {scope : Scope} {stores : ArtifactKind → Store} {p : Path} {record : Option String}

theorem recorded (hone : OneRecord scope stores p record) :
    (catalogs scope stores).map (·.hash? p) = List.replicate 4 record := by
  rw [recorded_in_catalogs, List.map_congr_left fun k _ => hone k]
  rfl

theorem first (hone : OneRecord scope stores p record) :
    (catalogs scope stores).findSome? (·.hash? p) = record := by
  have hfirst := congrArg (List.findSome? id) hone.recorded
  rw [List.findSome?_map, List.findSome?_replicate_of_pos (by decide)] at hfirst
  exact hfirst

/-- The change of a path is the one that follows from its one record. -/
theorem mem_plan {c : FileChange} (hone : OneRecord scope stores c.path record)
    {listed : List Path} {hashOf : Path → Option String} :
    c ∈ FileChange.plan (catalogs scope stores) listed hashOf ↔
      c.Follows listed hashOf record := by
  obtain ⟨p, change, hash⟩ := c
  have hclassify : Change.classify hash ((catalogs scope stores).map (·.hash? (PathForm.text p))) =
      .since hash record := by
    rw [← Change.classify_replicate hash 3 record, ← hone.recorded]
    rfl
  rw [FileChange.mem_plan, FileChange.mem_listed_changes, FileChange.mem_removed_changes_iff,
    hclassify, hone.first]
  constructor
  · rintro (⟨hlisted, hhash, hchange, hne⟩ | ⟨hchange, hgone, hrecord⟩)
    · cases record with
      | none =>
        obtain rfl : Change.added = change := hchange
        exact .added hlisted hhash
      | some old =>
        rw [Change.since] at hchange
        split at hchange
        · exact absurd hchange.symm hne
        · rename_i hdiffers
          obtain rfl : Change.updated = change := hchange
          exact .updated hlisted hhash hdiffers
    · obtain rfl : change = .removed := hchange
      rw [hrecord]
      exact .removed hgone
  · intro hfollows
    cases hfollows with
    | added hlisted hhash => exact Or.inl ⟨hlisted, hhash, rfl, by simp⟩
    | updated hlisted hhash hdiffers =>
      exact Or.inl ⟨hlisted, hhash, if_neg hdiffers, by simp⟩
    | removed hgone => exact Or.inr ⟨rfl, hgone, rfl⟩

end Plan.OneRecord

/-- All tags of a scope have the same catalog, with at most one record of a path. -/
def Store.OneCatalog (st : Store) (scope : Scope) (record : Path → Option String) : Prop :=
  ∀ k p, st.catalog.rows (scope.slot k p) = (record p).toList

namespace Store.OneCatalog

variable {st : Store} {scope : Scope} {record : Path → Option String}

theorem hash (hone : st.OneCatalog scope record) (k : ArtifactKind) (p : Path) :
    st.hash? (scope.slot k p) = record p := by
  rw [hash?, hone, Option.head?_toList]

/-- The changes of a directory are those that follow from its one catalog. -/
theorem mem_plan (hone : st.OneCatalog scope record) {listed : List Path}
    {hashOf : Path → Option String} {c : FileChange} :
    c ∈ FileChange.plan (st.catalogs scope) listed hashOf ↔
      c.Follows listed hashOf (record c.path) :=
  Plan.OneRecord.mem_plan fun k => hone.hash k c.path

end Store.OneCatalog

theorem Reached.one_catalog {S : Settings → Prop} {st : Store} (hst : Reached S .session st)
    (scope : Scope) : ∃ record, st.OneCatalog scope record := by
  obtain ⟨journal, hpossible, ht⟩ := hst.tells
  refine ⟨fun p => (standing .metadata scope p journal).recorded.map hashBytes, ?_⟩
  intro k p
  rw [ht.records, standing_even hpossible (fun _ => id) k .metadata, Standing.records]

/-- However the stores came about in which the four catalogs of a scope are read, in each of them
all tags of the scope have one catalog. If the record of a path is the same in all four, as it is
while nobody commits the path or clears the scope, a plan meets no tag that differs from the others
about it, and has the change of the path that follows from the one record. -/
theorem catalogs_agree {S : Settings → Prop} {stores : ArtifactKind → Store}
    (hst : ∀ k, Reached S .session (stores k)) (scope : Scope) :
    ∃ record : ArtifactKind → Path → Option String,
      (∀ k, (stores k).OneCatalog scope (record k)) ∧
      ∀ p r, (∀ k, record k p = r) →
        (Plan.catalogs scope stores).map (·.hash? p) = List.replicate 4 r ∧
        ∀ listed hashOf change hash,
          ⟨p, change, hash⟩ ∈ FileChange.plan (Plan.catalogs scope stores) listed hashOf ↔
            FileChange.Follows listed hashOf r ⟨p, change, hash⟩ := by
  choose record hrecord using fun k => (hst k).one_catalog scope
  refine ⟨record, hrecord, ?_⟩
  intro p r hsame
  have hone : Plan.OneRecord scope stores p r := fun k => ((hrecord k).hash k p).trans (hsame k)
  exact ⟨hone.recorded, fun _ _ _ _ => hone.mem_plan⟩

/-- A file was indexed in full, and while the catalogs are read it is degraded after an edit: all
four tags still record the old hash, so the file is planned as updated. -/
theorem catalogs_agree_degraded : ∃ before after, Reached (· = .standard) .session before ∧
    Reached (· = .standard) .session after ∧
    (∃ row ∈ after.embeddings.rows ((Scope.mk noBranch "/d").slot .embeddings "/d/a.md"),
      row.failed) ∧
    let stores := fun k => if k = .metadata then before else after
    (Plan.catalogs ⟨noBranch, "/d"⟩ stores).map (·.hash? "/d/a.md") =
      List.replicate 4 (some (hashBytes [97])) ∧
    ⟨"/d/a.md", .updated, hashBytes [98]⟩ ∈
      FileChange.plan (Plan.catalogs ⟨noBranch, "/d"⟩ stores) ["/d/a.md"]
        (Files.changed.hash? 1) := by
  obtain ⟨before, hbefore, hfirst, after, hafter, hfailed, hold, hnew⟩ : ∃ before,
      Refreshes (Files.single.host (answering fun _ => [.one])) .standard ["/d"] .empty before ∧
        before.hash? ((Scope.mk noBranch "/d").slot .metadata "/d/a.md") =
          some (hashBytes [97]) ∧
        ∃ after, Refreshes (Files.changed.host failing) .standard ["/d"] before after ∧
          (∃ row ∈ after.embeddings.rows ((Scope.mk noBranch "/d").slot .embeddings "/d/a.md"),
            row.failed) ∧
          after.hash? ((Scope.mk noBranch "/d").slot .metadata "/d/a.md") =
            some (hashBytes [97]) ∧
          hashBytes [97] ≠ hashBytes [98] := by
    refine ⟨_, refreshes_of_done (w := ()) ?_, ?_, exists_refreshes (w := ()) ?_⟩
    all_goals decide +kernel
  have hreached : Reached (· = .standard) .session before :=
    hbefore.reached rfl (Rules.session_allows _) .empty
  have hreached' : Reached (· = .standard) .session after :=
    hafter.reached rfl (Rules.session_allows _) hreached
  have hst : ∀ k, Reached (· = .standard) .session
      (if k = ArtifactKind.metadata then before else after) := by
    intro k
    split <;> assumption
  obtain ⟨record, hone, hplan⟩ := catalogs_agree hst ⟨noBranch, "/d"⟩
  have hrecord : ∀ k, record k "/d/a.md" = some (hashBytes [97]) := by
    intro k
    have hread := (hone k).hash .metadata "/d/a.md"
    rw [← hread]
    split
    · exact hfirst
    · exact hold
  obtain ⟨hrecorded, hfollows⟩ := hplan "/d/a.md" _ hrecord
  refine ⟨before, after, hreached, hreached', hfailed, hrecorded, (hfollows _ _ _ _).mpr ?_⟩
  exact .updated (by decide) rfl hnew

/-- Another refresh commits a new file after the second of the four catalogs was read. The plan has
the file as updated, with the very hash that all tags record by then. -/
theorem plan_straddles_commit : ∃ st,
    Completes (Files.single.host (answering fun _ => [.one])) .standard ["/d"] .empty st ∧
    (∀ k ∈ ArtifactKind.all,
      st.hash? ((Scope.mk noBranch "/d").slot k "/d/a.md") = some (hashBytes [97])) ∧
    ((Plan.ofDir (Files.single.host (answering fun _ => [.one])) .standard
      (fun k => if k = .metadata ∨ k = .fullText then .empty else st) "/d").run ()).1 =
        .ok ⟨[⟨⟨noBranch, "/d"⟩, "/d/a.md", .updated, hashBytes [97]⟩], []⟩ := by
  refine exists_completes (w := ()) ?_
  decide +kernel

end CodeIndex
