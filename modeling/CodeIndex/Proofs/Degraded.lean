import CodeIndex.Proofs.Coherence
import CodeIndex.Proofs.Endings

namespace CodeIndex

/-- What is stored of a file without a record lacks a vector. -/
theorem standing_unrecorded {k : ArtifactKind} {scope : Scope} {p : Path} {journal : List Act}
    (hrecorded : (standing k scope p journal).recorded = none) {s : Settings}
    {bytes : Bytes} {vectors : List (Option Embedding)}
    (hwritten : (standing k scope p journal).written = some (s, bytes, vectors)) :
    ¬ vectors.all Option.isSome := by
  refine standing_keeps (fun x => x.recorded = none → ∀ {s bytes vectors},
    x.written = some (s, bytes, vectors) → ¬ vectors.all Option.isSome) ?_ ?_ hrecorded hwritten
  · intro _ s bytes vectors hw
    cases hw
  · intro a _ _ x _ hr s bytes vectors hw
    cases a with
    | write s' t q bytes' vectors' =>
      cases hw
      intro hall
      simp only [Act.leaves, hall, if_true] at hr
      cases hr
    | remove | clear => cases hw

section
variable {S : Settings → Prop} {R : Rules} {st : Store} {journal : List Act}

/-- A row has failed exactly if the file was last written without one of its vectors. -/
theorem failed_row_iff (hpossible : ∀ a ∈ journal, a.Possible S R) (ht : st.Tells journal)
    (scope : Scope) (p : Path) :
    (∃ row ∈ st.embeddings.rows (scope.slot .embeddings p), row.failed) ↔ ∃ s bytes vectors,
      (standing .embeddings scope p journal).written = some (s, bytes, vectors) ∧
        ¬ vectors.all Option.isSome := by
  have hrows := ht.rows .embeddings scope p
  cases hw : (standing .embeddings scope p journal).written with
  | none =>
    rw [Standing.rows, hw] at hrows
    rw [Rows.embeddings.inj hrows]
    simp
  | some content =>
    obtain ⟨s, bytes, vectors⟩ := content
    obtain ⟨cs, hchunks, hanswers⟩ := ((standing_possible hpossible _ scope p).written hw).answers
    rw [Standing.rows, hw] at hrows
    have hembeddings := Rows.embeddings.inj (hrows.trans (Rows.of_bytes_ok hchunks vectors _))
    rw [hembeddings, Store.exists_failed_iff (length_of_answers hanswers)]
    simp

theorem written_of_not_bare (ht : st.Tells journal) {k : ArtifactKind} {scope : Scope} {p : Path}
    (hrows : ¬ st.Bare (scope.slot k p) k) : ∃ s bytes vectors,
      (standing k scope p journal).written = some (s, bytes, vectors) := by
  rw [Store.bare_iff, ht.rows, Standing.rows] at hrows
  cases hw : (standing k scope p journal).written with
  | none =>
    rw [hw] at hrows
    exact absurd rfl hrows
  | some content => exact ⟨_, _, _, rfl⟩

end

section
variable {σ : Type} {h : Host σ} {s : Settings} {S : Settings → Prop} {R : Rules} {st st' : Store}
  {dir : Path} {branch : String} {listed : List Path} {plan : Plan} {w w₁ : σ}

/-- The plan of one directory, by what it was listed as and the branch it was on. -/
theorem jobs_of_dir (hlist : (h.list dir).run w = (.ok listed, w₁))
    (hbranch : ((h.branch dir).run w₁).1 = branch)
    (hplan : ((Plan.ofDirs h s st [dir]).run w).1 = .ok plan) :
    ∃ hashOf, plan.jobs = st.jobs ⟨branch, dir⟩ listed hashOf := by
  obtain ⟨listed', w₁', w₂, hlist', rfl⟩ := Plan.of_dir_ok (Plan.of_dirs_single hplan)
  rw [hlist] at hlist'
  cases hlist'
  rw [hbranch]
  exact ⟨_, rfl⟩

/-- A completed refresh leaves nothing of a path that it did not list if some tag recorded the path,
and leaves the path alone otherwise. -/
theorem standing_unlisted {scope : Scope} {hashOf : Path → Option String} {acts : List Act}
    (hacts : List.Forall₂ (fun j a => j.Acts h s a ∧ a.complete) (st.jobs scope listed hashOf) acts)
    {p : Path} (hp : p ∉ listed) (k : ArtifactKind) (journal : List Act) :
    ((∃ l, st.hash? (scope.slot l p) ≠ none) →
        standing k scope p (journal ++ acts) = .nothing) ∧
      ((∀ l, st.hash? (scope.slot l p) = none) →
        standing k scope p (journal ++ acts) = standing k scope p journal) := by
  have hjob : (∃ j ∈ st.jobs scope listed hashOf, j.path = p) ↔
      ∃ l, st.hash? (scope.slot l p) ≠ none := Store.job_of_unlisted hp
  have hleaves : ∀ j ∈ st.jobs scope listed hashOf, scope.stem = j.scope.stem → p = j.path →
      ∀ a, j.Acts h s a → a.complete → ∀ y, a.leaves y = .nothing := by
    rintro j hj - rfl a hact - y
    have hremoved := (Store.job_spec hj).2.2.mpr hp
    cases hact with
    | remove => rfl
    | write _ hchange => exact absurd hremoved hchange
  obtain ⟨hsome, hnone⟩ := standing_of_jobs hacts (k := k) (· = .nothing) hleaves journal
  constructor
  · intro hrecorded
    obtain ⟨j, hj, hpath⟩ := hjob.mpr hrecorded
    exact hsome ⟨j, hj, by rw [(Store.job_spec hj).1], hpath.symm⟩
  · intro hunrecorded
    apply hnone
    intro j hj _ hpath
    obtain ⟨l, hl⟩ := hjob.mp ⟨j, hj, hpath.symm⟩
    exact hl (hunrecorded l)

/-- A refresh of a directory leaves rows of a path that it did not list exactly if one of these rows
has failed and no tag records the path. -/
theorem leftover_iff (hst : Reached S R st) (heven : ∀ tags, R.clears tags → Even tags)
    (hlist : (h.list dir).run w = (.ok listed, w₁))
    (hbranch : ((h.branch dir).run w₁).1 = branch)
    (hplan : ((Plan.ofDirs h s st [dir]).run w).1 = .ok plan) (hc : plan.Completes h s st st')
    {p : Path} (hp : p ∉ listed) :
    (∃ k, ¬ st'.Bare ((Scope.mk branch dir).slot k p) k) ↔
      (∃ row ∈ st.embeddings.rows ((Scope.mk branch dir).slot .embeddings p), row.failed) ∧
        ∀ k, st.hash? ((Scope.mk branch dir).slot k p) = none := by
  let scope : Scope := ⟨branch, dir⟩
  obtain ⟨journal, hpossible, ht⟩ := hst.tells
  obtain ⟨-, acts, hacts, ht'⟩ := hc.tells hplan ht
  obtain ⟨hashOf, hjobs⟩ := jobs_of_dir hlist hbranch hplan
  rw [hjobs] at hacts
  constructor
  · rintro ⟨k, hrows⟩
    obtain ⟨s', bytes, vectors, hw⟩ := written_of_not_bare ht' hrows
    obtain ⟨hremoved, hkept⟩ := standing_unlisted hacts hp k journal
    have hunrecorded : ∀ l, st.hash? (scope.slot l p) = none := by
      intro l
      refine Classical.not_not.mp fun hrecorded => ?_
      rw [hremoved ⟨l, hrecorded⟩] at hw
      cases hw
    rw [hkept hunrecorded] at hw
    refine ⟨(failed_row_iff hpossible ht scope p).mpr ⟨s', bytes, vectors, ?_, ?_⟩, hunrecorded⟩
    · rw [standing_even hpossible heven .embeddings k]
      exact hw
    · have hnone := hunrecorded k
      rw [ht.hash, Option.map_eq_none_iff] at hnone
      exact standing_unrecorded hnone hw
  · rintro ⟨⟨row, hrow, -⟩, hunrecorded⟩
    obtain ⟨-, hkept⟩ := standing_unlisted hacts hp .embeddings journal
    refine ⟨.embeddings, ?_⟩
    rw [Store.bare_iff, ht'.rows, hkept hunrecorded, ← ht.rows, ← Store.bare_iff]
    exact List.ne_nil_of_mem hrow

end

/-- A file that was degraded when it was new is gone, and its rows stay. -/
theorem leftovers_of_degraded : ∃ st st',
    Refreshes (Files.single.host failing) .standard ["/d"] .empty st ∧
      Completes (Files.deserted.host failing) .standard ["/d"] st st' ∧
      Files.deserted.list "/d" = .ok [] ∧
      st'.facts.rows ((Files.deserted.scope "/d").slot .metadata "/d/a.md") ≠ [] := by
  refine ⟨_, _, refreshes_of_done (w := ()) ?_, completes_of_done (w := ()) ?_ ?_, rfl, ?_⟩
  all_goals decide +kernel

/-- A file that was recorded is gone, and so are its rows. -/
theorem leftover_iff_recorded : ∃ st st',
    Completes (Files.single.host (answering fun _ => [.one])) .standard ["/d"] .empty st ∧
      Completes (Files.deserted.host (answering fun _ => [.one])) .standard ["/d"] st st' ∧
      (∀ k, st.hash? ((Scope.mk noBranch "/d").slot k "/d/a.md") ≠ none) ∧
      ¬ ∃ k, ¬ st'.Bare ((Scope.mk noBranch "/d").slot k "/d/a.md") k := by
  obtain ⟨st, hst, hrecorded⟩ : ∃ st,
      Completes (Files.single.host (answering fun _ => [.one])) .standard ["/d"] .empty st ∧
        ∀ k, st.hash? ((Scope.mk noBranch "/d").slot k "/d/a.md") ≠ none := by
    refine ⟨_, completes_of_done (w := ()) ?_ ?_, ?_⟩
    · decide +kernel
    · decide +kernel
    · intro k
      cases k <;> decide +kernel
  have hreached : Reached (· = .standard) .refreshing st :=
    hst.reached rfl (Rules.refreshing_allows _) .empty
  obtain ⟨journal, -, ht⟩ := hreached.tells
  obtain ⟨st', hst'⟩ := completes_total (fun _ => [.one]) deserted_indexable ht
  refine ⟨st, st', hst, hst', hrecorded, ?_⟩
  obtain ⟨w, plan, hplan, hc⟩ := hst'
  have hbranch : (((Files.deserted.host (answering fun _ => [.one])).branch "/d").run w).1 =
      noBranch := rfl
  rw [leftover_iff hreached (fun _ hclear => hclear.elim) rfl hbranch hplan hc List.not_mem_nil]
  rintro ⟨-, hnone⟩
  exact hrecorded .metadata (hnone .metadata)

/-- A host that keeps listing a file of a directory on one branch, with the same bytes. -/
structure Host.Keeps (h : Host σ) (dir : Path) (branch : String) (p : Path) (bytes : Bytes) :
    Prop where
  listed : ∀ {w : σ} {listed : List Path}, ((h.list dir).run w).1 = .ok listed → p ∈ listed
  branch : ∀ w : σ, ((h.branch dir).run w).1 = branch
  content : ∀ (q : Path) (w : σ), Path.same q p → ((h.read q).run w).1 = .ok bytes

section
variable {σ : Type} {h : Host σ} {s : Settings} {S : Settings → Prop} {R : Rules} {st : Store}
  {dir p : Path} {branch : String} {bytes : Bytes}

theorem Host.Keeps.hash (hkeeps : h.Keeps dir branch p bytes) (hsize : bytes.length ≤ s.maxFileSize)
    {listed : List Path} (hp : p ∈ listed) (w : σ) :
    Plan.hashIn ((Plan.readAll h s.maxFileSize listed).run w).1.1 p = some (hashBytes bytes) := by
  generalize hread : ((Plan.readAll h s.maxFileSize listed).run w).1 = read
  obtain ⟨hcovered, hsound, hrefused⟩ := Plan.read_all_spec hread
  apply Plan.hash_in_of_read
  · rcases hcovered p hp with hmem | ⟨r, hr, rfl⟩
    · exact hmem
    · obtain ⟨e, w₁, herror⟩ := hrefused r hr
      rw [read_within_eq, hkeeps.content r.path w₁ (by simp [Path.same]), Except.bind,
        if_neg (by omega)] at herror
      cases herror
  · intro e he hsame
    obtain ⟨bytes', w₁, hok, hhash⟩ := hsound e he
    have hbytes := (read_of_read_within hok).1
    rw [hkeeps.content e.1 w₁ hsame] at hbytes
    cases hbytes
    exact hhash

/-- A file has a job exactly if some tag records another hash of it, or none. -/
theorem job_of_kept (hkeeps : h.Keeps dir branch p bytes) (hsize : bytes.length ≤ s.maxFileSize)
    {dirs : List Path} (hdir : dir ∈ dirs) {plan : Plan} {w : σ}
    (hplan : ((Plan.ofDirs h s st dirs).run w).1 = .ok plan) :
    (∃ j ∈ plan.jobs, j.scope = ⟨branch, dir⟩ ∧ j.path = p) ↔
      ∃ k, st.hash? ((Scope.mk branch dir).slot k p) ≠ some (hashBytes bytes) := by
  obtain ⟨plans, hplans, hjobs, -⟩ := Plan.of_dirs_ok hplan
  have hfirst : ∀ {first w₁}, ((Plan.ofDir h s (fun _ => st) dir).run w₁).1 = .ok first →
      ((∃ j ∈ first.jobs, j.path = p) ↔
        ∃ k, st.hash? ((Scope.mk branch dir).slot k p) ≠ some (hashBytes bytes)) := by
    intro first w₁ hofdir
    obtain ⟨listed, w₂, w₃, hlist, rfl⟩ := Plan.of_dir_ok hofdir
    have hp := hkeeps.listed (congrArg Prod.fst hlist)
    rw [hkeeps.branch w₂]
    exact Store.job_of_listed hp (hkeeps.hash hsize hp w₃)
  constructor
  · rintro ⟨j, hj, hscope, hpath⟩
    rw [hjobs] at hj
    obtain ⟨first, hmem, hj⟩ := List.mem_flatMap.mp hj
    obtain ⟨dir', -, w₁, hofdir⟩ := exists_left_of_forall₂ hplans hmem
    obtain ⟨listed, w₂, w₃, -, hform⟩ := Plan.of_dir_ok hofdir
    have hscope' : j.scope = ⟨((h.branch dir').run w₂).1, dir'⟩ := by
      rw [hform] at hj
      exact (Store.job_spec hj).1
    rw [hscope'] at hscope
    cases congrArg Scope.directory hscope
    exact (hfirst hofdir).mp ⟨j, hj, hpath⟩
  · intro hother
    obtain ⟨first, hmem, w₁, hofdir⟩ := exists_right_of_forall₂ hplans hdir
    obtain ⟨j, hj, hpath⟩ := (hfirst hofdir).mpr hother
    refine ⟨j, ?_, ?_, hpath⟩
    · rw [hjobs]
      exact List.mem_flatMap.mpr ⟨first, hmem, hj⟩
    · obtain ⟨listed, w₂, w₃, -, rfl⟩ := Plan.of_dir_ok hofdir
      rw [(Store.job_spec hj).1, hkeeps.branch]

/-- A degraded file is on the next work list exactly if some tag does not record the hash of its
present bytes. A tag records the bytes that were last indexed in full, whatever was written
since. -/
theorem degraded_planned_iff (hst : Reached S R st) (hkeeps : h.Keeps dir branch p bytes)
    (hsize : bytes.length ≤ s.maxFileSize) {dirs : List Path} (hdir : dir ∈ dirs) {plan : Plan}
    {w : σ} (hplan : ((Plan.ofDirs h s st dirs).run w).1 = .ok plan)
    (hfailed : ∃ row ∈ st.embeddings.rows ((Scope.mk branch dir).slot .embeddings p), row.failed) :
    ∃ journal, (∀ a ∈ journal, a.Possible S R) ∧ st.Tells journal ∧
      (∃ s' written vectors, (standing .embeddings ⟨branch, dir⟩ p journal).written =
        some (s', written, vectors) ∧ ¬ vectors.all Option.isSome) ∧
      ((∃ j ∈ plan.jobs, j.scope = ⟨branch, dir⟩ ∧ j.path = p) ↔
        ∃ k, (standing k ⟨branch, dir⟩ p journal).recorded.map hashBytes ≠
          some (hashBytes bytes)) := by
  obtain ⟨journal, hpossible, ht⟩ := hst.tells
  refine ⟨journal, hpossible, ht, (failed_row_iff hpossible ht _ p).mp hfailed, ?_⟩
  rw [job_of_kept hkeeps hsize hdir hplan]
  simp only [ht.hash]

end

/-- A file was indexed in full, edited while the provider failed, and edited back: what is stored of
it has failed, and there is no job for it. -/
theorem degraded_unplanned_reverted : ∃ st₁ st₂,
    Completes (Files.single.host (answering fun _ => [.one])) .standard ["/d"] .empty st₁ ∧
      Refreshes (Files.changed.host failing) .standard ["/d"] st₁ st₂ ∧
      (∃ row ∈ st₂.embeddings.rows ((Scope.mk noBranch "/d").slot .embeddings "/d/a.md"),
        row.failed) ∧
      ((Plan.ofDirs (Files.single.host (answering fun _ => [.one])) .standard st₂ ["/d"]).run
        ()).1 = .ok .empty := by
  refine ⟨_, _, completes_of_done (w := ()) ?_ ?_, refreshes_of_done (w := ()) ?_, ?_, ?_⟩
  all_goals decide +kernel

/-- A new file that was degraded is taken up again. -/
theorem degraded_planned_iff_new : ∃ st plan,
    Refreshes (Files.single.host failing) .standard ["/d"] .empty st ∧
      ((Plan.ofDirs (Files.single.host failing) .standard st ["/d"]).run ()).1 = .ok plan ∧
      ∃ j ∈ plan.jobs, j.scope = ⟨noBranch, "/d"⟩ ∧ j.path = "/d/a.md" := by
  obtain ⟨st, hst, hfailed, hnone⟩ : ∃ st,
      Refreshes (Files.single.host failing) .standard ["/d"] .empty st ∧
        (∃ row ∈ st.embeddings.rows ((Scope.mk noBranch "/d").slot .embeddings "/d/a.md"),
          row.failed) ∧
        st.hash? ((Scope.mk noBranch "/d").slot .metadata "/d/a.md") = none := by
    refine ⟨_, refreshes_of_done (w := ()) ?_, ?_, ?_⟩
    all_goals decide +kernel
  have hkeeps : (Files.single.host failing).Keeps "/d" noBranch "/d/a.md" [97] := by
    refine ⟨?_, fun _ => rfl, ?_⟩
    · intro w listed hlist
      cases hlist
      exact List.mem_cons_self
    · intro q w hsame
      have hread : Files.single.read q = .ok [97] :=
        (Files.single.read_same hsame).trans (by simp [Files.single, Files.ofList, Path.same])
      exact hread
  have hreached : Reached (· = .standard) .refreshing st :=
    hst.reached rfl (Rules.refreshing_allows _) .empty
  obtain ⟨plan, hplan, -⟩ := of_dirs_total failing st single_indexable
  obtain ⟨journal, -, ht, -, hiff⟩ := degraded_planned_iff hreached hkeeps (by decide)
    List.mem_cons_self hplan hfailed
  refine ⟨st, plan, hst, hplan, hiff.mpr ⟨.metadata, ?_⟩⟩
  rw [← ht.hash, hnone]
  simp

end CodeIndex
