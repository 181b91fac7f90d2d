import CodeIndex.Proofs.NamedFiles
import CodeIndex.Proofs.RawPaths

namespace CodeIndex

section
variable (files : Files) (s : Settings)
  (provider : List Text → Except ProviderError (List Embedding))

/-- What a job does, or why its file is given up. -/
def Files.actFor (j : Job) : Except IndexError Act :=
  if j.change = .removed then .ok (.remove j.scope j.path)
  else
    match files.readWithin s.maxFileSize j.path with
    | .error e => .error e
    | .ok bytes =>
      match s.chunksOf j.path bytes with
      | .error e => .error e
      | .ok cs =>
        .ok (.write s j.scope j.path bytes
          (entriesOf provider (s.batches (.ofBytes j.path bytes) cs)))

def Files.fateOf (j : Job) : Job.Fate :=
  match files.actFor s provider j with
  | .ok a => .written a.missing
  | .error e => .failed e

/-- The store after some jobs. In the places of a job that did something is what it did last, and
all other places are as they were. -/
structure Store.Finishes (st : Store) (jobs : List Job) (st' : Store) : Prop where
  linked : st'.Linked
  rows : ∀ j ∈ jobs, ∀ a, files.actFor s provider j = .ok a →
    ∀ k, st'.rowsOf k (j.scope.slot k j.path) = a.newRows k
  records : ∀ j ∈ jobs, ∀ a, files.actFor s provider j = .ok a → a.missing = 0 →
    ∀ k, st'.catalog.rows (j.scope.slot k j.path) = a.newRecords
  otherRows : ∀ k slot, (∀ j ∈ jobs, ∀ a, files.actFor s provider j = .ok a →
    slot ≠ j.scope.slot k j.path) → st'.rowsOf k slot = st.rowsOf k slot
  otherRecords : ∀ slot, (∀ j ∈ jobs, ∀ a, files.actFor s provider j = .ok a → a.missing = 0 →
    slot ∉ j.scope.slots j.path) → st'.catalog.rows slot = st.catalog.rows slot

end

section
variable {σ : Type} {h : Host σ} {files : Files} {s : Settings} {st st₁ st₂ st' : Store}
  {provider : List Text → Except ProviderError (List Embedding)} {dirs ps : List Path} {j : Job}
  {jobs : List Job} {told : List Told}

theorem act_for_of_acts (hserves : h.Serves files provider) {a : Act} (ha : j.Acts h s a) :
    files.actFor s provider j = .ok a := by
  cases ha with
  | remove hchange => rw [Files.actFor, if_pos hchange]
  | @write bytes cs vectors w hchange hread hchunks hanswers =>
    have hfixed : Answers (Fixed provider) (s.batches (.ofBytes j.path bytes) cs) vectors := by
      refine hanswers.mono ?_
      intro batch reply hreply
      obtain ⟨w, rfl⟩ := hreply
      exact hserves.replies batch w
    rw [read_within_at_rest hserves.toShows] at hread
    rw [Files.actFor, if_neg hchange, hread]
    simp only [hchunks, ← hfixed.fixed]

theorem act_for_of_error (hserves : h.Serves files provider) (hj : j.change ≠ .unchanged)
    (hl : st.Linked) {err : IndexError} {w : σ}
    (hindex : ((j.index h s st).run w).1 = .error err) (hne : err ≠ .cancelled) :
    files.actFor s provider j = .error err := by
  obtain ⟨hchange, hcause⟩ := index_error hl hj hindex hne
  rw [Files.actFor, if_neg hchange]
  rw [read_within_at_rest hserves.toShows] at hcause
  rcases hcause with hread | ⟨bytes, hread, hchunks⟩
  · rw [hread]
  · rw [hread]
    simp only [hchunks]

/-- A job that is settled meets its fate. -/
theorem Job.Settles.fate_eq (hserves : h.Serves files provider) (hj : j.change ≠ .unchanged)
    (hl : st.Linked) {fate : Job.Fate} (hs : j.Settles h s st fate st') :
    fate = files.fateOf s provider j ∧ fate ≠ .failed .cancelled := by
  rw [Files.fateOf]
  cases hs with
  | written w hindex =>
    obtain ⟨a, hacts, hlost, -⟩ := index_changes hl hj hindex
    rw [act_for_of_acts hserves hacts, hlost]
    exact ⟨rfl, by simp⟩
  | failed w hindex he =>
    rw [act_for_of_error hserves hj hl hindex he]
    exact ⟨rfl, by simpa using he⟩

/-- The places of files with different paths are different. -/
theorem slot_ne_of_path {t u : Scope} {p q : Path} (hpath : p ≠ q) (k l : ArtifactKind) :
    t.slot k p ≠ u.slot l q := fun hslot => hpath (congrArg Slot.path hslot)

theorem Store.Finishes.nothing (hl : st.Linked) : st.Finishes files s provider [] st :=
  ⟨hl, by simp, by simp, fun _ _ _ => rfl, fun _ _ => rfl⟩

/-- One more job is done, after which no other job with its path is among those that were done. -/
theorem Store.Finishes.settle (hserves : h.Serves files provider)
    (hf : st.Finishes files s provider jobs st₁) (hj : j.change ≠ .unchanged)
    (hsame : ∀ i ∈ jobs, i.path = j.path → i = j) {fate : Job.Fate}
    (hs : j.Settles h s st₁ fate st₂) : st.Finishes files s provider (jobs ++ [j]) st₂ := by
  have hlast : j ∈ jobs ++ [j] := List.mem_append_right _ List.mem_cons_self
  have hearlier : ∀ {i}, i ∈ jobs → i ∈ jobs ++ [j] := fun hi => List.mem_append_left _ hi
  cases hs with
  | @failed e w hindex he =>
    have hnone := act_for_of_error hserves hj hf.linked hindex he
    have hdone : ∀ i ∈ jobs ++ [j], ∀ a, files.actFor s provider i = .ok a → i ∈ jobs := by
      intro i hi a ha
      rcases List.mem_append.mp hi with hi | hi
      · exact hi
      · rw [List.mem_singleton.mp hi, hnone] at ha
        cases ha
    exact ⟨hf.linked, fun i hi a ha => hf.rows i (hdone i hi a ha) a ha,
      fun i hi a ha => hf.records i (hdone i hi a ha) a ha,
      fun k slot hslot => hf.otherRows k slot fun i hi => hslot i (hearlier hi),
      fun slot hslot => hf.otherRecords slot fun i hi => hslot i (hearlier hi)⟩
  | @written lost _ w hindex =>
    obtain ⟨a, hacts, rfl, hchanges, hnew⟩ := index_changes hf.linked hj hindex
    have ha := act_for_of_acts hserves hacts
    have hother : ∀ i ∈ jobs ++ [j], i ≠ j → i ∈ jobs ∧ i.path ≠ j.path := by
      intro i hi hij
      have hi : i ∈ jobs := by simpa [hij] using hi
      exact ⟨hi, fun hpath => hij (hsame i hi hpath)⟩
    refine ⟨hchanges.linked, ?_, ?_, ?_, ?_⟩
    · intro i hi b hb k
      by_cases hij : i = j
      · subst hij
        cases ha.symm.trans hb
        exact (hnew k).1
      · obtain ⟨hi, hpath⟩ := hother i hi hij
        rw [hchanges.rows k _ (slot_ne_of_path hpath k k)]
        exact hf.rows i hi b hb k
    · intro i hi b hb hmissing k
      by_cases hij : i = j
      · subst hij
        cases ha.symm.trans hb
        exact (hnew k).2 hmissing
      · obtain ⟨hi, hpath⟩ := hother i hi hij
        have houtside : i.scope.slot k i.path ∉ j.scope.slots j.path := by
          rw [Scope.mem_slots]
          rintro ⟨l, hslot⟩
          exact slot_ne_of_path hpath k l hslot
        rw [hchanges.records _ houtside]
        exact hf.records i hi b hb hmissing k
    · intro k slot hslot
      rw [hchanges.rows k slot (hslot j hlast a ha)]
      exact hf.otherRows k slot fun i hi => hslot i (hearlier hi)
    · intro slot hslot
      have hkept : st₂.catalog.rows slot = st₁.catalog.rows slot := by
        by_cases hmissing : a.missing = 0
        · exact hchanges.records slot (hslot j hlast a ha hmissing)
        · rw [hchanges.catalog hmissing]
      rw [hkept]
      exact hf.otherRecords slot fun i hi => hslot i (hearlier hi)

/-- Jobs that are settled one after another meet their fates, and leave what they are to leave. -/
theorem Store.Takes.finishes (hserves : h.Serves files provider) (hl : st.Linked)
    (hworking : ∀ x ∈ told, x.job.change ≠ .unchanged)
    (hsame : ∀ x ∈ told, ∀ y ∈ told, x.job.path = y.job.path → x.job = y.job)
    (ht : st.Takes h s told st') : st.Finishes files s provider (told.map Told.job) st' ∧
      ∀ x ∈ told, x.fate = files.fateOf s provider x.job ∧ x.fate ≠ .failed .cancelled := by
  induction ht with
  | nothing => exact ⟨.nothing hl, by simp⟩
  | @next told x st₁ st₂ _ hsettles ih =>
    have hx : x ∈ told ++ [x] := List.mem_append_right _ List.mem_cons_self
    obtain ⟨hf, hfates⟩ := ih (fun y hy => hworking y (List.mem_append_left _ hy))
      fun y hy z hz => hsame y (List.mem_append_left _ hy) z (List.mem_append_left _ hz)
    constructor
    · rw [List.map_append]
      apply hf.settle hserves (hworking x hx) ?_ hsettles
      intro i hi
      obtain ⟨y, hy, rfl⟩ := List.mem_map.mp hi
      exact hsame y (List.mem_append_left _ hy) x hx
    · intro y hy
      rcases List.mem_append.mp hy with hy | hy
      · exact hfates y hy
      · rw [List.mem_singleton.mp hy]
        exact hsettles.fate_eq hserves (hworking x hx) hf.linked

/-- The same jobs leave the same rows and records, in whatever order they are done. -/
theorem Store.Finishes.alike {jobs' : List Job} (hf : st.Finishes files s provider jobs st₁)
    (hf' : st.Finishes files s provider jobs' st₂) (hsame : ∀ j, j ∈ jobs ↔ j ∈ jobs') :
    st₁.Alike st₂ := by
  constructor
  · intro k slot
    by_cases hdone : ∃ j ∈ jobs, ∃ a, files.actFor s provider j = .ok a ∧
        slot = j.scope.slot k j.path
    · obtain ⟨j, hj, a, ha, rfl⟩ := hdone
      rw [hf.rows j hj a ha k, hf'.rows j ((hsame j).mp hj) a ha k]
    · rw [hf.otherRows k slot fun j hj a ha hslot => hdone ⟨j, hj, a, ha, hslot⟩,
        hf'.otherRows k slot fun j hj a ha hslot => hdone ⟨j, (hsame j).mpr hj, a, ha, hslot⟩]
  · intro slot
    by_cases hdone : ∃ j ∈ jobs, ∃ a, files.actFor s provider j = .ok a ∧ a.missing = 0 ∧
        slot ∈ j.scope.slots j.path
    · obtain ⟨j, hj, a, ha, hmissing, hslot⟩ := hdone
      obtain ⟨k, rfl⟩ := Scope.mem_slots.mp hslot
      rw [hf.records j hj a ha hmissing k, hf'.records j ((hsame j).mp hj) a ha hmissing k]
    · rw [hf.otherRecords slot fun j hj a ha hmissing hslot =>
          hdone ⟨j, hj, a, ha, hmissing, hslot⟩,
        hf'.otherRecords slot fun j hj a ha hmissing hslot =>
          hdone ⟨j, (hsame j).mpr hj, a, ha, hmissing, hslot⟩]

/-- The items that tell of files, whatever share of the work was done. -/
def Progress.perFile (items : List Progress) : List Progress :=
  (items.filter (·.path.isSome)).map fun x => { x with fraction := .zero }

def Rejected.telling (file : Rejected) : Progress :=
  { Progress.fileFailed .zero file.path none file.reason with fraction := .zero }

def Job.telling (fate : Job.Fate) (j : Job) : Progress :=
  { fate.item .zero j with fraction := .zero }

theorem Progress.per_file_append (xs ys : List Progress) :
    perFile (xs ++ ys) = perFile xs ++ perFile ys := by
  rw [perFile, List.filter_append, List.map_append]
  rfl

theorem Plan.per_file_opening (p : Plan) (rejected : List Rejected) :
    Progress.perFile (p.opening rejected) = rejected.map Rejected.telling := by
  induction rejected using List.reverseRecOn with
  | nil => rfl
  | append_singleton rejected file ih =>
    rw [opening_snoc, Progress.per_file_append, ih, List.map_append]
    rfl

theorem Told.per_file_items (total n : Nat) (x : Told) :
    Progress.perFile (x.items total n) = [x.job.telling x.fate] := by
  have hpauses : ∀ (held : Bool) (fraction : Binary32),
      Progress.perFile (Progress.pauses held fraction) = [] := by
    intro held fraction
    cases held <;> rfl
  rw [items, Progress.per_file_append, hpauses, List.nil_append]
  cases x.fate with
  | written lost => cases lost <;> rfl
  | failed e => rfl

theorem Plan.per_file_tellings (p : Plan) (told : List Told) :
    Progress.perFile (p.tellings told) = told.map fun x => x.job.telling x.fate := by
  induction told using List.reverseRecOn with
  | nil => rfl
  | append_singleton told x ih =>
    rw [tellings_snoc, Progress.per_file_append, ih, Told.per_file_items, List.map_append]
    rfl

theorem Plan.per_file_stream (p : Plan) (told : List Told) :
    Progress.perFile (p.stream told .done) =
      p.rejected.map Rejected.telling ++ told.map fun x => x.job.telling x.fate := by
  have hclosing : Progress.perFile (p.closing told .done) = [] := rfl
  rw [stream, Progress.per_file_append, Progress.per_file_append, hclosing, per_file_opening,
    per_file_tellings, List.append_nil]

/-- A path has one job, that for its owner. -/
theorem job_of_path {i j : Job} (hi : i ∈ (files.planFiles dirs ps).jobs)
    (hj : j ∈ (files.planFiles dirs ps).jobs) (hpath : i.path = j.path) : i = j := by
  obtain ⟨p, -, dir, hdir, rfl⟩ := mem_plan_files.mp hi
  obtain ⟨q, -, dir', hdir', rfl⟩ := mem_plan_files.mp hj
  obtain rfl : p = q := hpath
  cases hdir.symm.trans hdir'
  rfl

/-- What a refresh of named files comes to. -/
theorem Run.Yields.files_done (hpresents : h.Presents files dirs)
    (hserves : h.Serves files provider) (hl : st.Linked) {items : List Progress} {r : Run}
    (hy : (Run.ofFiles ps).Yields h s st items r st')
    (hdone : ∃ item ∈ items, item.status = .done) :
    st.Finishes files s provider (files.planFiles dirs ps).jobs st' ∧
      (∀ j ∈ (files.planFiles dirs ps).jobs, files.fateOf s provider j ≠ .failed .cancelled) ∧
      Progress.perFile items = (files.planFiles dirs ps).rejected.map Rejected.telling ++
        (files.planFiles dirs ps).jobs.map fun j => j.telling (files.fateOf s provider j) := by
  obtain ⟨item, hitem, -⟩ := id hdone
  obtain ⟨told, htaken, hs⟩ := (hy.of_files hpresents (List.ne_nil_of_mem hitem)).tells_of
  obtain ⟨rfl, htold, -⟩ := hs.done (fun _ hj => plan_files_working hj) hdone
  have hjob : ∀ x ∈ told, x.job ∈ (files.planFiles dirs ps).jobs := fun x hx =>
    htold ▸ List.mem_map_of_mem hx
  obtain ⟨hfinishes, hfates⟩ := htaken.finishes hserves hl
    (fun x hx => plan_files_working (hjob x hx))
    fun x hx y hy => job_of_path (hjob x hx) (hjob y hy)
  rw [htold] at hfinishes
  refine ⟨hfinishes, ?_, ?_⟩
  · intro j hj
    rw [← htold] at hj
    obtain ⟨x, hx, rfl⟩ := List.mem_map.mp hj
    obtain ⟨hfate, hne⟩ := hfates x hx
    rwa [← hfate]
  · rw [Plan.per_file_stream, ← htold, List.map_map]
    congr 1
    apply List.map_congr_left
    intro x hx
    rw [(hfates x hx).1]
    rfl

/-- A job that is not given up as cancelled can be worked off. -/
theorem goes_of_fate (hj : j.change ≠ .unchanged)
    (hfate : files.fateOf s provider j ≠ .failed .cancelled) : j.Goes files s := by
  refine ⟨hj, ?_⟩
  intro hchange hread
  apply hfate
  rw [Files.fateOf, Files.actFor, if_neg hchange, hread]

theorem plan_files_perm {qs : List Path} (hperm : qs.Perm ps) :
    (files.planFiles dirs qs).jobs.Perm (files.planFiles dirs ps).jobs ∧
      (files.planFiles dirs qs).rejected.Perm (files.planFiles dirs ps).rejected := by
  rw [plan_files_eq, plan_files_eq]
  exact ⟨hperm.flatMap_right _, hperm.flatMap_right _⟩

end

/-- Files that are named in another order, while they stay as they are and the provider answers
every batch by a fixed function. The refresh comes to its end as well, leaves the same store, and
reports the same of each file. -/
theorem named_in_any_order {σ τ : Type} {h : Host σ} {h' : Host τ} {files : Files}
    {s : Settings} {S : Settings → Prop} {R : Rules}
    {provider : List Text → Except ProviderError (List Embedding)} {dirs ps qs : List Path}
    {st st₁ : Store} {items : List Progress} {r : Run}
    (hst : Reached S R st) (hpresents : h.Presents files dirs) (hserves : h.Serves files provider)
    (hpresents' : h'.Presents files dirs) (hserves' : h'.Serves files provider)
    (hperm : qs.Perm ps) (hy : (Run.ofFiles ps).Yields h s st items r st₁)
    (hdone : ∃ item ∈ items, item.status = .done) :
    (∃ items' r' st₂, (Run.ofFiles qs).Yields (files.workspace dirs provider) s st items' r' st₂ ∧
      ∃ item ∈ items', item.status = .done) ∧
    ∀ items' r' st₂, (Run.ofFiles qs).Yields h' s st items' r' st₂ →
      (∃ item ∈ items', item.status = .done) →
        st₂.Alike st₁ ∧ (Progress.perFile items').Perm (Progress.perFile items) := by
  obtain ⟨journal, -, ht⟩ := hst.tells
  obtain ⟨hjobs, hrejected⟩ : (files.planFiles dirs qs).jobs.Perm (files.planFiles dirs ps).jobs ∧
      (files.planFiles dirs qs).rejected.Perm (files.planFiles dirs ps).rejected :=
    plan_files_perm hperm
  obtain ⟨hfinishes, hfates, hitems⟩ := hy.files_done hpresents hserves ht.linked hdone
  constructor
  · have hgoes : ∀ j ∈ (files.planFiles dirs qs).jobs, j.Goes files s := fun j hj =>
      goes_of_fate (plan_files_working hj) (hfates j (hjobs.mem_iff.mp hj))
    obtain ⟨items', r', st₂, hy', ⟨item, hitem, hdone'⟩, -⟩ :=
      plan_runs dirs provider hgoes ht.linked
    exact ⟨items', r', st₂, hy'.for_files (files.workspace_presents dirs provider)
      (List.ne_nil_of_mem hitem), item, hitem, hdone'⟩
  · intro items' r' st₂ hy' hdone'
    obtain ⟨hfinishes', -, hitems'⟩ := hy'.files_done hpresents' hserves' ht.linked hdone'
    refine ⟨hfinishes'.alike hfinishes fun j => hjobs.mem_iff, ?_⟩
    rw [hitems, hitems']
    exact (hrejected.map _).append (hjobs.map _)

/-- A file that is indexed, one that loses its vector, and one that is too large. -/
def Files.mixed : Files :=
  .ofList [("/d/a.md", [97]), ("/d/z.md", [122]), ("/d/long.md", [97, 97])]

/-- A provider that cannot embed one of the letters. -/
def choosy : List Text → Except ProviderError (List Embedding) := fun batch =>
  if batch.any ('z' ∈ ·) then .error .unavailable else .ok (batch.map fun _ => [.one])

/-- One file is named twice, one is missing, and one is in no directory. -/
theorem named_in_any_order_mixed : ∃ s items r st₁ items' r' st₂,
    Reached (· = s) .refreshing .empty ∧
    (Run.ofFiles ["/d/a.md", "/x/b.md", "/d/z.md", "/d/gone.md", "/d/a.md", "/d/long.md"]).Yields
      (Files.mixed.workspace ["/d"] choosy) s .empty items r st₁ ∧
    (Run.ofFiles ["/d/long.md", "/d/a.md", "/d/gone.md", "/d/a.md", "/x/b.md", "/d/z.md"]).Yields
      (Files.mixed.workspace ["/d"] choosy) s .empty items' r' st₂ ∧
    (Progress.perFile items).map Progress.status =
      [.failed, .indexing, .failed, .indexing, .indexing, .failed] ∧
    (Progress.perFile items').map Progress.status =
      [.failed, .failed, .indexing, .indexing, .indexing, .failed] ∧
    st₂.Alike st₁ ∧ (Progress.perFile items').Perm (Progress.perFile items) := by
  let s : Settings := { Settings.standard with maxFileSize := 1 }
  let h := Files.mixed.workspace ["/d"] choosy
  have hpresents := Files.mixed.workspace_presents ["/d"] choosy
  have hserves := Files.mixed.workspace_serves ["/d"] choosy
  let ps := ["/d/a.md", "/x/b.md", "/d/z.md", "/d/gone.md", "/d/a.md", "/d/long.md"]
  let qs := ["/d/long.md", "/d/a.md", "/d/gone.md", "/d/a.md", "/x/b.md", "/d/z.md"]
  have hreordered : qs.Perm ps := by decide
  have hy := (Run.ofFiles ps).take_yields (h := h) (s := s) 20 .empty ()
  have hy' := (Run.ofFiles qs).take_yields (h := h) (s := s) 20 .empty ()
  have hempty : Reached (· = s) .refreshing .empty := .empty
  obtain ⟨-, hother⟩ := named_in_any_order hempty hpresents hserves hpresents hserves hreordered
    hy (by decide +kernel)
  obtain ⟨halike, hperm⟩ := hother _ _ _ hy' (by decide +kernel)
  refine ⟨s, _, _, _, _, _, _, .empty, hy, hy', ?_, ?_, halike, hperm⟩
  all_goals decide +kernel

/-- A directory with two files at rest whose names are different bytes and the same text. -/
def RawPath.alikeHost : Host Unit RawPath where
  dirs := pure [.ofText "/d"]
  branch _ := pure noBranch
  list _ := pure (.ok alike)
  read p := pure (.ok (if some p = alike.head? then [97] else [98]))
  embed batch := pure (some (answering (fun _ => [.one]) batch))
  isCancelled := pure false
  isPaused := pure false

/-- The two files are written under one text, and the one that is named last stays. -/
theorem named_order_counts_alike : ∃ items r st items' r' st',
    (Run.ofFiles RawPath.alike).Yields RawPath.alikeHost .standard .empty items r st ∧
    (Run.ofFiles RawPath.alike.reverse).Yields RawPath.alikeHost .standard .empty items' r' st' ∧
    (∃ item ∈ items, item.status = .done) ∧ (∃ item ∈ items', item.status = .done) ∧
    ¬ st'.Alike st := by
  have hy := (Run.ofFiles RawPath.alike).take_yields (h := RawPath.alikeHost) (s := .standard) 10
    .empty ()
  have hy' := (Run.ofFiles RawPath.alike.reverse).take_yields (h := RawPath.alikeHost)
    (s := .standard) 10 .empty ()
  refine ⟨_, _, _, _, _, _, hy, hy', ?_, ?_, fun halike => ?_⟩
  · decide +kernel
  · decide +kernel
  · have hrecords := halike.records ((Scope.mk noBranch "/d").slot .metadata "/d/a\uFFFD.md")
    revert hrecords
    decide +kernel

end CodeIndex
