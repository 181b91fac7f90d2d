import CodeIndex.Proofs.AtRest
import CodeIndex.Proofs.Atomicity

namespace CodeIndex

/-- A provider that answers each batch by a fixed function. -/
def Fixed (provider : List Text → Except ProviderError (List Embedding)) : ReplyRule :=
  fun batch reply => reply = none ∨ reply = some (provider batch)

/-- The entries of batches that are answered by a fixed function. -/
def entriesOf (provider : List Text → Except ProviderError (List Embedding))
    (batches : List (List Text)) : List (Option Embedding) :=
  batches.flatMap fun batch => vectorsOf batch.length (provider batch)

theorem Answers.fixed {provider : List Text → Except ProviderError (List Embedding)}
    {batches : List (List Text)} {vectors : List (Option Embedding)}
    (h : Answers (Fixed provider) batches vectors) : vectors = entriesOf provider batches := by
  induction h with
  | nil => rfl
  | cons reply hreply hrest ih =>
    rcases hreply with hnone | hsome
    · cases hnone
    · cases hsome
      rw [ih, entriesOf, entriesOf, List.flatMap_cons]

/-- A host that shows files at rest, with a provider that answers each batch by a fixed function,
unless the refresh is cancelled meanwhile. -/
structure Host.Serves (h : Host σ) (files : Files)
    (provider : List Text → Except ProviderError (List Embedding)) : Prop
    extends h.Shows files where
  replies : ∀ batch w, Fixed provider batch ((h.embed batch).run w).1

theorem Files.host_serves (files : Files)
    (provider : List Text → Except ProviderError (List Embedding)) :
    (files.host provider).Serves files provider :=
  ⟨files.host_shows provider, fun _ _ => Or.inr rfl⟩

theorem Files.workspace_serves (files : Files) (dirs : List Path)
    (provider : List Text → Except ProviderError (List Embedding)) :
    (files.workspace dirs provider).Serves files provider :=
  ⟨files.workspace_shows dirs provider, fun _ _ => Or.inr rfl⟩

theorem Files.switched_serves (files : Files)
    (provider : List Text → Except ProviderError (List Embedding)) :
    (files.switched provider).Serves files provider :=
  ⟨files.switched_shows provider, fun _ _ => Or.inr rfl⟩

/-- What is to be done about a path of a directory, if anything can be done. -/
def Files.act? (files : Files) (s : Settings)
    (provider : List Text → Except ProviderError (List Embedding)) (dir p : Path) : Option Act :=
  match files.list dir with
  | .error _ => none
  | .ok listed =>
    if p ∈ listed then
      match files.readWithin s.maxFileSize p with
      | .error _ => none
      | .ok bytes =>
        match s.chunksOf p bytes with
        | .error _ => none
        | .ok cs =>
          some (.write s (files.scope dir) p bytes
            (entriesOf provider (s.batches (.ofBytes p bytes) cs)))
    else some (.remove (files.scope dir) p)

/-- The file of a job can be done in full: nothing is lost of it. -/
def Job.InFull (files : Files) (s : Settings)
    (provider : List Text → Except ProviderError (List Embedding)) (j : Job) : Prop :=
  ∃ a, files.act? s provider j.scope.directory j.path = some a ∧ a.complete

section
variable {σ : Type} {h : Host σ} {files : Files} {s : Settings} {st st' : Store}
  {provider : List Text → Except ProviderError (List Embedding)} {dir : Path} {j : Job}

/-- The act of a job is what is to be done about its path. -/
theorem act_of_acts (hserves : h.Serves files provider) (hj : j.Of files s dir) {a : Act}
    (ha : j.Acts h s a) : files.act? s provider dir j.path = some a := by
  cases ha with
  | remove hchange =>
    obtain ⟨listed, hlist, hp⟩ := hj.gone hchange
    simp only [Files.act?, hlist, if_neg hp, hj.scope]
  | @write bytes cs vectors w hchange hread hchunks hanswers =>
    obtain ⟨listed, -, hlist, hp, -⟩ := hj.present hchange
    have hfixed : Answers (Fixed provider) (s.batches (.ofBytes j.path bytes) cs) vectors := by
      refine hanswers.mono ?_
      intro batch reply hreply
      obtain ⟨w, rfl⟩ := hreply
      exact hserves.replies batch w
    rw [read_within_at_rest hserves.toShows] at hread
    simp only [Files.act?, hlist, if_pos hp, hread, hchunks, ← hfixed.fixed, hj.scope]

/-- A job that is given up is one for a path that nothing can be done about. -/
theorem act_of_error (hserves : h.Serves files provider) (hj : j.Of files s dir)
    (hl : st.Linked) {err : IndexError} {w : σ}
    (hindex : ((j.index h s st).run w).1 = .error err) (hne : err ≠ .cancelled) :
    files.act? s provider dir j.path = none := by
  obtain ⟨hchange, hcause⟩ := index_error hl hj.working hindex hne
  obtain ⟨listed, bytes, hlist, hp, hread⟩ := hj.present hchange
  rw [read_within_at_rest hserves.toShows, hread] at hcause
  rcases hcause with hfailed | ⟨bytes', hsame, hchunks⟩
  · cases hfailed
  · cases hsame
    simp only [Files.act?, hlist, if_pos hp, hread, hchunks]

/-- A job is indexed in full exactly if its file can be. -/
theorem Job.Settles.clean_iff (hserves : h.Serves files provider) (hj : j.Of files s dir)
    (hl : st.Linked) {fate : Job.Fate} (hs : j.Settles h s st fate st') :
    fate.isClean ↔ j.InFull files s provider := by
  rw [Job.InFull, hj.directory]
  cases hs with
  | @written lost _ w hindex =>
    obtain ⟨a, hacts, hlost, -⟩ := index_changes hl hj.working hindex
    have hclean : (Job.Fate.written lost).isClean ↔ lost = 0 :=
      decide_eq_true_iff.trans (Job.Fate.written.injEq lost 0).to_iff
    rw [act_of_acts hserves hj hacts, hclean, hlost, a.missing_eq_zero_iff]
    refine ⟨fun hcomplete => ⟨a, rfl, hcomplete⟩, ?_⟩
    intro hfull
    obtain ⟨b, hsame, hcomplete⟩ := hfull
    cases hsame
    exact hcomplete
  | @failed e w hindex he =>
    rw [act_of_error hserves hj hl hindex he]
    refine ⟨fun hclean => ?_, fun hfull => ?_⟩
    · cases of_decide_eq_true hclean
    · obtain ⟨a, hnone, -⟩ := hfull
      cases hnone

/-- A job that is settled has done what is to be done about its path. -/
theorem Job.Settles.outcome (hserves : h.Serves files provider) (hj : j.Of files s dir)
    {journal : List Act} (ht : st.Tells journal) {fate : Job.Fate}
    (hs : j.Settles h s st fate st') :
    st'.Tells (journal ++ (files.act? s provider j.scope.directory j.path).toList) ∧
      (fate.isClean ↔ j.InFull files s provider) := by
  refine ⟨?_, hs.clean_iff hserves hj ht.linked⟩
  rw [hj.directory]
  cases hs with
  | written w hindex =>
    obtain ⟨a, hacts, -, htells⟩ := index_tells ht hj.working hindex
    rw [act_of_acts hserves hj hacts]
    exact htells
  | failed w hindex he =>
    rw [act_of_error hserves hj ht.linked hindex he, Option.toList_none, List.append_nil]
    exact ht

end

/-- All that is to be done about the paths of some jobs. -/
def Files.acts (files : Files) (s : Settings)
    (provider : List Text → Except ProviderError (List Embedding)) (jobs : List Job) : List Act :=
  jobs.flatMap fun j => (files.act? s provider j.scope.directory j.path).toList

/-- How a path stands once all is done about it. -/
def Files.leave (files : Files) (s : Settings)
    (provider : List Text → Except ProviderError (List Embedding)) (dir p : Path) (x : Standing) :
    Standing :=
  match files.act? s provider dir p with
  | some a => a.leaves x
  | none => x

theorem Act.leaves_leaves (a : Act) (x : Standing) : a.leaves (a.leaves x) = a.leaves x := by
  cases a with
  | write t p bytes vectors =>
    simp only [leaves]
    split <;> rfl
  | remove | clear => rfl

section
variable {σ : Type} {h : Host σ} {files : Files} {s : Settings} {st st' : Store}
  {provider : List Text → Except ProviderError (List Embedding)} {dirs : List Path}

theorem leave_leave (dir p : Path) (x : Standing) :
    files.leave s provider dir p (files.leave s provider dir p x) =
      files.leave s provider dir p x := by
  rw [Files.leave, Files.leave]
  cases files.act? s provider dir p with
  | none => rfl
  | some a => exact a.leaves_leaves x

theorem touches_of_act {dir q : Path} {a : Act} (ha : files.act? s provider dir q = some a)
    (k : ArtifactKind) (scope : Scope) (p : Path) :
    a.touches k scope p ↔ scope.stem = (files.scope dir).stem ∧ p = q := by
  have hwrite : ∀ {bytes vectors},
      (Act.write s (files.scope dir) q bytes vectors).touches k scope p ↔
        scope.stem = (files.scope dir).stem ∧ p = q := decide_eq_true_iff
  rw [Files.act?] at ha
  split at ha
  · cases ha
  · split at ha
    · split at ha
      · cases ha
      · split at ha
        · cases ha
        · cases ha
          exact hwrite
    · cases ha
      exact decide_eq_true_iff

/-- An act that loses nothing records what is to be recorded. -/
theorem record_of_act {dir p : Path} {a : Act} (ha : files.act? s provider dir p = some a)
    (hcomplete : a.complete) (x : Standing) :
    files.record? s dir p = some ((a.leaves x).recorded.map hashBytes) := by
  rw [Files.act?] at ha
  split at ha
  · cases ha
  · rename_i listed hlist
    split at ha
    · rename_i hlisted
      split at ha
      · cases ha
      · rename_i bytes hread
        split at ha
        · cases ha
        · cases ha
          rw [record_listed hlist hlisted hread, Act.recorded_of_complete hcomplete,
            Option.map_some]
    · rename_i hlisted
      cases ha
      rw [record_unlisted hlist hlisted]
      rfl

theorem Store.Takes.outcome (hserves : h.Serves files provider) {told : List Told}
    (hjobs : ∀ x ∈ told, ∃ dir ∈ dirs, x.job.Of files s dir) {journal : List Act}
    (ht : st.Tells journal) (htaken : st.Takes h s told st') :
    st'.Tells (journal ++ files.acts s provider (told.map Told.job)) ∧
      ∀ x ∈ told, x.fate.isClean → x.job.InFull files s provider := by
  induction htaken with
  | nothing =>
    refine ⟨?_, by simp⟩
    rw [List.map_nil, Files.acts, List.flatMap_nil, List.append_nil]
    exact ht
  | @next told x st₁ st₂ _ hsettles ih =>
    obtain ⟨ht₁, hclean⟩ := ih fun y hy => hjobs y (List.mem_append_left _ hy)
    obtain ⟨dir, -, hj⟩ := hjobs x (by simp)
    obtain ⟨ht₂, hx⟩ := hsettles.outcome hserves hj ht₁
    constructor
    · rw [List.map_append, Files.acts, List.flatMap_append, ← List.append_assoc]
      simpa [Files.acts] using ht₂
    · intro y hy
      rcases List.mem_append.mp hy with hy | hy
      · exact hclean y hy
      · rw [List.mem_singleton.mp hy]
        exact hx.mp

/-- The paths of some jobs stand as all that is to be done about them leaves them, once or more
often, and other paths stand as they did. -/
theorem standing_acts (provider : List Text → Except ProviderError (List Embedding))
    (hapart : files.Apart dirs) {jobs : List Job}
    (hjobs : ∀ j ∈ jobs, ∃ dir ∈ dirs, j.Of files s dir) {dir : Path} (hdir : dir ∈ dirs)
    (k : ArtifactKind) (p : Path) (journal : List Act) :
    ((∃ j ∈ jobs, j.scope = files.scope dir ∧ j.path = p) →
        standing k (files.scope dir) p (journal ++ files.acts s provider jobs) =
          files.leave s provider dir p (standing k (files.scope dir) p journal)) ∧
      ((¬ ∃ j ∈ jobs, j.scope = files.scope dir ∧ j.path = p) →
        standing k (files.scope dir) p (journal ++ files.acts s provider jobs) =
          standing k (files.scope dir) p journal) := by
  -- An act on the path is what is to be done about it.
  have hsource : ∀ a ∈ files.acts s provider jobs, a.touches k (files.scope dir) p →
      files.act? s provider dir p = some a ∧
        ∃ j ∈ jobs, j.scope = files.scope dir ∧ j.path = p := by
    intro a ha htouches
    obtain ⟨j, hj, hact⟩ := List.mem_flatMap.mp ha
    rw [Option.mem_toList] at hact
    obtain ⟨dir', hdir', hof⟩ := hjobs j hj
    rw [hof.directory] at hact
    obtain ⟨hstem, rfl⟩ := (touches_of_act hact k (files.scope dir) p).mp htouches
    cases hapart dir hdir dir' hdir' hstem
    exact ⟨hact, j, hj, hof.scope, rfl⟩
  have hleaves : ∀ a ∈ files.acts s provider jobs, a.touches k (files.scope dir) p →
      ∀ y, y = standing k (files.scope dir) p journal ∨
        y = files.leave s provider dir p (standing k (files.scope dir) p journal) →
      a.leaves y = files.leave s provider dir p (standing k (files.scope dir) p journal) := by
    intro a ha htouches y hy
    have hleave : a.leaves y = files.leave s provider dir p y := by
      rw [Files.leave, (hsource a ha htouches).1]
    rw [hleave]
    rcases hy with rfl | rfl
    · rfl
    · exact leave_leave dir p _
  have happended := standing_append
    (· = files.leave s provider dir p (standing k (files.scope dir) p journal)) hleaves
  constructor
  · intro hjob
    split at happended
    · exact happended
    · rename_i huntouched
      have hnone : files.act? s provider dir p = none := by
        cases hact : files.act? s provider dir p with
        | none => rfl
        | some a =>
          obtain ⟨j, hj, hscope, hpath⟩ := hjob
          refine absurd (List.any_eq_true.mpr ⟨a, ?_, ?_⟩) huntouched
          · have hdirectory : j.scope.directory = dir := congrArg Scope.directory hscope
            refine List.mem_flatMap.mpr ⟨j, hj, ?_⟩
            rw [hdirectory, hpath, hact]
            exact List.mem_singleton_self a
          · exact (touches_of_act hact k (files.scope dir) p).mpr ⟨rfl, rfl⟩
      rw [happended, Files.leave, hnone]
  · intro hnone
    rwa [if_neg] at happended
    intro htouched
    obtain ⟨a, ha, htouches⟩ := List.any_eq_true.mp htouched
    exact hnone (hsource a ha htouches).2

end

end CodeIndex
