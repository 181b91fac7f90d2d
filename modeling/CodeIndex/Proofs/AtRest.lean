import CodeIndex.Proofs.Files

namespace CodeIndex
namespace Files

/-- Reads a file that is not larger than `limit` bytes. -/
def readWithin (files : Files) (limit : Nat) (p : Path) : Except IndexError Bytes :=
  (files.read p).bind fun bytes =>
    if limit < bytes.length then .error (.fileTooLarge p bytes.length limit) else .ok bytes

def hash? (files : Files) (limit : Nat) (p : Path) : Option String :=
  match files.readWithin limit p with
  | .ok bytes => some (hashBytes bytes)
  | .error _ => none

def rejected? (files : Files) (limit : Nat) (p : Path) : Option Rejected :=
  match files.readWithin limit p with
  | .ok _ => none
  | .error e => some ⟨p, e.text⟩

/-- The work on one directory. -/
def planDir (files : Files) (s : Settings) (st : Store) (dir : Path) : Except IndexError Plan :=
  (files.list dir).map fun listed =>
    ⟨st.jobs (files.scope dir) listed (files.hash? s.maxFileSize),
      listed.filterMap (files.rejected? s.maxFileSize)⟩

def planDirs (files : Files) (s : Settings) (st : Store) : List Path → Except IndexError Plan
  | [] => .ok .empty
  | dir :: dirs =>
    match files.planDir s st dir with
    | .error e => .error e
    | .ok plan =>
      match planDirs files s st dirs with
      | .error e => .error e
      | .ok rest => .ok (plan.append rest)

/-- What is to be recorded of a path: the hash of a file that is listed, and nothing of any other
path. There is no telling for a file that cannot be read. -/
def record? (files : Files) (s : Settings) (dir p : Path) : Option (Option String) :=
  match files.list dir with
  | .error _ => none
  | .ok listed =>
    if p ∈ listed then (files.hash? s.maxFileSize p).map some else some none

end Files

/-- A job of a directory, for a listed file that can be read or for a path that is not listed. -/
structure Job.Of (files : Files) (s : Settings) (dir : Path) (j : Job) : Prop where
  scope : j.scope = files.scope dir
  working : j.change ≠ .unchanged
  listed : ∃ listed, files.list dir = .ok listed ∧ (j.change = .removed ↔ j.path ∉ listed)
  read : j.change ≠ .removed → ∃ bytes, files.readWithin s.maxFileSize j.path = .ok bytes

section
variable {σ : Type} {h : Host σ} {files : Files} {s : Settings} {st : Store}

theorem read_within_at_rest (hshows : h.Shows files) (limit : Nat) (p : Path) (w : σ) :
    ((h.readWithin limit p).run w).1 = files.readWithin limit p := by
  rw [read_within_eq, hshows.read, Files.readWithin]

theorem read_all_at_rest (hshows : h.Shows files) (limit : Nat) (listed : List Path) (w : σ) :
    ((Plan.readAll h limit listed).run w).1 =
      (listed.filterMap fun p => (files.hash? limit p).map (p, ·),
        listed.filterMap (files.rejected? limit)) := by
  induction listed generalizing w with
  | nil => rfl
  | cons p ps ih =>
    have hread := read_within_at_rest hshows limit p w
    rw [Plan.readAll, run_bind, run_bind]
    generalize (h.readWithin limit p).run w = answer at hread ⊢
    obtain ⟨bytes, w₁⟩ := answer
    have hrest := ih w₁
    generalize (Plan.readAll h limit ps).run w₁ = rest at hrest ⊢
    obtain ⟨read, w₂⟩ := rest
    subst hrest
    cases bytes with
    | ok bytes =>
      have hhash : files.hash? limit p = some (hashBytes bytes) := by rw [Files.hash?, ← hread]
      have hkept : files.rejected? limit p = none := by rw [Files.rejected?, ← hread]
      simp only [List.filterMap_cons, hhash, hkept, Option.map_some]
      rfl
    | error e =>
      have hhash : files.hash? limit p = none := by rw [Files.hash?, ← hread]
      have hrejected : files.rejected? limit p = some ⟨p, e.text⟩ := by
        rw [Files.rejected?, ← hread]
      simp only [List.filterMap_cons, hhash, hrejected, Option.map_none]
      rfl

theorem hash_same (limit : Nat) {p q : Path} (hsame : Path.same p q) :
    files.hash? limit p = files.hash? limit q := by
  rw [Files.hash?, Files.hash?, Files.readWithin, Files.readWithin, files.read_same hsame]
  cases files.read q with
  | error e => rfl
  | ok bytes => by_cases hsize : limit < bytes.length <;> simp [Except.bind, hsize]

/-- A listed file is looked up by its own hash, whatever spellings of it are listed besides. -/
theorem hash_in_at_rest (limit : Nat) {listed : List Path} {p : Path} (hp : p ∈ listed) :
    Plan.hashIn (listed.filterMap fun p => (files.hash? limit p).map (p, ·)) p =
      files.hash? limit p := by
  have hmem : ∀ q hash, (q, hash) ∈ listed.filterMap (fun p => (files.hash? limit p).map (p, ·)) ↔
      q ∈ listed ∧ files.hash? limit q = some hash := by
    intro q hash
    simp [List.mem_filterMap, Option.map_eq_some_iff]
  cases hhash : files.hash? limit p with
  | none =>
    rw [Plan.hashIn, List.find?_eq_none.mpr]
    · rfl
    · intro e he hspelled
      obtain ⟨q, hash⟩ := e
      obtain ⟨-, hq⟩ := (hmem q hash).mp (List.mem_reverse.mp he)
      have hsame : Path.same q p := hspelled
      rw [hash_same limit hsame, hhash] at hq
      cases hq
  | some hash =>
    apply Plan.hash_in_of_read ⟨hash, (hmem p hash).mpr ⟨hp, hhash⟩⟩
    intro e he hsame
    obtain ⟨q, hash'⟩ := e
    obtain ⟨-, hq⟩ := (hmem q hash').mp he
    rw [hash_same limit hsame, hhash] at hq
    exact (Option.some.inj hq).symm

theorem jobs_congr {scope : Scope} {listed : List Path} {hashOf hashOf' : Path → Option String}
    (hsame : ∀ p ∈ listed, hashOf p = hashOf' p) :
    st.jobs scope listed hashOf = st.jobs scope listed hashOf' := by
  have hlisted : FileChange.listedChanges (st.catalogs scope) listed hashOf =
      FileChange.listedChanges (st.catalogs scope) listed hashOf' := by
    apply List.filterMap_congr
    intro p hp
    rw [hsame p hp]
  rw [Store.jobs, Store.jobs, FileChange.plan, FileChange.plan, hlisted]

theorem of_dir_at_rest (hshows : h.Shows files) (dir : Path) (w : σ) :
    ((Plan.ofDir h s (fun _ => st) dir).run w).1 = files.planDir s st dir := by
  have hlist := hshows.list dir w
  rw [Plan.ofDir, run_bind, Files.planDir]
  generalize (h.list dir).run w = answer at hlist ⊢
  obtain ⟨listed, w₁⟩ := answer
  rw [← hlist]
  cases listed with
  | error e => rfl
  | ok listed =>
    have hjobs : st.jobs (files.scope dir) listed
        (Plan.hashIn (listed.filterMap fun p => (files.hash? s.maxFileSize p).map (p, ·))) =
        st.jobs (files.scope dir) listed (files.hash? s.maxFileSize) :=
      jobs_congr fun p hp => hash_in_at_rest s.maxFileSize hp
    simp only [run_bind, run_pure, Host.scope, hshows.branch, read_all_at_rest hshows]
    rw [Except.map, ← hjobs]
    rfl

theorem of_dirs_at_rest (hshows : h.Shows files) (dirs : List Path) (w : σ) :
    ((Plan.ofDirs h s st dirs).run w).1 = files.planDirs s st dirs := by
  induction dirs generalizing w with
  | nil => rfl
  | cons dir dirs ih =>
    have hdir : ((Plan.ofDir h s (fun _ => st) dir).run w).1 = files.planDir s st dir :=
      of_dir_at_rest hshows dir w
    rw [Plan.ofDirs, run_bind, Files.planDirs]
    generalize (Plan.ofDir h s (fun _ => st) dir).run w = first at hdir ⊢
    obtain ⟨first, w₁⟩ := first
    rw [← hdir]
    cases first with
    | error e => rfl
    | ok first =>
      have hdirs := ih w₁
      simp only [run_bind]
      generalize (Plan.ofDirs h s st dirs).run w₁ = rest at hdirs ⊢
      obtain ⟨rest, w₂⟩ := rest
      rw [← hdirs]
      cases rest <;> rfl

/-- What the plan of several directories holds. -/
theorem plan_dirs_ok {dirs : List Path} {plan : Plan}
    (hplan : files.planDirs s st dirs = .ok plan) :
    (∀ dir ∈ dirs, ∃ listed, files.list dir = .ok listed) ∧
      (∀ j, j ∈ plan.jobs ↔ ∃ dir ∈ dirs, ∃ listed, files.list dir = .ok listed ∧
        j ∈ st.jobs (files.scope dir) listed (files.hash? s.maxFileSize)) ∧
      ∀ r, r ∈ plan.rejected ↔ ∃ dir ∈ dirs, ∃ listed, files.list dir = .ok listed ∧
        r ∈ listed.filterMap (files.rejected? s.maxFileSize) := by
  induction dirs generalizing plan with
  | nil =>
    cases hplan
    simp [Plan.empty]
  | cons dir dirs ih =>
    rw [Files.planDirs, Files.planDir] at hplan
    cases hlist : files.list dir with
    | error e =>
      rw [hlist] at hplan
      cases hplan
    | ok listed =>
      rw [hlist, Except.map] at hplan
      cases hrest : files.planDirs s st dirs with
      | error e =>
        rw [hrest] at hplan
        cases hplan
      | ok rest =>
        rw [hrest] at hplan
        cases hplan
        obtain ⟨hlists, hjobs, hrejected⟩ := ih hrest
        refine ⟨?_, ?_, ?_⟩
        · intro d hd
          rcases List.mem_cons.mp hd with rfl | hd
          · exact ⟨listed, hlist⟩
          · exact hlists d hd
        · intro j
          rw [Plan.append, List.mem_append, hjobs, List.exists_mem_cons_iff]
          simp [hlist]
        · intro r
          rw [Plan.append, List.mem_append, hrejected, List.exists_mem_cons_iff]
          simp [hlist]

theorem plan_dirs_total {dirs : List Path}
    (hlists : ∀ dir ∈ dirs, ∃ listed, files.list dir = .ok listed) :
    ∃ plan, files.planDirs s st dirs = .ok plan := by
  induction dirs with
  | nil => exact ⟨_, rfl⟩
  | cons dir dirs ih =>
    obtain ⟨listed, hlist⟩ := hlists dir List.mem_cons_self
    obtain ⟨rest, hrest⟩ := ih fun d hd => hlists d (List.mem_cons_of_mem _ hd)
    rw [Files.planDirs, Files.planDir, hlist, hrest]
    exact ⟨_, rfl⟩

theorem Files.Fits.read_within {p : Path} {bytes : Bytes} (hfits : files.Fits s p bytes) :
    files.readWithin s.maxFileSize p = .ok bytes := by
  rw [Files.readWithin, hfits.read, Except.bind, if_neg (Nat.not_lt.mpr hfits.size)]

theorem read_of_at_rest {limit : Nat} {p : Path} {bytes : Bytes}
    (hread : files.readWithin limit p = .ok bytes) :
    files.read p = .ok bytes ∧ bytes.length ≤ limit := by
  have hwithin := read_within_at_rest (files.host_shows failing) limit p ()
  exact read_of_read_within (hwithin.trans hread)

theorem read_of_kept {limit : Nat} {p : Path} (hkept : files.rejected? limit p = none) :
    ∃ bytes, files.readWithin limit p = .ok bytes := by
  rw [Files.rejected?] at hkept
  split at hkept
  · rename_i bytes hread
    exact ⟨bytes, hread⟩
  · cases hkept

/-- Directories that can be indexed are planned, and nothing of them is rejected. -/
theorem of_dirs_total (provider : List Text → Except ProviderError (List Embedding)) (st : Store)
    {dirs : List Path} (hdirs : ∀ dir ∈ dirs, files.Indexable s dir) : ∃ plan,
      ((Plan.ofDirs (files.host provider) s st dirs).run ()).1 = .ok plan ∧ plan.rejected = [] := by
  have hlists : ∀ dir ∈ dirs, ∃ listed, files.list dir = .ok listed := by
    intro dir hdir
    obtain ⟨listed, hlist, -⟩ := hdirs dir hdir
    exact ⟨listed, hlist⟩
  obtain ⟨plan, hplan⟩ : ∃ plan, files.planDirs s st dirs = .ok plan := plan_dirs_total hlists
  obtain ⟨-, -, hrejected⟩ := plan_dirs_ok hplan
  refine ⟨plan, by rw [of_dirs_at_rest (files.host_shows provider), hplan], ?_⟩
  rw [List.eq_nil_iff_forall_not_mem]
  intro r hr
  obtain ⟨dir, hdir, listed, hlist, hr⟩ := (hrejected r).mp hr
  obtain ⟨p, hp, hreason⟩ := List.mem_filterMap.mp hr
  obtain ⟨listed', hlist', hfits⟩ := hdirs dir hdir
  cases hlist.symm.trans hlist'
  obtain ⟨bytes, hp⟩ := hfits p hp
  rw [Files.rejected?, hp.read_within] at hreason
  cases hreason

theorem record_listed {dir p : Path} {listed : List Path} {bytes : Bytes}
    (hlist : files.list dir = .ok listed) (hp : p ∈ listed)
    (hread : files.readWithin s.maxFileSize p = .ok bytes) :
    files.record? s dir p = some (some (hashBytes bytes)) := by
  simp only [Files.record?, hlist, if_pos hp, Files.hash?, hread, Option.map_some]

theorem record_unlisted {dir p : Path} {listed : List Path} (hlist : files.list dir = .ok listed)
    (hp : p ∉ listed) : files.record? s dir p = some none := by
  simp only [Files.record?, hlist, if_neg hp]

/-- A path has a job exactly if one of its records is not what it is to be. -/
theorem job_at_rest {dir p : Path} {listed : List Path} (hlist : files.list dir = .ok listed) :
    (∃ j ∈ st.jobs (files.scope dir) listed (files.hash? s.maxFileSize), j.path = p) ↔
      ∃ record, files.record? s dir p = some record ∧
        ∃ k, st.hash? ((files.scope dir).slot k p) ≠ record := by
  by_cases hp : p ∈ listed
  · rw [Files.record?, hlist]
    simp only [if_pos hp]
    cases hhash : files.hash? s.maxFileSize p with
    | none =>
      simp only [Option.map_none, reduceCtorEq, false_and, exists_false, iff_false]
      intro hjob
      obtain ⟨j, hj, rfl⟩ := hjob
      rcases FileChange.mem_plan.mp (Store.mem_jobs.mp hj).2 with hlisted | hremoved
      · rw [(FileChange.mem_listed_changes.mp hlisted).2.1] at hhash
        cases hhash
      · exact (FileChange.path_mem_removed_changes.mp ⟨_, hremoved, rfl⟩).1 hp
    | some hash =>
      rw [Store.job_of_listed hp hhash]
      simp
  · rw [Store.job_of_unlisted hp, record_unlisted hlist hp]
    simp

theorem Job.Of.directory {dir : Path} {j : Job} (hj : j.Of files s dir) : j.scope.directory = dir :=
  congrArg Scope.directory hj.scope

theorem Job.Of.gone {dir : Path} {j : Job} (hj : j.Of files s dir) (hchange : j.change = .removed) :
    ∃ listed, files.list dir = .ok listed ∧ j.path ∉ listed := by
  obtain ⟨listed, hlist, hremoved⟩ := hj.listed
  exact ⟨listed, hlist, hremoved.mp hchange⟩

theorem Job.Of.present {dir : Path} {j : Job} (hj : j.Of files s dir)
    (hchange : j.change ≠ .removed) : ∃ listed bytes, files.list dir = .ok listed ∧
      j.path ∈ listed ∧ files.readWithin s.maxFileSize j.path = .ok bytes := by
  obtain ⟨listed, hlist, hremoved⟩ := hj.listed
  obtain ⟨bytes, hread⟩ := hj.read hchange
  exact ⟨listed, bytes, hlist, Classical.not_not.mp fun hn => hchange (hremoved.mpr hn), hread⟩

/-- Every planned job is one of a directory. -/
theorem job_of_planned {dirs : List Path} {plan : Plan} {j : Job}
    (hplan : files.planDirs s st dirs = .ok plan) (hj : j ∈ plan.jobs) :
    ∃ dir ∈ dirs, j.Of files s dir := by
  obtain ⟨-, hjobs, -⟩ := plan_dirs_ok hplan
  obtain ⟨dir, hdir, listed, hlist, hj⟩ := (hjobs j).mp hj
  obtain ⟨hscope, hworking, hremoved⟩ := Store.job_spec hj
  refine ⟨dir, hdir, hscope, hworking, ⟨listed, hlist, hremoved⟩, ?_⟩
  intro hne
  rcases FileChange.mem_plan.mp (Store.mem_jobs.mp hj).2 with hlisted | hgone
  · have hhash := (FileChange.mem_listed_changes.mp hlisted).2.1
    rw [Files.hash?] at hhash
    split at hhash
    · rename_i bytes hread
      exact ⟨bytes, hread⟩
    · cases hhash
  · exact absurd (FileChange.change_of_mem_removed_changes hgone) hne

/-- A path of a directory is planned exactly if one of its records is not what it is to be. -/
theorem planned_iff {dirs : List Path} {plan : Plan} (hplan : files.planDirs s st dirs = .ok plan)
    {dir : Path} (hdir : dir ∈ dirs) (p : Path) :
    (∃ j ∈ plan.jobs, j.scope = files.scope dir ∧ j.path = p) ↔ ∃ record,
      files.record? s dir p = some record ∧
        ∃ k, st.hash? ((files.scope dir).slot k p) ≠ record := by
  obtain ⟨hlists, hjobs, -⟩ := plan_dirs_ok hplan
  obtain ⟨listed, hlist⟩ := hlists dir hdir
  rw [← job_at_rest hlist]
  constructor
  · intro hplanned
    obtain ⟨j, hj, hscope, hpath⟩ := hplanned
    obtain ⟨dir', -, listed', hlist', hj⟩ := (hjobs j).mp hj
    rw [(Store.job_spec hj).1] at hscope
    cases congrArg Scope.directory hscope
    cases hlist.symm.trans hlist'
    exact ⟨j, hj, hpath⟩
  · intro hjob
    obtain ⟨j, hj, hpath⟩ := hjob
    exact ⟨j, (hjobs j).mpr ⟨dir, hdir, listed, hlist, hj⟩, (Store.job_spec hj).1, hpath⟩

/-- What a job that loses nothing records is what is to be recorded. -/
theorem recorded_at_rest (hshows : h.Shows files) {dir : Path} {j : Job}
    (hj : j.Of files s dir) {a : Act} (ha : j.Acts h s a) (hcomplete : a.complete) (x : Standing) :
    files.record? s dir j.path = some ((a.leaves x).recorded.map hashBytes) := by
  cases ha with
  | remove hchange =>
    obtain ⟨listed, hlist, hp⟩ := hj.gone hchange
    rw [record_unlisted hlist hp]
    rfl
  | @write bytes cs vectors w hchange hread =>
    obtain ⟨listed, -, hlist, hp, -⟩ := hj.present hchange
    rw [read_within_at_rest hshows] at hread
    rw [record_listed hlist hp hread, Act.recorded_of_complete hcomplete, Option.map_some]

end
end CodeIndex
