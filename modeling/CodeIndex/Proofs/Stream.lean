import CodeIndex.Proofs.Completion

namespace CodeIndex

/-- A job that is through: whether the refresh was held before it, and what became of its file. -/
structure Told where
  job : Job
  held : Bool
  fate : Job.Fate

/-- How the items of a refresh end. -/
inductive Closing where
  | stopped (held : Bool)
  | done
deriving DecidableEq, Repr

def Progress.pauses (held : Bool) (fraction : Binary32) : List Progress :=
  if held then [.paused fraction] else []

/-- The items for one file, with `n` of `total` files through before it. -/
def Told.items (total n : Nat) (x : Told) : List Progress :=
  Progress.pauses x.held (Progress.share n total) ++
    [x.fate.item (Progress.share (n + 1) total) x.job]

namespace Plan

def total (p : Plan) : Nat := p.jobs.length + p.rejected.length

/-- How many files are through after some jobs. -/
def through (p : Plan) (told : List Told) : Nat := p.rejected.length + told.length

def failures (p : Plan) (told : List Told) : Nat :=
  p.rejected.length + told.countP (!·.fate.isClean)

def opening (p : Plan) (files : List Rejected) : List Progress :=
  .loading (toString p.jobs.length ++ " files to index") ::
    files.zipIdx.map fun (file, n) =>
      .fileFailed (Progress.share (n + 1) p.total) file.path none file.reason

def tellings (p : Plan) (told : List Told) : List Progress :=
  (told.zipIdx p.rejected.length).flatMap fun (x, n) => x.items p.total n

def closing (p : Plan) (told : List Told) : Closing → List Progress
  | .stopped held =>
    Progress.pauses held (Progress.share (p.through told) p.total) ++
      [.stopped (Progress.share (p.through told) p.total)]
  | .done => [.done ("indexed " ++ toString (told.countP (·.fate.isClean)) ++ " files, " ++
      toString (p.failures told) ++ " failed")]

/-- All items of a refresh with this plan. -/
def stream (p : Plan) (told : List Told) (c : Closing) : List Progress :=
  p.opening p.rejected ++ p.tellings told ++ p.closing told c

theorem opening_snoc (p : Plan) (files : List Rejected) (file : Rejected) :
    p.opening (files ++ [file]) = p.opening files ++
      [.fileFailed (Progress.share (files.length + 1) p.total) file.path none file.reason] := by
  simp [opening, List.zipIdx_append]

theorem tellings_snoc (p : Plan) (told : List Told) (x : Told) :
    p.tellings (told ++ [x]) = p.tellings told ++ x.items p.total (p.through told) := by
  simp [tellings, through, List.zipIdx_append]

theorem through_snoc (p : Plan) (told : List Told) (x : Told) :
    p.through (told ++ [x]) = p.through told + 1 := by
  simp [through, Nat.add_assoc]

theorem failures_snoc (p : Plan) (told : List Told) (x : Told) :
    p.failures (told ++ [x]) = p.failures told + if x.fate.isClean then 0 else 1 := by
  cases hclean : x.fate.isClean <;> simp [failures, hclean, Nat.add_assoc]

end Plan

/-- The store after the files of some jobs, one after another. -/
inductive Store.Takes (h : Host σ) (s : Settings) (st : Store) : List Told → Store → Prop where
  | nothing : Takes h s st [] st
  | next {told : List Told} {x : Told} {st₁ st₂ : Store} (htaken : Takes h s st told st₁)
      (hsettles : x.job.Settles h s st₁ x.fate st₂) : Takes h s st (told ++ [x]) st₂

theorem Store.Takes.append {σ : Type} {h : Host σ} {s : Settings} {st st₁ st₂ : Store}
    {told more : List Told} (ht : st.Takes h s told st₁) (hm : st₁.Takes h s more st₂) :
    st.Takes h s (told ++ more) st₂ := by
  induction hm with
  | nothing =>
    rw [List.append_nil]
    exact ht
  | next _ hsettles ih =>
    rw [← List.append_assoc]
    exact .next ih hsettles

theorem Store.Takes.eq_of_nil {σ : Type} {h : Host σ} {s : Settings} {st st' : Store}
    (ht : st.Takes h s [] st') : st' = st := by
  generalize hnil : [] = told at ht
  cases ht with
  | nothing => rfl
  | next => simp at hnil

theorem Store.Takes.settles {σ : Type} {h : Host σ} {s : Settings} {st st' : Store} {x : Told}
    (ht : st.Takes h s [x] st') : x.job.Settles h s st x.fate st' := by
  generalize hone : [x] = told at ht
  cases ht with
  | nothing => cases hone
  | next htaken hsettles =>
    rw [eq_comm, ← List.nil_append [x]] at hone
    obtain ⟨rfl, hx⟩ := List.append_inj' hone rfl
    cases hx
    rwa [htaken.eq_of_nil] at hsettles

namespace Run

/-- The numbers of a refresh that is through with some jobs. -/
structure Counts (p : Plan) (told : List Told) (r : Run) : Prop where
  jobs : p.jobs = told.map Told.job ++ r.jobs
  total : r.total = p.total
  processed : r.processed = p.through told
  failed : r.failed = p.failures told

/-- Where a refresh stands, by the items that it has yielded. -/
inductive Stands (p : Plan) (r : Run) : List Progress → List Told → Prop where
  | planned (hrun : r = ofPlan p) : Stands p r [] []
  | rejecting {files rest : List Rejected} (hstage : r.stage = .rejecting rest)
      (hrejected : p.rejected = files ++ rest) (hjobs : r.jobs = p.jobs)
      (htotal : r.total = p.total) (hprocessed : r.processed = files.length)
      (hfailed : r.failed = files.length) : Stands p r (p.opening files) []
  | between {told : List Told} (hstage : r.stage = .between true) (hcounts : r.Counts p told) :
      Stands p r (p.opening p.rejected ++ p.tellings told) told
  | held {told : List Told} (hstage : r.stage = .held) (hjobs : r.jobs ≠ [])
      (hcounts : r.Counts p told) :
      Stands p r (p.opening p.rejected ++ p.tellings told ++ [.paused r.share]) told
  | over {told : List Told} {c : Closing} (hstage : r.stage = .over)
      (hdone : c = .done → r.jobs = []) (hheld : c = .stopped true → r.jobs ≠ [])
      (hcounts : r.Counts p told) :
      Stands p r (p.stream told c) told

variable {σ : Type} {h : Host σ} {s : Settings} {p : Plan} {r : Run} {st : Store}
  {items : List Progress} {told : List Told}

theorem Counts.share_eq (hc : r.Counts p told) :
    r.share = Progress.share (p.through told) p.total := by
  rw [share, hc.processed, hc.total]

/-- The numbers do not depend on where the refresh stands. -/
theorem Counts.at_stage (hc : r.Counts p told) (stage : Stage) : Counts p told { r with stage } :=
  ⟨hc.jobs, hc.total, hc.processed, hc.failed⟩

/-- At a file, all rejected files and some jobs have been told, and perhaps that the refresh is held
before the next job. -/
theorem Stands.at_file (hs : r.Stands p items told) (hstage : r.isReady ∨ r.stage = .held) :
    r.Counts p told ∧ ∃ held : Bool, (r.isReady → held = false) ∧ (held → r.jobs ≠ []) ∧
      items = p.opening p.rejected ++ p.tellings told ++ Progress.pauses held r.share := by
  cases hs with
  | planned hrun =>
    subst hrun
    simp [ofPlan, isReady] at hstage
  | rejecting hrejecting hrejected hjobs htotal hprocessed hfailed =>
    rename_i files rest
    have hrest : rest = [] := by
      cases rest with
      | nil => rfl
      | cons file rest => simp [isReady, hrejecting] at hstage
    rw [hrest, List.append_nil] at hrejected
    refine ⟨⟨hjobs.symm, htotal, ?_, ?_⟩, false, fun _ => rfl, by simp, ?_⟩
    · rw [hprocessed, ← hrejected]
      rfl
    · rw [hfailed, ← hrejected]
      rfl
    · rw [hrejected]
      simp [Plan.tellings, Progress.pauses]
  | between hbetween hcounts =>
    exact ⟨hcounts, false, fun _ => rfl, by simp, by simp [Progress.pauses]⟩
  | held hheld hjobs hcounts =>
    exact ⟨hcounts, true, by simp [isReady, hheld], fun _ => hjobs, by simp [Progress.pauses]⟩
  | «over» hover => simp [isReady, hover] at hstage

theorem Counts.settle {j : Job} {rest : List Job} (hc : r.Counts p told)
    (hjobs : r.jobs = j :: rest) (held : Bool) (fate : Job.Fate) (st' : Store) :
    (r.settle j rest fate st').run.Counts p (told ++ [⟨j, held, fate⟩]) := by
  refine ⟨?_, hc.total, ?_, ?_⟩
  · rw [hc.jobs, hjobs]
    simp [Run.settle]
  · rw [Plan.through_snoc, ← hc.processed]
    rfl
  · rw [Plan.failures_snoc, ← hc.failed]
    rfl

theorem countP_not_clean (told : List Told) :
    told.length = told.countP (·.fate.isClean) + told.countP (!·.fate.isClean) := by
  rw [List.length_eq_countP_add_countP fun x : Told => x.fate.isClean]
  simp

/-- At the end, the files that did not fail were indexed in full. -/
theorem Counts.indexed (hc : r.Counts p told) (hjobs : r.jobs = []) :
    r.total - r.failed = told.countP (·.fate.isClean) := by
  have htold : p.jobs.length = told.length := by
    rw [hc.jobs, hjobs, List.append_nil, List.length_map]
  have hsplit := countP_not_clean told
  rw [hc.total, hc.failed, Plan.total, Plan.failures, htold]
  omega

theorem announce_stands {rejected : List Rejected} (hs : r.Stands p items told)
    (hstage : r.stage = .planned rejected) : (r.announce rejected st).run.Stands p
      (items ++ (r.announce rejected st).item.toList) told := by
  cases hs with
  | planned hrun =>
    subst hrun
    cases hstage
    exact @Stands.rejecting p _ [] p.rejected rfl rfl rfl rfl rfl rfl
  | rejecting hother | between hother | held hother | «over» hother => simp [hother] at hstage

theorem reject_stands {file : Rejected} {rest : List Rejected} (hs : r.Stands p items told)
    (hstage : r.stage = .rejecting (file :: rest)) : (r.reject file rest st).run.Stands p
      (items ++ (r.reject file rest st).item.toList) told := by
  cases hs with
  | planned hrun =>
    subst hrun
    cases hstage
  | @rejecting files _ hrejecting hrejected hjobs htotal hprocessed hfailed =>
    cases hrejecting.symm.trans hstage
    have hitems := p.opening_snoc files file
    rw [← hprocessed, ← htotal] at hitems
    have hsnoc : p.rejected = files ++ [file] ++ rest := by
      rw [hrejected, List.append_cons]
    have hlength : (files ++ [file]).length = files.length + 1 := by simp
    have hafter : (r.reject file rest st).run.Stands p (p.opening (files ++ [file])) [] :=
      .rejecting rfl hsnoc hjobs htotal (by rw [hlength, ← hprocessed]; rfl)
        (by rw [hlength, ← hfailed]; rfl)
    rw [hitems] at hafter
    exact hafter
  | between hother | held hother | «over» hother => simp [hother] at hstage

theorem hold_stands {j : Job} {rest : List Job} (hs : r.Stands p items told) (hready : r.isReady)
    (hjobs : r.jobs = j :: rest) :
    (r.hold st).run.Stands p (items ++ (r.hold st).item.toList) told := by
  obtain ⟨hcounts, held, hheld, -, rfl⟩ := hs.at_file (Or.inl hready)
  rw [hheld hready, Progress.pauses, if_neg (by simp), List.append_nil]
  exact .held rfl (hjobs ▸ List.cons_ne_nil j rest) (hcounts.at_stage .held)

theorem settle_stands {j : Job} {rest : List Job} (hs : r.Stands p items told)
    (hstage : r.isReady ∨ r.stage = .held) (hjobs : r.jobs = j :: rest) (fate : Job.Fate) :
    ∃ held, (r.settle j rest fate st).run.Stands p
      (items ++ (r.settle j rest fate st).item.toList) (told ++ [⟨j, held, fate⟩]) := by
  obtain ⟨hcounts, held, -, -, rfl⟩ := hs.at_file hstage
  have hafter := hcounts.settle hjobs held fate st
  refine ⟨held, ?_⟩
  have hitem : (r.settle j rest fate st).item =
      some (fate.item (Progress.share (p.through told + 1) p.total) j) := by
    rw [← hcounts.processed, ← hcounts.total]
    rfl
  have hitems : p.opening p.rejected ++ p.tellings told ++ Progress.pauses held r.share ++
      (r.settle j rest fate st).item.toList =
      p.opening p.rejected ++ p.tellings (told ++ [⟨j, held, fate⟩]) := by
    rw [Plan.tellings_snoc, Told.items, hitem, hcounts.share_eq]
    simp
  rw [hitems]
  exact .between rfl hafter

theorem stop_stands (hs : r.Stands p items told) (hstage : r.isReady ∨ r.stage = .held) :
    (r.stop st).run.Stands p (items ++ (r.stop st).item.toList) told := by
  obtain ⟨hcounts, held, -, hheld, rfl⟩ := hs.at_file hstage
  have hitems : p.opening p.rejected ++ p.tellings told ++ Progress.pauses held r.share ++
      (r.stop st).item.toList = p.stream told (.stopped held) := by
    rw [Plan.stream, Plan.closing, stop, hcounts.share_eq]
    simp
  rw [hitems]
  exact .over rfl (by simp) (fun hc => hheld (Closing.stopped.inj hc)) (hcounts.at_stage .over)

theorem finish_stands (hs : r.Stands p items told) (hstage : r.isReady ∨ r.stage = .held)
    (hjobs : r.jobs = []) :
    (r.finish st).run.Stands p (items ++ (r.finish st).item.toList) told := by
  obtain ⟨hcounts, held, -, hheld, rfl⟩ := hs.at_file hstage
  have hnot : held = false := Bool.eq_false_iff.mpr fun hh => hheld hh hjobs
  have hitems : p.opening p.rejected ++ p.tellings told ++ Progress.pauses held r.share ++
      (r.finish st).item.toList = p.stream told .done := by
    rw [hnot, Progress.pauses, if_neg (by simp), Plan.stream, Plan.closing, finish,
      hcounts.indexed hjobs, ← hcounts.failed]
    simp
  rw [hitems]
  exact .over rfl (fun _ => hjobs) (by simp) (hcounts.at_stage .over)

/-- A move tells at most one more file, and the store takes just that file. -/
theorem Moves.stands {t : Turn} (hm : r.Moves h s st t) (hs : r.Stands p items told) :
    ∃ more, st.Takes h s more t.store ∧
      t.run.Stands p (items ++ t.item.toList) (told ++ more) := by
  have hsame : ∀ {r' : Run} {item : Option Progress},
      r'.Stands p (items ++ item.toList) told → ∃ more, st.Takes h s more st ∧
        r'.Stands p (items ++ item.toList) (told ++ more) := by
    intro r' item hr'
    exact ⟨[], .nothing, (List.append_nil told).symm ▸ hr'⟩
  cases hm with
  | plan w hstage =>
    cases hs with
    | planned hrun =>
      subst hrun
      cases hstage
    | rejecting hother | between hother | held hother | «over» hother => simp [hother] at hstage
  | announce hstage => exact hsame (announce_stands hs hstage)
  | reject hstage => exact hsame (reject_stands hs hstage)
  | hold hready hjobs => exact hsame (hold_stands hs hready hjobs)
  | settle hstage hjobs hsettles =>
    obtain ⟨held, hafter⟩ := settle_stands hs hstage hjobs _
    exact ⟨_, .next .nothing hsettles, hafter⟩
  | stop hstage => exact hsame (stop_stands hs hstage)
  | finish hstage hjobs => exact hsame (finish_stands hs hstage hjobs)
  | idle hstage =>
    refine hsame ?_
    rw [Option.toList_none, List.append_nil]
    exact hs

/-- Turns of a refresh tell of some more files, and the store takes just these. -/
theorem Yields.stands {r' : Run} {st' : Store} {more : List Progress}
    (hy : r.Yields h s st more r' st') (hs : r.Stands p items told) : ∃ later,
      st.Takes h s later st' ∧ r'.Stands p (items ++ more) (told ++ later) := by
  induction hy generalizing items told with
  | nothing =>
    refine ⟨[], .nothing, ?_⟩
    rw [List.append_nil, List.append_nil]
    exact hs
  | turn w hturn _ ih =>
    subst hturn
    obtain ⟨first, htaken, hfirst⟩ := (next_moves w).stands hs
    obtain ⟨later, hrest, hlater⟩ := ih hfirst
    rw [List.append_assoc, List.append_assoc] at hlater
    exact ⟨first ++ later, htaken.append hrest, hlater⟩

theorem Yields.tells_of {r' : Run} {st' : Store} (hy : (ofPlan p).Yields h s st items r' st') :
    ∃ told, st.Takes h s told st' ∧ r'.Stands p items told := hy.stands (.planned rfl)

end Run
end CodeIndex
