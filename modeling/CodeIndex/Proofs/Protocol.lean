import CodeIndex.Proofs.Files
import CodeIndex.Proofs.Stream

namespace CodeIndex

namespace Progress

/-- The item reports a file that went through every artifact. -/
def countsIndexed (p : Progress) : Bool :=
  p.status = .indexing &&
    (p.change = some .added || p.change = some .updated || p.change = some .removed)

/-- The item reports a file that failed. -/
def countsFailed (p : Progress) : Bool := p.status = .failed && !p.cancelled

end Progress

namespace Summary

theorem indexed_record (s : Summary) (p : Progress) :
    (s.record p).indexed = s.indexed + if p.countsIndexed then 1 else 0 := by
  cases hs : p.status with
  | indexing =>
    cases hc : p.change with
    | none => simp [record, indexed, Progress.countsIndexed, hs, hc]
    | some change =>
      cases change <;> simp [record, indexed, Progress.countsIndexed, hs, hc] <;> omega
  | failed => cases hc : p.cancelled <;> simp [record, indexed, Progress.countsIndexed, hs, hc]
  | loading | paused | done => simp [record, indexed, Progress.countsIndexed, hs]

theorem failed_record (s : Summary) (p : Progress) :
    (s.record p).failed = s.failed + if p.countsFailed then 1 else 0 := by
  cases hs : p.status with
  | indexing =>
    cases hc : p.change with
    | none => simp [record, Progress.countsFailed, hs, hc]
    | some change => cases change <;> simp [record, Progress.countsFailed, hs, hc]
  | failed => cases hc : p.cancelled <;> simp [record, Progress.countsFailed, hs, hc]
  | loading | paused | done => simp [record, Progress.countsFailed, hs]

theorem counts_of_items (items : List Progress) :
    (ofItems items).indexed = items.countP Progress.countsIndexed ∧
      (ofItems items).failed = items.countP Progress.countsFailed := by
  induction items using List.reverseRecOn with
  | nil => exact ⟨rfl, rfl⟩
  | append_singleton items p ih =>
    have hlast : ofItems (items ++ [p]) = (ofItems items).record p := by
      rw [ofItems, List.foldl_append]
      rfl
    rw [hlast, indexed_record, failed_record, ih.1, ih.2, List.countP_append, List.countP_append,
      List.countP_singleton, List.countP_singleton]
    exact ⟨rfl, rfl⟩

end Summary

section
variable {p : Plan} {files : List Rejected} {told : List Told} {x : Progress}

theorem Progress.mem_pauses {held : Bool} {fraction : Binary32} (hx : x ∈ pauses held fraction) :
    x = .paused fraction := by
  rw [pauses] at hx
  split at hx
  · exact List.mem_singleton.mp hx
  · cases hx

theorem Progress.paused_ends_nothing (fraction : Binary32) :
    (paused fraction).isTerminal = false ∧ (paused fraction).status ≠ .done :=
  ⟨rfl, by simp [paused, plain]⟩

theorem Plan.opening_ends_nothing (hx : x ∈ p.opening files) :
    x.isTerminal = false ∧ x.status ≠ .done := by
  rcases List.mem_cons.mp hx with rfl | hx
  · exact ⟨rfl, by simp [Progress.loading, Progress.plain]⟩
  · obtain ⟨file, -, rfl⟩ := List.mem_map.mp hx
    exact ⟨rfl, by simp⟩

theorem Plan.tellings_end_nothing (hx : x ∈ p.tellings told) :
    x.isTerminal = false ∧ x.status ≠ .done := by
  obtain ⟨⟨y, n⟩, -, hx⟩ := List.mem_flatMap.mp hx
  rcases List.mem_append.mp hx with hx | hx
  · rw [Progress.mem_pauses hx]
    exact Progress.paused_ends_nothing _
  · rw [List.mem_singleton.mp hx]
    cases y.fate with
    | written lost => cases lost <;> exact ⟨rfl, by simp [Job.Fate.item]⟩
    | failed e => exact ⟨rfl, by simp [Job.Fate.item]⟩

/-- Only the last item of a closing is terminal. -/
theorem Plan.closing_last (p : Plan) (told : List Told) (c : Closing) : ∃ front last,
    p.closing told c = front ++ [last] ∧ last.isTerminal ∧ (last.status = .done → c = .done) ∧
      ∀ y ∈ front, y.isTerminal = false ∧ y.status ≠ .done := by
  cases c with
  | stopped held =>
    refine ⟨_, _, rfl, rfl, by simp [Progress.stopped, Progress.plain], ?_⟩
    intro y hy
    rw [Progress.mem_pauses hy]
    exact Progress.paused_ends_nothing _
  | done => exact ⟨[], _, rfl, rfl, fun _ => rfl, by simp⟩

theorem Plan.stream_last (p : Plan) (told : List Told) (c : Closing) : ∃ front last,
    p.stream told c = front ++ [last] ∧ last.isTerminal ∧ (last.status = .done → c = .done) ∧
      ∀ y ∈ front, y.isTerminal = false ∧ y.status ≠ .done := by
  obtain ⟨front, last, hclosing, hlast, hdone, hfront⟩ := p.closing_last told c
  refine ⟨p.opening p.rejected ++ p.tellings told ++ front, last, ?_, hlast, hdone, ?_⟩
  · rw [stream, hclosing, List.append_assoc _ front]
  · intro y hy
    rcases List.mem_append.mp hy with hy | hy
    · rcases List.mem_append.mp hy with hy | hy
      · exact opening_ends_nothing hy
      · exact tellings_end_nothing hy
    · exact hfront y hy

theorem Progress.paths_pauses (held : Bool) (fraction : Binary32) :
    (pauses held fraction).filterMap Progress.path = [] := by
  cases held <;> rfl

theorem Told.paths_items (total n : Nat) (y : Told) :
    (y.items total n).filterMap Progress.path = [y.job.path] := by
  have hitem : (y.fate.item (Progress.share (n + 1) total) y.job).path = some y.job.path := by
    cases y.fate with
    | written lost => cases lost <;> rfl
    | failed e => rfl
  rw [items, List.filterMap_append, Progress.paths_pauses, List.nil_append,
    List.filterMap_cons_some hitem, List.filterMap_nil]

theorem Plan.paths_opening (p : Plan) (files : List Rejected) :
    (p.opening files).filterMap Progress.path = files.map Rejected.path := by
  induction files using List.reverseRecOn with
  | nil => rfl
  | append_singleton files file ih =>
    rw [opening_snoc, List.filterMap_append, ih, List.map_append]
    rfl

theorem Plan.paths_tellings (p : Plan) (told : List Told) :
    (p.tellings told).filterMap Progress.path = told.map (·.job.path) := by
  induction told using List.reverseRecOn with
  | nil => rfl
  | append_singleton told y ih =>
    rw [tellings_snoc, List.filterMap_append, ih, Told.paths_items, List.map_append]
    rfl

theorem Plan.paths_front (p : Plan) (told : List Told) :
    (p.opening p.rejected ++ p.tellings told).filterMap Progress.path =
      p.rejected.map Rejected.path ++ told.map (·.job.path) := by
  rw [List.filterMap_append, paths_opening, paths_tellings]

theorem Plan.paths_closing (p : Plan) (told : List Told) (c : Closing) :
    (p.closing told c).filterMap Progress.path = [] := by
  cases c with
  | stopped held =>
    rw [closing, List.filterMap_append, Progress.paths_pauses]
    rfl
  | done => rfl

theorem Plan.paths_stream (p : Plan) (told : List Told) (c : Closing) :
    (p.stream told c).filterMap Progress.path =
      p.rejected.map Rejected.path ++ told.map (·.job.path) := by
  rw [stream, List.filterMap_append, paths_front, paths_closing, List.append_nil]

theorem Job.Fate.counts_item (fraction : Binary32) {j : Job} (hj : j.change ≠ .unchanged)
    (fate : Job.Fate) : (fate.item fraction j).countsIndexed = fate.isClean ∧
      (fate.item fraction j).countsFailed = !fate.isClean := by
  cases fate with
  | written lost =>
    cases lost with
    | zero =>
      cases hc : j.change with
      | unchanged => exact absurd hc hj
      | added | updated | removed =>
        rw [item, hc]
        exact ⟨rfl, rfl⟩
    | succ lost => simp [item, isClean, Progress.countsIndexed, Progress.countsFailed,
        Progress.fileFailed, Progress.plain]
  | failed e => simp [item, isClean, Progress.countsIndexed, Progress.countsFailed,
      Progress.fileFailed, Progress.plain]

theorem Told.counts_items (total n : Nat) {y : Told} (hy : y.job.change ≠ .unchanged) :
    (y.items total n).countP Progress.countsIndexed = [y].countP (·.fate.isClean) ∧
      (y.items total n).countP Progress.countsFailed = [y].countP (!·.fate.isClean) := by
  have hpauses : ∀ (held : Bool) (fraction : Binary32),
      (Progress.pauses held fraction).countP Progress.countsIndexed = 0 ∧
        (Progress.pauses held fraction).countP Progress.countsFailed = 0 := by
    intro held fraction
    cases held <;> exact ⟨rfl, rfl⟩
  obtain ⟨hindexed, hfailed⟩ :=
    Job.Fate.counts_item (Progress.share (n + 1) total) hy y.fate
  simp only [items, List.countP_append, hpauses, List.countP_singleton, hindexed, hfailed,
    Nat.zero_add, and_self]

theorem Plan.counts_opening (p : Plan) (files : List Rejected) :
    (p.opening files).countP Progress.countsIndexed = 0 ∧
      (p.opening files).countP Progress.countsFailed = files.length := by
  induction files using List.reverseRecOn with
  | nil => exact ⟨rfl, rfl⟩
  | append_singleton files file ih =>
    rw [opening_snoc, List.countP_append, List.countP_append, ih.1, ih.2, List.length_append]
    exact ⟨rfl, rfl⟩

theorem Plan.counts_tellings (p : Plan) {told : List Told}
    (hworking : ∀ y ∈ told, y.job.change ≠ .unchanged) :
    (p.tellings told).countP Progress.countsIndexed = told.countP (·.fate.isClean) ∧
      (p.tellings told).countP Progress.countsFailed = told.countP (!·.fate.isClean) := by
  induction told using List.reverseRecOn with
  | nil => exact ⟨rfl, rfl⟩
  | append_singleton told y ih =>
    obtain ⟨hindexed, hfailed⟩ := ih fun z hz => hworking z (List.mem_append_left _ hz)
    obtain ⟨hone, hother⟩ := Told.counts_items p.total (p.through told) (hworking y (by simp))
    rw [tellings_snoc, List.countP_append, List.countP_append, List.countP_append,
      List.countP_append, hindexed, hfailed, hone, hother]
    exact ⟨rfl, rfl⟩

/-- All files of a refresh that is done are counted, as indexed or as failed. -/
theorem Plan.counts_stream (p : Plan) {told : List Told}
    (hworking : ∀ y ∈ told, y.job.change ≠ .unchanged) :
    (Summary.ofItems (p.stream told .done)).indexed = told.countP (·.fate.isClean) ∧
      (Summary.ofItems (p.stream told .done)).failed = p.failures told := by
  obtain ⟨hindexed, hfailed⟩ := Summary.counts_of_items (p.stream told .done)
  obtain ⟨hnone, hrejected⟩ := p.counts_opening p.rejected
  obtain ⟨hclean, hlost⟩ := p.counts_tellings hworking
  rw [hindexed, hfailed, stream, List.countP_append, List.countP_append, List.countP_append,
    List.countP_append, hnone, hrejected, hclean, hlost, Nat.zero_add]
  exact ⟨rfl, rfl⟩

theorem Told.length_items_le (total n : Nat) (y : Told) : (y.items total n).length ≤ 2 := by
  rw [items, Progress.pauses]
  split <;> simp

theorem Plan.length_tellings_le (p : Plan) (told : List Told) :
    (p.tellings told).length ≤ 2 * told.length := by
  induction told using List.reverseRecOn with
  | nil => exact Nat.le_refl 0
  | append_singleton told y ih =>
    have hone := y.length_items_le p.total (p.through told)
    rw [tellings_snoc, List.length_append, List.length_append, List.length_singleton]
    omega

theorem Plan.length_closing_le (p : Plan) (told : List Told) (c : Closing) :
    (p.closing told c).length ≤ if c = .stopped true then 2 else 1 := by
  cases c with
  | stopped held => cases held <;> simp [closing, Progress.pauses]
  | done => simp [closing]

theorem Plan.length_stream (p : Plan) (told : List Told) (c : Closing) :
    (p.stream told c).length ≤
      p.rejected.length + 2 * told.length + if c = .stopped true then 3 else 2 := by
  have htellings := p.length_tellings_le told
  have hclosing := p.length_closing_le told c
  have hopening : (p.opening p.rejected).length = p.rejected.length + 1 := by simp [opening]
  rw [stream, List.length_append, List.length_append, hopening]
  split at hclosing <;> split <;> omega

/-- What was heard of a refresh is the beginning of one of the streams of its plan. -/
structure Plan.Heard (p : Plan) (told : List Told) (c : Closing) (items : List Progress)
    (isOver : Prop) : Prop where
  jobs : told.map Told.job <+: p.jobs
  done : c = .done → told.map Told.job = p.jobs
  held : c = .stopped true → told.map Told.job ≠ p.jobs
  begins : items <+: p.stream told c
  whole : isOver → items = p.stream told c

end

namespace Run

section
variable {σ : Type} {h : Host σ} {s : Settings} {p : Plan} {r : Run} {st : Store}
  {items : List Progress} {told : List Told}

/-- Only a refresh that is held or over yields nothing in a turn, and no turn takes back a file that
was counted. -/
theorem Moves.goes_on {t : Turn} (hm : r.Moves h s st t) (hplanned : r.isPlanned) :
    (t.item = none → r.stage = .held ∨ r.isOver) ∧ r.processed ≤ t.run.processed := by
  cases hm with
  | plan _ hstage => simp [isPlanned, hstage] at hplanned
  | idle hstage =>
    refine ⟨fun _ => ?_, Nat.le_refl _⟩
    rcases hstage with hheld | hover
    · exact Or.inl hheld
    · exact Or.inr (is_over_iff.mpr hover)
  | announce | hold | stop | finish =>
    refine ⟨?_, Nat.le_refl _⟩
    intro hnone
    cases hnone
  | reject | settle =>
    refine ⟨?_, Nat.le_succ _⟩
    intro hnone
    cases hnone

theorem Stands.is_planned (hs : r.Stands p items told) : r.isPlanned := by
  cases hs with
  | planned hrun =>
    subst hrun
    rfl
  | rejecting hstage | between hstage | held hstage | «over» hstage => rw [isPlanned, hstage]

theorem Counts.numbers (hc : r.Counts p told) :
    r.total = p.total ∧ r.processed = p.rejected.length + told.length ∧ r.failed ≤ r.processed ∧
      r.processed ≤ r.total := by
  have hjobs : p.jobs.length = told.length + r.jobs.length := by
    rw [hc.jobs, List.length_append, List.length_map]
  have hfailed : told.countP (!·.fate.isClean) ≤ told.length := List.countP_le_length
  refine ⟨hc.total, hc.processed, ?_, ?_⟩
  · rw [hc.failed, hc.processed, Plan.failures, Plan.through]
    omega
  · rw [hc.processed, hc.total, Plan.through, Plan.total]
    omega

/-- The files that count as processed are those that the items tell of. -/
theorem Stands.numbers (hs : r.Stands p items told) :
    r.total = p.total ∧ r.processed = (items.filterMap Progress.path).length ∧
      r.failed ≤ r.processed ∧ r.processed ≤ r.total := by
  have hpaths : ∀ told : List Told, (p.rejected.map Rejected.path ++ told.map (·.job.path)).length =
      p.rejected.length + told.length := by
    intro told
    simp
  cases hs with
  | planned hrun =>
    subst hrun
    exact ⟨rfl, rfl, Nat.le_refl 0, Nat.zero_le _⟩
  | @rejecting files rest hstage hrejected hjobs htotal hprocessed hfailed =>
    have hfiles : files.length ≤ p.total := by
      rw [Plan.total, hrejected, List.length_append]
      omega
    rw [Plan.paths_opening, List.length_map, htotal, hprocessed, hfailed]
    exact ⟨rfl, rfl, Nat.le_refl _, hfiles⟩
  | between hstage hcounts =>
    rw [Plan.paths_front, hpaths]
    exact hcounts.numbers
  | held hstage hjobs hcounts =>
    have hpaused : ([Progress.paused r.share]).filterMap Progress.path = [] := rfl
    rw [List.filterMap_append, Plan.paths_front, hpaused, List.append_nil, hpaths]
    exact hcounts.numbers
  | «over» hstage hdone hheld hcounts =>
    rw [Plan.paths_stream, hpaths]
    exact hcounts.numbers

/-- Jobs that are left have not been told of. -/
theorem Counts.told_eq_iff (hc : r.Counts p told) : told.map Told.job = p.jobs ↔ r.jobs = [] := by
  rw [hc.jobs, List.self_eq_append_right]

/-- What a refresh has yielded is the beginning of one of the streams of its plan, and all of it
once the refresh is over. -/
theorem Stands.begins (hs : r.Stands p items told) : ∃ c, p.Heard told c items r.isOver := by
  cases hs with
  | planned hrun =>
    subst hrun
    exact ⟨.stopped false, List.nil_prefix, by simp, by simp, List.nil_prefix,
      by simp [isOver, ofPlan]⟩
  | @rejecting files rest hstage hrejected =>
    have hopening : p.opening files <+: p.opening p.rejected := by
      rw [hrejected, Plan.opening, Plan.opening, List.zipIdx_append, List.map_append]
      exact (List.cons_prefix_cons.mpr ⟨rfl, List.prefix_append _ _⟩)
    refine ⟨.stopped false, List.nil_prefix, by simp, by simp, ?_, by simp [isOver, hstage]⟩
    rw [Plan.stream, List.append_assoc]
    exact hopening.trans (List.prefix_append _ _)
  | between hstage hcounts =>
    refine ⟨.stopped false, ?_, by simp, by simp, List.prefix_append _ _,
      by simp [isOver, hstage]⟩
    rw [hcounts.jobs]
    exact List.prefix_append _ _
  | held hstage hjobs hcounts =>
    refine ⟨.stopped true, ?_, by simp, fun _ htold => hjobs (hcounts.told_eq_iff.mp htold), ?_,
      by simp [isOver, hstage]⟩
    · rw [hcounts.jobs]
      exact List.prefix_append _ _
    · rw [Plan.stream, Plan.closing, ← hcounts.share_eq, List.prefix_append_right_inj]
      exact List.prefix_append _ _
  | @«over» _ c hstage hdone hheld hcounts =>
    refine ⟨c, ?_, fun hc => hcounts.told_eq_iff.mpr (hdone hc),
      fun hc htold => hheld hc (hcounts.told_eq_iff.mp htold), List.prefix_rfl, fun _ => rfl⟩
    rw [hcounts.jobs]
    exact List.prefix_append _ _

/-- Nothing is terminal before a refresh is over. -/
theorem Stands.ends_nothing (hs : r.Stands p items told) (hover : r.isOver = false) :
    ∀ x ∈ items, x.isTerminal = false ∧ x.status ≠ .done := by
  have hfront : ∀ told, ∀ x ∈ p.opening p.rejected ++ p.tellings told,
      x.isTerminal = false ∧ x.status ≠ .done := by
    intro told x hx
    rcases List.mem_append.mp hx with hx | hx
    · exact Plan.opening_ends_nothing hx
    · exact Plan.tellings_end_nothing hx
  intro x hx
  cases hs with
  | planned => cases hx
  | rejecting => exact Plan.opening_ends_nothing hx
  | between => exact hfront _ x hx
  | held =>
    rcases List.mem_append.mp hx with hx | hx
    · exact hfront _ x hx
    · rw [List.mem_singleton.mp hx]
      exact Progress.paused_ends_nothing _
  | «over» hstage => simp [isOver, hstage] at hover

theorem Stands.counts (hs : r.Stands p items told) (hover : r.isOver) : r.Counts p told := by
  cases hs with
  | planned hrun =>
    subst hrun
    cases hover
  | rejecting hstage | between hstage | held hstage => simp [isOver, hstage] at hover
  | «over» _ _ _ hcounts => exact hcounts

/-- A refresh that has yielded its done item is over, has told of all its jobs, and has counted each
file. -/
theorem Stands.done (hs : r.Stands p items told) (hworking : ∀ j ∈ p.jobs, j.change ≠ .unchanged)
    (hdone : ∃ x ∈ items, x.status = .done) :
    items = p.stream told .done ∧ told.map Told.job = p.jobs ∧
      (Summary.ofItems items).indexed = told.countP (·.fate.isClean) ∧
      (Summary.ofItems items).failed = p.failures told ∧ r.failed = p.failures told ∧
      r.total - r.failed = told.countP (·.fate.isClean) := by
  obtain ⟨x, hx, hstatus⟩ := hdone
  have hover : r.isOver := by
    by_contra hnot
    exact (hs.ends_nothing (Bool.eq_false_iff.mpr hnot) x hx).2 hstatus
  obtain ⟨c, -, htold, -, -, hall⟩ := hs.begins
  obtain ⟨front, last, hstream, -, hlast, hfront⟩ := p.stream_last told c
  have hc : c = .done := by
    rw [hall hover, hstream] at hx
    rcases List.mem_append.mp hx with hx | hx
    · exact absurd hstatus (hfront x hx).2
    · rw [List.mem_singleton.mp hx] at hstatus
      exact hlast hstatus
  subst hc
  have hcounts := hs.counts hover
  have hjobs := htold rfl
  have hworking' : ∀ y ∈ told, y.job.change ≠ .unchanged := by
    intro y hy
    exact hworking y.job (hjobs ▸ List.mem_map_of_mem hy)
  obtain ⟨hindexed, hfailed⟩ := p.counts_stream hworking'
  rw [hall hover]
  exact ⟨rfl, hjobs, hindexed, hfailed, hcounts.failed,
    hcounts.indexed (hcounts.told_eq_iff.mp hjobs)⟩

/-- The account that a refresh gives of the files of its plan when it is done. -/
structure Accounts (plan : Plan) (items : List Progress) (r : Run) : Prop where
  files : items.filterMap Progress.path =
    plan.rejected.map Rejected.path ++ plan.jobs.map Job.path
  sum : (Summary.ofItems items).indexed + (Summary.ofItems items).failed = plan.total
  failed : r.failed ≤ r.total
  indexed : r.total - r.failed = (Summary.ofItems items).indexed
  text : items.getLast? = some (.done ("indexed " ++ toString (Summary.ofItems items).indexed ++
    " files, " ++ toString (Summary.ofItems items).failed ++ " failed"))

theorem Stands.accounts (hs : r.Stands p items told)
    (hworking : ∀ j ∈ p.jobs, j.change ≠ .unchanged) (hdone : ∃ x ∈ items, x.status = .done) :
    Accounts p items r := by
  obtain ⟨hitems, hjobs, hindexed, hfailures, -, hclean⟩ := hs.done hworking hdone
  obtain ⟨-, -, hfailed, hle⟩ := hs.numbers
  have hlength : told.length = p.jobs.length := by rw [← hjobs, List.length_map]
  have hsplit := countP_not_clean told
  refine ⟨?_, ?_, Nat.le_trans hfailed hle, ?_, ?_⟩
  · rw [hitems, Plan.paths_stream, ← hjobs, List.map_map]
    rfl
  · rw [hindexed, hfailures, Plan.failures, Plan.total]
    omega
  · rw [hindexed]
    exact hclean
  · rw [hindexed, hfailures, hitems, Plan.stream, Plan.closing, List.getLast?_append]
    rfl

/-- A refresh yields no more than two items for each job, besides those for the rejected files, the
first one and the last one. -/
theorem Stands.length_le (hs : r.Stands p items told) :
    items.length ≤ p.rejected.length + 2 * p.jobs.length + 2 := by
  obtain ⟨c, hheard⟩ := hs.begins
  have hlength := Nat.le_trans hheard.begins.length_le (p.length_stream told c)
  have hshorter := hheard.jobs.length_le
  rw [List.length_map] at hshorter
  split at hlength
  · rename_i hc
    have hshort : told.length ≠ p.jobs.length := by
      intro heq
      exact hheard.held hc (hheard.jobs.eq_of_length (by rw [List.length_map, heq]))
    omega
  · omega

/-- What the items of a refresh of a plan follow, up to the point where it stands. -/
structure Follows (h : Host σ) (s : Settings) (plan : Plan) (st : Store) (items : List Progress)
    (r : Run) : Prop where
  stream : ∃ told c, plan.Heard told c items r.isOver
  unended : r.isOver = false → ∀ x ∈ items, x.isTerminal = false
  ended : r.isOver → ∃ front last, items = front ++ [last] ∧ last.isTerminal ∧
    ∀ x ∈ front, x.isTerminal = false
  processed : r.processed = (items.filterMap Progress.path).length
  within : r.processed ≤ r.total
  total : r.total = plan.total
  monotone : ∀ w, r.processed ≤ ((r.next h s st).run w).1.run.processed
  bounded : items.length ≤ plan.rejected.length + 2 * plan.jobs.length + 2
  goesOn : ∀ w, ((r.next h s st).run w).1.item = none → r.stage = .held ∨ r.isOver
  done : (∃ x ∈ items, x.status = .done) → Accounts plan items r

end

/-- The items of a refresh, whatever becomes of its files and however it is paused and cancelled.
They are the beginning of a stream of its plan, and all of it once the refresh is over; a terminal
item is the last one. Files count as processed once they are told of. A refresh that is not held
goes on to its end, and one that is done has told of each file once, counting it as indexed or as
failed. -/
theorem stream_protocol {σ : Type} {h : Host σ} {s : Settings} {plan : Plan} {st st' : Store}
    {items : List Progress} {r : Run} (hworking : ∀ j ∈ plan.jobs, j.change ≠ .unchanged)
    (hy : (ofPlan plan).Yields h s st items r st') : Follows h s plan st' items r := by
  obtain ⟨told, -, hs⟩ := hy.tells_of
  obtain ⟨c, hheard⟩ := hs.begins
  obtain ⟨htotal, hprocessed, -, hle⟩ := hs.numbers
  obtain ⟨front, last, hstream, hlast, -, hfront⟩ := plan.stream_last told c
  exact {
    stream := ⟨told, c, hheard⟩
    unended := fun hover x hx => (hs.ends_nothing hover x hx).1
    ended := fun hover =>
      ⟨front, last, (hheard.whole hover).trans hstream, hlast, fun x hx => (hfront x hx).1⟩
    processed := hprocessed
    within := hle
    total := htotal
    monotone := fun w => ((next_moves w).goes_on hs.is_planned).2
    bounded := hs.length_le
    goesOn := fun w => ((next_moves w).goes_on hs.is_planned).1
    done := hs.accounts hworking }

/-- A refresh of two files besides one that was rejected. -/
def samplePlan : Plan where
  jobs := [⟨⟨noBranch, "/d"⟩, "/d/a.md", .added, ""⟩, ⟨⟨noBranch, "/d"⟩, "/d/b.md", .updated, ""⟩]
  rejected := [⟨"/d/c.md", "no such file"⟩]

/-- It is held once, and one of the files is missing. -/
theorem stream_protocol_held : ∃ items r st, (∀ j ∈ samplePlan.jobs, j.change ≠ .unchanged) ∧
    (ofPlan samplePlan).Yields (Files.single.switched (answering fun _ => [.one])) .standard .empty
      items r st ∧
    (∃ x ∈ items, x.status = .paused) ∧
    items.filterMap Progress.path = ["/d/c.md", "/d/a.md", "/d/b.md"] ∧
    (Summary.ofItems items).indexed + (Summary.ofItems items).failed = 3 := by
  have hworking : ∀ j ∈ samplePlan.jobs, j.change ≠ .unchanged := by decide
  have hy := (ofPlan samplePlan).take_yields
    (h := Files.single.switched (answering fun _ => [.one])) (s := .standard) 7 .empty ⟨[], [true]⟩
  have haccounts := (stream_protocol hworking hy).done (by decide +kernel)
  exact ⟨_, _, _, hworking, hy, by decide +kernel, haccounts.files, haccounts.sum⟩

end Run
end CodeIndex
