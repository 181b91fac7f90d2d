import CodeIndex.Proofs.Endings
import CodeIndex.Proofs.UpToDate
import Mathlib.Data.Set.Function

namespace CodeIndex

/-- The vectors of a file whose texts are mapped by a function. -/
def Settings.vectors (s : Settings) (f : Text → Embedding) (p : Path) (bytes : Bytes) :
    List (Option Embedding) :=
  match s.chunksOf p bytes with
  | .error _ => []
  | .ok cs => cs.map fun c => some (f (c.embeddingText p (Language.ofPath? p)))

theorem vectors_of_answers {s : Settings} {f : Text → Embedding} {p : Path} {bytes : Bytes}
    {cs : List Chunk} {vectors : List (Option Embedding)} (hchunks : s.chunksOf p bytes = .ok cs)
    (hanswers : Answers (Faithful f) (s.batches (.ofBytes p bytes) cs) vectors) :
    vectors = s.vectors f p bytes := by
  rw [hanswers.faithful, Settings.flatten_batches, List.map_map, Settings.vectors, hchunks]
  rfl

/-- What stands of a file with these bytes that was indexed in full. -/
def Settings.full (s : Settings) (f : Text → Embedding) (p : Path) (bytes : Bytes) : Standing :=
  ⟨some (s, bytes, s.vectors f p bytes), some bytes⟩

theorem full_of_answers {s : Settings} {f : Text → Embedding} {scope : Scope} {p : Path}
    {bytes : Bytes} {cs : List Chunk} {vectors : List (Option Embedding)}
    (hchunks : s.chunksOf p bytes = .ok cs)
    (hanswers : Answers (Faithful f) (s.batches (.ofBytes p bytes) cs) vectors) (x : Standing) :
    (Act.write s scope p bytes vectors).leaves x = s.full f p bytes := by
  have hcomplete : vectors.all Option.isSome := by
    rw [hanswers.faithful, List.all_map, List.all_eq_true]
    intro text _
    rfl
  rw [Act.leaves, if_pos hcomplete, vectors_of_answers hchunks hanswers, Settings.full]

/-- Under a provider that never fails, a file is indexed in full or not at all. -/
theorem standing_full {s : Settings} {R : Rules} {f : Text → Embedding}
    (hfaithful : ∀ batch reply, R.replies batch reply → Faithful f batch reply)
    {journal : List Act} (hpossible : ∀ a ∈ journal, a.Possible (· = s) R) (k : ArtifactKind)
    (scope : Scope) (p : Path) : standing k scope p journal = .nothing ∨
      ∃ bytes, standing k scope p journal = s.full f p bytes := by
  apply standing_keeps (fun x => x = .nothing ∨ ∃ bytes, x = s.full f p bytes) (Or.inl rfl)
  intro a ha htouches x _
  have hp := hpossible a ha
  cases a with
  | write s t q bytes vectors =>
    obtain ⟨-, rfl⟩ := decide_eq_true_iff.mp htouches
    obtain ⟨rfl, -, cs, hchunks, hanswers⟩ := hp
    exact Or.inr ⟨bytes, full_of_answers hchunks (hanswers.mono hfaithful) x⟩
  | remove | clear => exact Or.inl rfl

/-- A recorded hash tells all that stands of a path. -/
theorem standing_of_hash {s : Settings} {R : Rules} {f : Text → Embedding}
    (hfaithful : ∀ batch reply, R.replies batch reply → Faithful f batch reply)
    (hhash : Set.InjOn hashBytes {bytes | R.contents bytes}) {journal : List Act}
    (hpossible : ∀ a ∈ journal, a.Possible (· = s) R) {k : ArtifactKind} {scope : Scope} {p : Path}
    {bytes : Bytes} (hcontents : R.contents bytes)
    (hkept : (standing k scope p journal).recorded.map hashBytes = some (hashBytes bytes)) :
    standing k scope p journal = s.full f p bytes := by
  rcases standing_full hfaithful hpossible k scope p with hx | ⟨bytes', hx⟩
  · rw [hx] at hkept
    cases hkept
  · have hcontents' : R.contents bytes' :=
      (standing_possible hpossible k scope p).recorded (by rw [hx, Settings.full])
    rw [hx] at hkept ⊢
    rw [hhash hcontents' hcontents (Option.some.inj hkept)]

theorem standing_of_no_hash {s : Settings} {R : Rules} {f : Text → Embedding}
    (hfaithful : ∀ batch reply, R.replies batch reply → Faithful f batch reply)
    {journal : List Act} (hpossible : ∀ a ∈ journal, a.Possible (· = s) R) {k : ArtifactKind}
    {scope : Scope} {p : Path}
    (hkept : (standing k scope p journal).recorded.map hashBytes = none) :
    standing k scope p journal = .nothing := by
  rcases standing_full hfaithful hpossible k scope p with hx | ⟨bytes, hx⟩
  · exact hx
  · rw [hx] at hkept
    cases hkept

/-- What stands of a path once a directory has been indexed in full. -/
def Files.standing (files : Files) (s : Settings) (f : Text → Embedding) (dir p : Path) :
    Standing :=
  match files.list dir, files.read p with
  | .ok listed, .ok bytes => if p ∈ listed then s.full f p bytes else .nothing
  | _, _ => .nothing

section
variable {σ : Type} {h : Host σ} {files : Files} {s : Settings} {R : Rules} {f : Text → Embedding}

theorem files_standing_listed {dir p : Path} {listed : List Path} {bytes : Bytes}
    (hlist : files.list dir = .ok listed) (hp : p ∈ listed) (hread : files.read p = .ok bytes) :
    files.standing s f dir p = s.full f p bytes := by
  simp only [Files.standing, hlist, hread, if_pos hp]

theorem files_standing_unlisted {dir p : Path} {listed : List Path}
    (hlist : files.list dir = .ok listed) (hp : p ∉ listed) :
    files.standing s f dir p = .nothing := by
  simp only [Files.standing, hlist]
  split
  · rename_i hok _
    cases hok
    rw [if_neg hp]
  · rfl

/-- A refresh of directories with tag keys of their own leaves of each path what its directory has
of it, whatever stood there before. -/
theorem Completes.rests (hfaithful : ∀ batch reply, R.replies batch reply → Faithful f batch reply)
    (hhash : Set.InjOn hashBytes {bytes | R.contents bytes}) (hallow : R.Allow h)
    (hshows : h.Shows files) {dirs : List Path} (hapart : files.Apart dirs) {st st' : Store}
    (hc : Completes h s dirs st st') {journal : List Act}
    (hpossible : ∀ a ∈ journal, a.Possible (· = s) R) (ht : st.Tells journal) : ∃ journal',
      (∀ a ∈ journal', a.Possible (· = s) R) ∧ st'.Tells journal' ∧
        ∀ dir ∈ dirs, files.Indexable s dir ∧ ∀ k p,
          standing k (files.scope dir) p journal' = files.standing s f dir p := by
  have hcurrent := hc.up_to_date ht hshows hapart
  obtain ⟨w, plan, hplan, hdone⟩ := hc
  obtain ⟨-, acts, hacts, htells⟩ := hdone.tells hplan ht
  have hpossible' : ∀ a ∈ journal ++ acts, a.Possible (· = s) R := by
    intro a ha
    rcases List.mem_append.mp ha with ha | ha
    · exact hpossible a ha
    · obtain ⟨j, -, hact, -⟩ := exists_left_of_forall₂ hacts ha
      exact hact.possible rfl hallow
  refine ⟨journal ++ acts, hpossible', htells, ?_⟩
  intro dir hdir
  obtain ⟨hrecords, listed, hlist, hnone⟩ := hcurrent dir hdir
  have hread : ∀ p ∈ listed, ∃ bytes, files.readWithin s.maxFileSize p = .ok bytes := fun p hp =>
    read_of_kept (List.filterMap_eq_nil_iff.mp hnone p hp)
  have hrests : ∀ k p,
      standing k (files.scope dir) p (journal ++ acts) = files.standing s f dir p := by
    intro k p
    have hkept := hrecords p
    simp only [htells.hash] at hkept
    by_cases hp : p ∈ listed
    · obtain ⟨bytes, hwithin⟩ := hread p hp
      obtain ⟨hbytes, -⟩ := read_of_at_rest hwithin
      have hcontents : R.contents bytes := hallow.reads ((hshows.read p w).trans hbytes)
      rw [files_standing_listed hlist hp hbytes]
      exact standing_of_hash hfaithful hhash hpossible' hcontents
        (hkept _ (record_listed hlist hp hwithin) k)
    · rw [files_standing_unlisted hlist hp]
      exact standing_of_no_hash hfaithful hpossible' (hkept _ (record_unlisted hlist hp) k)
  refine ⟨⟨listed, hlist, ?_⟩, hrests⟩
  intro p hp
  obtain ⟨bytes, hbytes⟩ := hread p hp
  obtain ⟨hbytes, hsize⟩ := read_of_at_rest hbytes
  -- The file stands indexed in full, so it was cut into chunks.
  have hwritten : (standing .chunk (files.scope dir) p (journal ++ acts)).written =
      some (s, bytes, s.vectors f p bytes) := by
    rw [hrests, files_standing_listed hlist hp hbytes, Settings.full]
  obtain ⟨cs, hchunks, -⟩ := ((standing_possible hpossible' _ _ _).written hwritten).answers
  exact ⟨bytes, hbytes, hsize, cs, hchunks⟩

end

/-- After any history under a provider that never fails, a refresh that completes makes the store
it would make of an empty one, in all that is filed under its directories. -/
theorem refresh_equals_scratch {σ : Type} {h : Host σ} {files : Files} {s : Settings} {R : Rules}
    {f : Text → Embedding} {dirs : List Path} {st st' : Store}
    (hfaithful : ∀ batch reply, R.replies batch reply → Faithful f batch reply)
    (hhash : Set.InjOn hashBytes {bytes | R.contents bytes}) (hst : Reached (· = s) R st)
    (hallow : R.Allow h) (hshows : h.Shows files)
    (hkeys : ∀ dir ∈ dirs, ∀ dir' ∈ dirs, ∀ k,
      ((files.scope dir).tagFor k).key = ((files.scope dir').tagFor k).key → dir = dir')
    (hc : Completes h s dirs st st') :
    (∃ scratch, Completes (files.host (answering f)) s dirs .empty scratch) ∧
      ∀ scratch, Completes (files.host (answering f)) s dirs .empty scratch →
        ∀ dir ∈ dirs, ∀ k p,
          st'.rowsOf k ((files.scope dir).slot k p) =
            scratch.rowsOf k ((files.scope dir).slot k p) ∧
          st'.catalog.rows ((files.scope dir).slot k p) =
            scratch.catalog.rows ((files.scope dir).slot k p) := by
  have hstems : ∀ dir ∈ dirs, ∀ dir' ∈ dirs,
      (files.scope dir).stem = (files.scope dir').stem → dir = dir' := by
    intro dir hdir dir' hdir' hstem
    exact hkeys dir hdir dir' hdir' .metadata (Scope.key_eq_iff.mpr ⟨hstem, rfl⟩)
  obtain ⟨w, _⟩ := id hc
  obtain ⟨journal, hpossible, ht⟩ := hst.tells
  obtain ⟨journal', -, ht', hrests⟩ :=
    hc.rests hfaithful hhash hallow hshows hstems hpossible ht
  let R₀ : Rules := ⟨R.contents, Faithful f, R.clears⟩
  have hallow₀ : R₀.Allow (files.host (answering f)) := by
    refine Files.host_allowed ?_ fun batch => Or.inr rfl
    intro p bytes hread
    exact hallow.reads ((hshows.read p w).trans hread)
  refine ⟨completes_total f (fun dir hdir => (hrests dir hdir).1) Store.tells_empty, ?_⟩
  intro scratch hscratch dir hdir k p
  obtain ⟨journal₀, -, ht₀, hrests₀⟩ := hscratch.rests (R := R₀) (fun _ _ hr => hr) hhash hallow₀
    (files.host_shows _) hstems (fun _ ha => absurd ha List.not_mem_nil) Store.tells_empty
  have hsame : standing k (files.scope dir) p journal' =
      standing k (files.scope dir) p journal₀ :=
    ((hrests dir hdir).2 k p).trans ((hrests₀ dir hdir).2 k p).symm
  rw [ht'.rows, ht'.records, ht₀.rows, ht₀.records, hsame]
  exact ⟨rfl, rfl⟩

/-- A workspace in which one file is then edited, one removed and one new. -/
def Files.unedited : Files := .ofList [("/d/a.md", [97]), ("/d/b.md", [97])]

def Files.edited : Files := .ofList [("/d/a.md", [98]), ("/d/c.md", [97])]

/-- What can happen to the workspace while all vectors are the same. -/
def Rules.editing : Rules where
  contents bytes := bytes = [97] ∨ bytes = [98]
  replies := Faithful fun _ => [.one]
  clears _ := True

theorem unedited_indexable : ∀ dir ∈ ["/d"], Files.unedited.Indexable .standard dir := by
  intro dir _
  apply Files.of_list_indexable <;> decide

theorem edited_indexable : ∀ dir ∈ ["/d"], Files.edited.Indexable .standard dir := by
  intro dir _
  apply Files.of_list_indexable <;> decide

theorem editing_allows {files : Files} (hfiles : files = .unedited ∨ files = .edited) :
    Rules.editing.Allow (files.host (answering fun _ => [.one])) := by
  refine Files.host_allowed ?_ fun batch => Or.inr rfl
  intro p bytes hread
  rcases hfiles with rfl | rfl
  · have hmem : bytes ∈ [[97], [97]] := Files.mem_of_of_list_read hread
    exact Or.inl (by simpa using hmem)
  · have hmem : bytes ∈ [[98], [97]] := Files.mem_of_of_list_read hread
    exact Or.symm (by simpa using hmem)

theorem editing_hashes : Set.InjOn hashBytes {bytes | Rules.editing.contents bytes} := by
  have hne : hashBytes [97] ≠ hashBytes [98] := by decide +kernel
  rintro _ (rfl | rfl) _ (rfl | rfl) hsame
  · rfl
  · exact absurd hsame hne
  · exact absurd hsame.symm hne
  · rfl

/-- The edited workspace, refreshed over what its first state left in the store. -/
theorem refresh_equals_scratch_edited : ∃ st st' scratch,
    Completes (Files.unedited.host (answering fun _ => [.one])) .standard ["/d"] .empty st ∧
      Completes (Files.edited.host (answering fun _ => [.one])) .standard ["/d"] st st' ∧
      Completes (Files.edited.host (answering fun _ => [.one])) .standard ["/d"] .empty scratch ∧
      ∀ k p, st'.rowsOf k ((Files.edited.scope "/d").slot k p) =
          scratch.rowsOf k ((Files.edited.scope "/d").slot k p) ∧
        st'.catalog.rows ((Files.edited.scope "/d").slot k p) =
          scratch.catalog.rows ((Files.edited.scope "/d").slot k p) := by
  obtain ⟨st, hst⟩ := completes_total _ unedited_indexable Store.tells_empty
  have hreached : Reached (· = .standard) .editing st :=
    hst.reached rfl (editing_allows (Or.inl rfl)) .empty
  obtain ⟨journal, -, ht⟩ := hreached.tells
  obtain ⟨st', hst'⟩ := completes_total _ edited_indexable ht
  obtain ⟨⟨scratch, hscratch⟩, hsame⟩ := refresh_equals_scratch (fun _ _ h => h) editing_hashes
    hreached (editing_allows (Or.inr rfl)) (Files.host_shows _ _) (by simp) hst'
  exact ⟨st, st', scratch, hst, hst', hscratch, hsame scratch hscratch "/d" (by simp)⟩

end CodeIndex
