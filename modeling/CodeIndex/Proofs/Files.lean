import CodeIndex.Config.Basic
import CodeIndex.Proofs.Completion

namespace CodeIndex

/-- A workspace at rest. Two spellings of a path are the same file. -/
structure Files where
  branch : Path → String
  list : Path → Except IndexError (List Path)
  read : Path → Except IndexError Bytes
  read_same : ∀ {p q : Path}, Path.same p q → read p = read q

/-- A host whose files stay as they are, whatever else happens to it. -/
structure Host.Shows (h : Host σ) (files : Files) : Prop where
  branch : ∀ (dir : Path) (w : σ), ((h.branch dir).run w).1 = files.branch dir
  list : ∀ (dir : Path) (w : σ), ((h.list dir).run w).1 = files.list dir
  read : ∀ (p : Path) (w : σ), ((h.read p).run w).1 = files.read p

namespace Files

def scope (files : Files) (dir : Path) : Scope := ⟨files.branch dir, dir⟩

/-- A file with these bytes can be indexed. -/
structure Fits (files : Files) (s : Settings) (p : Path) (bytes : Bytes) : Prop where
  read : files.read p = .ok bytes
  size : bytes.length ≤ s.maxFileSize
  chunks : ∃ cs, s.chunksOf p bytes = .ok cs

/-- All that a directory lists can be indexed. -/
def Indexable (files : Files) (s : Settings) (dir : Path) : Prop :=
  ∃ listed, files.list dir = .ok listed ∧ ∀ p ∈ listed, ∃ bytes, files.Fits s p bytes

/-- The host of a workspace at rest that never pauses or cancels. -/
def host (files : Files) (provider : List Text → Except ProviderError (List Embedding)) :
    Host Unit where
  dirs := pure []
  branch dir := pure (files.branch dir)
  list dir := pure (files.list dir)
  read p := pure (files.read p)
  embed batch := pure (some (provider batch))
  isCancelled := pure false
  isPaused := pure false

theorem host_shows (files : Files) (provider : List Text → Except ProviderError (List Embedding)) :
    (files.host provider).Shows files := ⟨fun _ _ => rfl, fun _ _ => rfl, fun _ _ => rfl⟩

/-- The host of a workspace at rest that has directories of its own. -/
def workspace (files : Files) (dirs : List Path)
    (provider : List Text → Except ProviderError (List Embedding)) : Host Unit :=
  { files.host provider with dirs := pure dirs }

theorem workspace_shows (files : Files) (dirs : List Path)
    (provider : List Text → Except ProviderError (List Embedding)) :
    (files.workspace dirs provider).Shows files := ⟨fun _ _ => rfl, fun _ _ => rfl, fun _ _ => rfl⟩

/-- The directories are filed under tag keys of their own. -/
def Apart (files : Files) (dirs : List Path) : Prop :=
  ∀ dir ∈ dirs, ∀ dir' ∈ dirs, (files.scope dir).stem = (files.scope dir').stem → dir = dir'

theorem apart_of_keys {files : Files} {dirs : List Path}
    (hkeys : ∀ dir ∈ dirs, ∀ dir' ∈ dirs, ∀ k,
      ((files.scope dir).tagFor k).key = ((files.scope dir').tagFor k).key → dir = dir') :
    files.Apart dirs := by
  intro dir hdir dir' hdir' hstem
  exact hkeys dir hdir dir' hdir' .metadata (Scope.key_eq_iff.mpr ⟨hstem, rfl⟩)

theorem Apart.keys {files : Files} {dirs : List Path} (h : files.Apart dirs) :
    ∀ dir ∈ dirs, ∀ dir' ∈ dirs, ∀ k,
      ((files.scope dir).tagFor k).key = ((files.scope dir').tagFor k).key → dir = dir' := by
  intro dir hdir dir' hdir' k hkey
  exact h dir hdir dir' hdir' (Scope.key_eq_iff.mp hkey).1

instance (files : Files) (dirs : List Path) : Decidable (files.Apart dirs) :=
  inferInstanceAs (Decidable (∀ dir ∈ dirs, ∀ dir' ∈ dirs, _ → _))

end Files

theorem Files.host_allowed {files : Files} {R : Rules}
    {provider : List Text → Except ProviderError (List Embedding)}
    (hreads : ∀ {p bytes}, files.read p = .ok bytes → R.contents bytes)
    (hreplies : ∀ batch, R.replies batch (some (provider batch))) :
    R.Allow (files.host provider) := ⟨hreads, fun batch _ => hreplies batch⟩

/-- The provider that maps each text by a function. -/
def answering (f : Text → Embedding) : List Text → Except ProviderError (List Embedding) :=
  fun batch => .ok (batch.map f)

/-- The provider that has an answer to nothing. -/
def failing : List Text → Except ProviderError (List Embedding) := fun _ => .error .unavailable

/-- What two switches will answer, one question after another; at last they are off. -/
structure Switches where
  cancels : List Bool
  pauses : List Bool

/-- The host of a workspace at rest that is paused and cancelled as its switches say. -/
def Files.switched (files : Files)
    (provider : List Text → Except ProviderError (List Embedding)) : Host Switches where
  dirs := pure []
  branch dir := pure (files.branch dir)
  list dir := pure (files.list dir)
  read p := pure (files.read p)
  embed batch := pure (some (provider batch))
  isCancelled := fun w => (w.cancels.headD false, { w with cancels := w.cancels.tail })
  isPaused := fun w => (w.pauses.headD false, { w with pauses := w.pauses.tail })

theorem Files.switched_shows (files : Files)
    (provider : List Text → Except ProviderError (List Embedding)) :
    (files.switched provider).Shows files := ⟨fun _ _ => rfl, fun _ _ => rfl, fun _ _ => rfl⟩

/-- A workspace of one directory, with files that are all listed. -/
def Files.ofList (entries : List (Path × Bytes)) : Files where
  branch _ := noBranch
  list _ := .ok (entries.map Prod.fst)
  read p :=
    match entries.find? fun e => Path.same e.1 p with
    | some e => .ok e.2
    | none => .error (.io true "no such file")
  read_same := by
    intro p q hsame
    have hspelling : ∀ r, Path.same r p = Path.same r q := by
      intro r
      simp only [Path.same] at hsame ⊢
      rw [eq_of_beq hsame]
    simp only [hspelling]

/-- Files that have no syntax tree can be indexed, unless they are too large. -/
theorem Files.of_list_indexable {entries : List (Path × Bytes)} {s : Settings}
    (hsize : ∀ e ∈ entries, e.2.length ≤ s.maxFileSize)
    (hplain : ∀ e ∈ entries, ∀ l, Language.ofPath? e.1 = some l → l.entityKinds = [])
    (dir : Path) : (Files.ofList entries).Indexable s dir := by
  refine ⟨_, rfl, ?_⟩
  intro p hp
  obtain ⟨e, he, rfl⟩ := List.mem_map.mp hp
  have hfound : (entries.find? fun d => Path.same d.1 e.1).isSome := by
    rw [List.find?_isSome]
    exact ⟨e, he, by simp [Path.same]⟩
  obtain ⟨found, hfound⟩ := Option.isSome_iff_exists.mp hfound
  refine ⟨found.2, ?_, hsize found (List.mem_of_find?_eq_some hfound), ?_⟩
  · simp only [Files.ofList, hfound]
  · unfold Settings.chunksOf Settings.chunks chunkFile FileEntry.ofBytes
    cases hl : Language.ofPath? e.1 with
    | none => exact ⟨_, rfl⟩
    | some l =>
      have hempty := hplain e he l hl
      simp only [hempty, List.isEmpty_nil, if_true]
      exact ⟨_, rfl⟩

theorem Files.mem_of_of_list_read {entries : List (Path × Bytes)} {p : Path} {bytes : Bytes}
    (hread : (Files.ofList entries).read p = .ok bytes) : bytes ∈ entries.map Prod.snd := by
  simp only [Files.ofList] at hread
  split at hread
  · rename_i e he
    cases hread
    exact List.mem_map.mpr ⟨e, List.mem_of_find?_eq_some he, rfl⟩
  · cases hread

/-- The settings of an index that is not configured, for files without syntax trees. -/
def Settings.standard : Settings := ({} : Config).settings fun _ _ => none

/-- A workspace of one file, the same with other bytes in it, and the same without it. -/
def Files.single : Files := .ofList [("/d/a.md", [97])]

def Files.changed : Files := .ofList [("/d/a.md", [98])]

def Files.deserted : Files := .ofList []

theorem single_indexable : ∀ dir ∈ ["/d"], Files.single.Indexable .standard dir := by
  intro dir _
  apply Files.of_list_indexable <;> decide

theorem deserted_indexable : ∀ dir ∈ ["/d"], Files.deserted.Indexable .standard dir := by
  intro dir _
  apply Files.of_list_indexable <;> decide

end CodeIndex
