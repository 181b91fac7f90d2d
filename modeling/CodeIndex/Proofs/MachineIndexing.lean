import CodeIndex.Proofs.MachineChunks
import CodeIndex.Proofs.Reached
import CodeIndex.Proofs.Segments

namespace CodeIndex

namespace Utf8

theorem length_scan (done : List (Option Char)) (bs : Bytes) :
    (scan done bs).length ≤ done.length + bs.length := by
  fun_induction scan done bs with
  | case1 => simp
  | case2 done b bs hnext ih =>
    rw [List.length_cons] at ih ⊢
    omega

theorem length_decodeLossy (bs : Bytes) : (decodeLossy bs).length ≤ bs.length := by
  have := length_scan [] bs
  rw [decodeLossy, List.length_map]
  simpa using this

end Utf8

namespace Machine

/-- Where a row stands in its file: its number among the rows, its first line and its last one. -/
structure Place where
  index : Nat
  firstLine : Nat
  lastLine : Nat

structure Place.Fits (p : Place) : Prop where
  index : p.index < FullText.limitBound
  firstLine : p.firstLine < FullText.limitBound
  lastLine : p.lastLine < FullText.limitBound

/-- A place as a database has it. -/
def stored (p : Place) : Except IndexError Place := do
  return ⟨← signed p.index, ← signed p.firstLine, ← signed p.lastLine⟩

def window (size index : Nat) (group : List Text) : Except IndexError Window := do
  let first ← word ((← word (index * size)) + 1)
  let last ← minus (← word (first + group.length)) 1
  let place ← stored ⟨index, first, last⟩
  return ⟨place.index, place.firstLine, place.lastLine, Text.joinLines group⟩

def windows (size : Nat) (content : Text) : Except IndexError (List Window) :=
  let size := max size 1
  ((inGroups size content.lines).zipIdx.filter fun (group, _) =>
    !(Text.joinLines group).allBlank).mapM fun (group, index) => window size index group

def chunkRow (index : Nat) (c : Chunk) : Except IndexError ChunkRow := do
  let place ← stored ⟨index, c.firstLine, c.lastLine⟩
  return { ChunkRow.ofChunk place.index c with
    firstLine := place.firstLine, lastLine := place.lastLine }

def chunkRows (cs : List Chunk) : Except IndexError (List ChunkRow) :=
  cs.zipIdx.mapM fun (c, index) => chunkRow index c

def embeddingRow (index : Nat) (e : Embedded) : Except IndexError EmbeddingRow := do
  let place ← stored ⟨index, e.firstLine, e.lastLine⟩
  return { EmbeddingRow.ofEmbedded place.index e with
    firstLine := place.firstLine, lastLine := place.lastLine }

def embeddingRows (es : List Embedded) : Except IndexError (List EmbeddingRow) :=
  es.zipIdx.mapM fun (e, index) => embeddingRow index e

/-- What can be stored: neither the lines nor their number is too large. -/
structure Storable (es : List Embedded) : Prop where
  count : es.length < FullText.limitBound
  lines : ∀ e ∈ es, e.firstLine < FullText.limitBound ∧ e.lastLine < FullText.limitBound

theorem stored_ok {p : Place} (h : p.Fits) : stored p = .ok p := by
  rw [stored, signed_ok h.index, ok_bind, signed_ok h.firstLine, ok_bind, signed_ok h.lastLine]
  rfl

theorem windows_ok (size : Nat) {content : Text} (h : content.length < FullText.limitBound) :
    windows size content = .ok (Window.ofContent size content) := by
  have hsize : 1 ≤ max size 1 := Nat.le_max_right size 1
  have hwords := words_eq
  have hlines : content.lines.length ≤ content.length := content.lines_le.1
  unfold windows Window.ofContent
  dsimp only
  generalize max size 1 = size at hsize
  rw [List.filter_map]
  refine mapM_ok fun ⟨group, i⟩ hgroup => ?_
  have hplace := List.mem_zipIdx_iff_getElem?.mp (List.mem_of_mem_filter hgroup)
  dsimp only at hplace
  rw [getElem?_inGroups hsize] at hplace
  split at hplace
  · rename_i hi
    have hlength : group.length ≤ content.lines.length - i * size := by
      rw [← Option.some.inj hplace, List.length_take, List.length_drop]
      exact Nat.min_le_right _ _
    have hindex : i ≤ i * size := Nat.le_mul_of_pos_right i hsize
    have hlast : i * size + 1 + group.length - 1 = i * size + group.length := by omega
    have hfits : (Place.mk i (i * size + 1) (i * size + group.length)).Fits :=
      ⟨show i < _ by omega, show _ + 1 < _ by omega, show _ + group.length < _ by omega⟩
    dsimp only
    rw [window, word_ok (by omega), ok_bind, word_ok (by omega), ok_bind, word_ok (by omega),
      ok_bind, minus_ok (by omega), ok_bind, hlast, stored_ok hfits]
    rfl
  · cases hplace

theorem chunkRows_ok {source : Text} {cs : List Chunk} (h : source.length < FullText.limitBound)
    (hcs : Numbered source cs) : chunkRows cs = .ok (ChunkRow.ofChunks cs) := by
  refine mapM_ok fun ⟨c, i⟩ hc => ?_
  have hplace := List.mem_zipIdx_iff_getElem?.mp hc
  obtain ⟨hi, -⟩ := List.getElem?_eq_some_iff.mp hplace
  obtain ⟨hfirst, hlast⟩ := hcs.lines c (List.mem_of_getElem? hplace)
  have hfits : (Place.mk i c.firstLine c.lastLine).Fits :=
    ⟨Nat.lt_trans (Nat.lt_of_lt_of_le hi hcs.count) h, Nat.lt_of_le_of_lt hfirst h,
      Nat.lt_of_le_of_lt hlast h⟩
  dsimp only
  rw [chunkRow, stored_ok hfits]
  rfl

theorem embeddingRows_ok {es : List Embedded} (h : Storable es) :
    embeddingRows es = .ok (EmbeddingRow.ofAll es) := by
  refine mapM_ok fun ⟨e, i⟩ he => ?_
  have hplace := List.mem_zipIdx_iff_getElem?.mp he
  obtain ⟨hi, -⟩ := List.getElem?_eq_some_iff.mp hplace
  obtain ⟨hfirst, hlast⟩ := h.lines e (List.mem_of_getElem? hplace)
  have hfits : (Place.mk i e.firstLine e.lastLine).Fits := ⟨Nat.lt_trans hi h.count, hfirst, hlast⟩
  dsimp only
  rw [embeddingRow, stored_ok hfits]
  rfl

def chunks (s : Settings) (e : FileEntry) (content : Text) : Except IndexError (List Chunk) :=
  chunkFile s.parser content e.language s.limits

def write (s : Settings) (kind : ArtifactKind) (slot : Slot) (e : FileEntry) (content : Text)
    (embedded : List Embedded) (st : Store) : Except IndexError (Store × Outcome) := do
  match kind with
  | .metadata =>
    let _ ← word content.lineCount
    let rows := Fact.ofContent e content
    return ({ st with facts := st.facts.put slot rows }, ⟨rows.length, 0⟩)
  | .fullText =>
    let ws ← windows s.segmentLines content
    return (st.putWindows slot ws, ⟨ws.length, 0⟩)
  | .chunk =>
    let cs ← chunks s e content
    return ({ st with chunks := st.chunks.put slot (← chunkRows cs) }, ⟨cs.length, 0⟩)
  | .embeddings =>
    let rows ← embeddingRows embedded
    return ({ st with embeddings := st.embeddings.put slot rows },
      ⟨rows.length, rows.countP EmbeddingRow.failed⟩)

def update (s : Settings) (kind : ArtifactKind) (tag : Tag) (e : FileEntry) (change : Change)
    (embedded : List Embedded) (st : Store) : Except IndexError (Store × Outcome) :=
  let slot : Slot := ⟨tag.key, e.path⟩
  match change with
  | .unchanged => .ok (st, .nothing)
  | .removed => .ok (st.remove kind slot, .nothing)
  | .added | .updated =>
    match e.require kind with
    | .error err => .error err
    | .ok content => write s kind slot e content embedded st

def prepare (h : Host σ) (s : Settings) (e : FileEntry) (change : Change) :
    StateM σ (Except IndexError (Option (List Embedded))) := do
  match change with
  | .added | .updated =>
    match (e.require .embeddings).bind (chunks s e) with
    | .error err => return .error err
    | .ok cs => return .ok (← embedChunks h s e cs)
  | .removed | .unchanged => return .ok (some [])

def writeArtifacts (h : Host σ) (s : Settings) (j : Job) (e : FileEntry)
    (embedded : List Embedded) :
    List ArtifactKind → Nat → Store → StateM σ (Except IndexError (Store × Nat))
  | [], failed, st => do
    if ← h.isCancelled then return .error .cancelled else return .ok (st, failed)
  | kind :: kinds, failed, st => do
    if ← h.isCancelled then return .error .cancelled
    else match update s kind (j.scope.tagFor kind) e j.change embedded st with
      | .error err => return .error err
      | .ok (st, outcome) => writeArtifacts h s j e embedded kinds (failed + outcome.failed) st

def index (h : Host σ) (s : Settings) (j : Job) (st : Store) :
    StateM σ (Except IndexError (Store × Nat)) := do
  match ← j.bytes h s with
  | .error err => return .error err
  | .ok bytes =>
    if ← h.isCancelled then return .error .cancelled
    else
      let e := j.entry bytes
      match ← prepare h s e j.change with
      | .error err => return .error err
      | .ok none => return .error .cancelled
      | .ok (some embedded) =>
        match ← writeArtifacts h s j e embedded ArtifactKind.all 0 st with
        | .error err => return .error err
        | .ok (st, failed) =>
          return .ok (if failed = 0 then st.commit j.scope e j.change else st, failed)

/-- Settings under which files are cut as they stand: the limits are in order, and the parser tells
the truth. -/
structure Sound (s : Settings) : Prop where
  some : 1 ≤ s.limits.max
  ordered : s.limits.target ≤ s.limits.max
  reads : Reads s.parser

/-- What is known of a file fits into memory. -/
def InMemory (e : FileEntry) : Prop :=
  ∀ content, e.content = some content → content.length < FullText.limitBound

section
variable {σ : Type} {h : Host σ} {s : Settings} {e : FileEntry}

theorem chunks_eq (hs : Sound s) (e : FileEntry) {content : Text}
    (hcontent : content.length < FullText.limitBound) : chunks s e content = s.chunks e content :=
  chunkFile_eq hs.reads hcontent hs.ordered e.language

theorem write_eq (hs : Sound s) (kind : ArtifactKind) (slot : Slot) (e : FileEntry) {content : Text}
    (hcontent : content.length < FullText.limitBound) {embedded : List Embedded}
    (hembedded : Storable embedded) (st : Store) :
    write s kind slot e content embedded st = st.write s kind slot e content embedded := by
  cases kind with
  | metadata =>
    have hlines := content.lines_le.1
    have hwords := words_eq
    rw [write, word_ok (by omega)]
    rfl
  | fullText =>
    rw [write, windows_ok _ hcontent]
    rfl
  | chunk =>
    rw [write, chunks_eq hs e hcontent, Store.write]
    cases hcs : s.chunks e content with
    | error err => rfl
    | ok cs =>
      have hnumbered := chunkFile_numbered hs.reads hs.some hs.ordered hcs
      rw [ok_bind, chunkRows_ok hcontent hnumbered]
      rfl
  | embeddings =>
    rw [write, embeddingRows_ok hembedded]
    rfl

theorem update_eq (hs : Sound s) (he : InMemory e) {embedded : List Embedded}
    (hembedded : Storable embedded) (kind : ArtifactKind) (tag : Tag) (change : Change)
    (st : Store) :
    update s kind tag e change embedded st = st.update s kind tag e change embedded := by
  unfold update Store.update FileEntry.require
  cases hcontent : e.content with
  | none => rfl
  | some content =>
    cases change with
    | unchanged | removed => rfl
    | added | updated => exact write_eq hs kind _ e (he content hcontent) hembedded st

theorem prepare_eq (hs : Sound s) (he : InMemory e) (change : Change) :
    prepare h s e change = CodeIndex.prepare h s e change := by
  have hcut : (e.require .embeddings).bind (chunks s e) =
      (e.require .embeddings).bind (s.chunks e) := by
    unfold FileEntry.require
    cases hcontent : e.content with
    | none => rfl
    | some content => exact chunks_eq hs e (he content hcontent)
  cases change with
  | removed | unchanged => rfl
  | added | updated =>
    cases hcs : (e.require .embeddings).bind (s.chunks e) <;>
      simp only [prepare, CodeIndex.prepare, hcut, hcs]

/-- The embeddings of a file that fits into memory can be stored. -/
theorem prepared_storable (hs : Sound s) (he : InMemory e) {change : Change}
    {embedded : List Embedded} {w : σ}
    (hmade : ((CodeIndex.prepare h s e change).run w).1 = .ok (some embedded)) :
    Storable embedded := by
  have hempty : Storable [] := ⟨by decide, by simp⟩
  cases change with
  | unchanged | removed =>
    cases hmade
    exact hempty
  | added | updated =>
    obtain ⟨content, cs, vectors, hcontent, hcs, -, rfl⟩ := prepare_some (by simp) hmade
    have hsize := he content hcontent
    have hnumbered := chunkFile_numbered hs.reads hs.some hs.ordered hcs
    refine ⟨?_, fun x hx => ?_⟩
    · rw [List.length_zipWith]
      exact Nat.lt_of_le_of_lt (Nat.le_trans (Nat.min_le_left _ _) hnumbered.count) hsize
    · rw [← List.map_uncurry_zip_eq_zipWith] at hx
      obtain ⟨⟨c, v⟩, hc, rfl⟩ := List.mem_map.mp hx
      obtain ⟨hfirst, hlast⟩ := hnumbered.lines c (List.of_mem_zip hc).1
      exact ⟨Nat.lt_of_le_of_lt hfirst hsize, Nat.lt_of_le_of_lt hlast hsize⟩

theorem writeArtifacts_eq (hs : Sound s) (j : Job) (he : InMemory e) {embedded : List Embedded}
    (hembedded : Storable embedded) (kinds : List ArtifactKind) (failed : Nat) (st : Store) :
    writeArtifacts h s j e embedded kinds failed st =
      j.writeArtifacts h s e embedded kinds failed st := by
  induction kinds generalizing failed st with
  | nil => rfl
  | cons kind kinds ih =>
    have hkind := update_eq hs he hembedded kind (j.scope.tagFor kind) j.change st
    cases hu : st.update s kind (j.scope.tagFor kind) e j.change embedded with
    | error err => simp only [writeArtifacts, Job.writeArtifacts, hkind, hu]
    | ok updated => simp only [writeArtifacts, Job.writeArtifacts, hkind, hu, ih]

theorem entry_in_memory (j : Job) {bytes : Bytes} (h : bytes.length < FullText.limitBound) :
    InMemory (j.entry bytes) := by
  unfold Job.entry
  split
  · intro content hcontent
    cases hcontent
  · intro content hcontent
    cases hcontent
    exact Nat.lt_of_le_of_lt (Utf8.length_decodeLossy bytes) h

/-- A file that is read fits into memory. -/
theorem length_of_read (hreads : ∀ p bytes w, ((h.read p).run w).1 = .ok bytes →
    bytes.length < FullText.limitBound) {j : Job} {bytes : Bytes} {w : σ}
    (hread : ((j.bytes h s).run w).1 = .ok bytes) : bytes.length < FullText.limitBound := by
  unfold Job.bytes at hread
  split at hread
  · cases hread
    decide
  · exact hreads j.path bytes w (read_of_read_within hread).1

/-- On files that fit into memory, indexing with bounded numbers is indexing. -/
theorem index_eq (hs : Sound s) (hreads : ∀ p bytes w, ((h.read p).run w).1 = .ok bytes →
    bytes.length < FullText.limitBound) (j : Job) (st : Store) (w : σ) :
    (index h s j st).run w = (j.index h s st).run w := by
  unfold index Job.index
  rw [run_bind, run_bind]
  have hbytes : ∀ bytes, ((j.bytes h s).run w).1 = .ok bytes → bytes.length < FullText.limitBound :=
    fun _ => length_of_read hreads
  generalize (j.bytes h s).run w = read at hbytes
  obtain ⟨read, w₁⟩ := read
  cases read with
  | error err => rfl
  | ok bytes =>
    have he := entry_in_memory j (hbytes bytes rfl)
    simp only [run_bind]
    split
    · rfl
    · simp only [prepare_eq hs he, run_bind]
      have hmade : ∀ embedded, ((CodeIndex.prepare h s (j.entry bytes) j.change).run
          (h.isCancelled.run w₁).2).1 = .ok (some embedded) → Storable embedded :=
        fun _ => prepared_storable hs he
      generalize (CodeIndex.prepare h s (j.entry bytes) j.change).run _ = made at hmade
      obtain ⟨made, w₂⟩ := made
      cases made with
      | error err => rfl
      | ok made =>
        cases made with
        | none => rfl
        | some embedded =>
          have hkinds := writeArtifacts_eq (h := h) hs j he (hmade embedded rfl)
            ArtifactKind.all 0 st
          generalize hwritten :
            (j.writeArtifacts h s (j.entry bytes) embedded ArtifactKind.all 0 st).run w₂ = written
          obtain ⟨written, w₃⟩ := written
          cases written <;> simp only [run_bind, hkinds, hwritten]

end

/-- Steps that succeeded one after another. -/
theorem bind_eq_ok {α β ε : Type} {x : Except ε α} {f : α → Except ε β} {b : β}
    (h : (x >>= f) = .ok b) : ∃ a, x = .ok a ∧ f a = .ok b := by
  cases x with
  | error e => cases h
  | ok a => exact ⟨a, rfl, h⟩

theorem mem_of_mapM {α β ε : Type} {f : α → Except ε β} {as : List α} {bs : List β}
    (h : as.mapM f = .ok bs) : ∀ b ∈ bs, ∃ a ∈ as, f a = .ok b := by
  induction as generalizing bs with
  | nil =>
    cases h
    simp
  | cons a as ih =>
    rw [List.mapM_cons] at h
    obtain ⟨first, hfirst, h⟩ := bind_eq_ok h
    obtain ⟨rest, hrest, h⟩ := bind_eq_ok h
    cases h
    rw [List.forall_mem_cons]
    refine ⟨⟨a, List.mem_cons_self, hfirst⟩, fun b hb => ?_⟩
    obtain ⟨c, hc, hb⟩ := ih hrest b hb
    exact ⟨c, List.mem_cons_of_mem a hc, hb⟩

theorem signed_fits {m n : Nat} (h : signed m = .ok n) : n < FullText.limitBound := by
  unfold signed at h
  split at h
  · cases h
    assumption
  · cases h

theorem stored_fits {p q : Place} (h : stored p = .ok q) : q.Fits := by
  obtain ⟨index, hindex, h⟩ := bind_eq_ok h
  obtain ⟨first, hfirst, h⟩ := bind_eq_ok h
  obtain ⟨last, hlast, h⟩ := bind_eq_ok h
  cases h
  exact ⟨signed_fits hindex, signed_fits hfirst, signed_fits hlast⟩

/-- The places of all rows fit signed words. -/
structure Readable (st : Store) : Prop where
  segments : ∀ r ∈ st.segments, (Place.mk r.2.index r.2.firstLine r.2.lastLine).Fits
  chunks : ∀ r ∈ st.chunks, (Place.mk r.2.index r.2.firstLine r.2.lastLine).Fits
  embeddings : ∀ r ∈ st.embeddings, (Place.mk r.2.index r.2.firstLine r.2.lastLine).Fits

theorem Readable.of_fewer {st st' : Store} (h : Readable st)
    (hsegments : st'.segments.Sublist st.segments) (hchunks : st'.chunks.Sublist st.chunks)
    (hembeddings : st'.embeddings.Sublist st.embeddings) : Readable st' :=
  ⟨fun r hr => h.segments r (hsegments.subset hr), fun r hr => h.chunks r (hchunks.subset hr),
    fun r hr => h.embeddings r (hembeddings.subset hr)⟩

theorem readable_empty : Readable .empty := ⟨by simp [Store.empty], by simp [Store.empty],
  by simp [Store.empty]⟩

theorem window_fits {size index : Nat} {group : List Text} {w : Window}
    (h : window size index group = .ok w) : (Place.mk w.index w.firstLine w.lastLine).Fits := by
  obtain ⟨_, -, h⟩ := bind_eq_ok h
  obtain ⟨_, -, h⟩ := bind_eq_ok h
  obtain ⟨_, -, h⟩ := bind_eq_ok h
  obtain ⟨_, -, h⟩ := bind_eq_ok h
  obtain ⟨place, hplace, h⟩ := bind_eq_ok h
  cases h
  exact stored_fits hplace

theorem chunkRow_fits {index : Nat} {c : Chunk} {r : ChunkRow} (h : chunkRow index c = .ok r) :
    (Place.mk r.index r.firstLine r.lastLine).Fits := by
  obtain ⟨place, hplace, h⟩ := bind_eq_ok h
  cases h
  exact stored_fits hplace

theorem embeddingRow_fits {index : Nat} {e : Embedded} {r : EmbeddingRow}
    (h : embeddingRow index e = .ok r) : (Place.mk r.index r.firstLine r.lastLine).Fits := by
  obtain ⟨place, hplace, h⟩ := bind_eq_ok h
  cases h
  exact stored_fits hplace

theorem mem_put {α : Type} {slot : Slot} {rows : List α} {t : Table α} {r : Slot × α}
    (hr : r ∈ t.put slot rows) : r ∈ t ∨ r.2 ∈ rows := by
  rcases List.mem_append.mp hr with hr | hr
  · exact Or.inl (List.mem_of_mem_filter hr)
  · obtain ⟨a, ha, rfl⟩ := List.mem_map.mp hr
    exact Or.inr ha

theorem readable_inserts {slot : Slot} {st st' : Store} {ws : List Window}
    (hi : Store.Inserts slot st ws st') (h : Readable st)
    (hws : ∀ w ∈ ws, (Place.mk w.index w.firstLine w.lastLine).Fits) : Readable st' := by
  induction hi with
  | nothing => exact h
  | window id hfresh hrest ih =>
    rw [List.forall_mem_cons] at hws
    refine ih ⟨?_, h.chunks, h.embeddings⟩ hws.2
    exact List.forall_mem_append.mpr ⟨h.segments, List.forall_mem_singleton.mpr hws.1⟩

theorem write_readable {s : Settings} {kind : ArtifactKind} {slot : Slot} {e : FileEntry}
    {content : Text} {embedded : List Embedded} {st st' : Store} {out : Outcome} (h : Readable st)
    (hwrite : write s kind slot e content embedded st = .ok (st', out)) : Readable st' := by
  cases kind with
  | metadata =>
    obtain ⟨_, -, hwrite⟩ := bind_eq_ok hwrite
    cases hwrite
    exact ⟨h.segments, h.chunks, h.embeddings⟩
  | fullText =>
    obtain ⟨ws, hws, hwrite⟩ := bind_eq_ok hwrite
    cases hwrite
    refine readable_inserts (Store.inserts_add_windows slot ws _) ?_ fun w hw => ?_
    · exact h.of_fewer List.filter_sublist (.refl _) (.refl _)
    · obtain ⟨_, -, hw⟩ := mem_of_mapM hws w hw
      exact window_fits hw
  | chunk =>
    obtain ⟨cs, -, hwrite⟩ := bind_eq_ok hwrite
    obtain ⟨rows, hrows, hwrite⟩ := bind_eq_ok hwrite
    cases hwrite
    refine ⟨h.segments, fun r hr => ?_, h.embeddings⟩
    rcases mem_put hr with hr | hr
    · exact h.chunks r hr
    · obtain ⟨_, -, hr⟩ := mem_of_mapM hrows r.2 hr
      exact chunkRow_fits hr
  | embeddings =>
    obtain ⟨rows, hrows, hwrite⟩ := bind_eq_ok hwrite
    cases hwrite
    refine ⟨h.segments, h.chunks, fun r hr => ?_⟩
    rcases mem_put hr with hr | hr
    · exact h.embeddings r hr
    · obtain ⟨_, -, hr⟩ := mem_of_mapM hrows r.2 hr
      exact embeddingRow_fits hr

theorem Readable.remove {st : Store} (h : Readable st) (kind : ArtifactKind) (slot : Slot) :
    Readable (st.remove kind slot) := by
  cases kind with
  | metadata => exact ⟨h.segments, h.chunks, h.embeddings⟩
  | fullText => exact h.of_fewer List.filter_sublist (.refl _) (.refl _)
  | chunk => exact h.of_fewer (.refl _) List.filter_sublist (.refl _)
  | embeddings => exact h.of_fewer (.refl _) (.refl _) List.filter_sublist

theorem Readable.clear {st : Store} (h : Readable st) (kind : ArtifactKind) (key : String) :
    Readable (st.clear kind key) := by
  cases kind with
  | metadata => exact ⟨h.segments, h.chunks, h.embeddings⟩
  | fullText => exact h.of_fewer List.filter_sublist (.refl _) (.refl _)
  | chunk => exact h.of_fewer (.refl _) List.filter_sublist (.refl _)
  | embeddings => exact h.of_fewer (.refl _) (.refl _) List.filter_sublist

theorem Readable.clear_tag {st : Store} (h : Readable st) (tag : Tag) :
    Readable (st.clearTag tag) := by
  unfold Store.clearTag
  cases ArtifactKind.ofId? tag.artifact with
  | none => exact ⟨h.segments, h.chunks, h.embeddings⟩
  | some kind =>
    have hclear := h.clear kind tag.key
    exact ⟨hclear.segments, hclear.chunks, hclear.embeddings⟩

section
variable {s : Settings} {e : FileEntry} {embedded : List Embedded} {st st' : Store}

theorem update_readable (hs : Sound s) (he : InMemory e) (hembedded : Storable embedded)
    {kind : ArtifactKind} {tag : Tag} {change : Change} {out : Outcome} (h : Readable st)
    (hupdate : st.update s kind tag e change embedded = .ok (st', out)) : Readable st' := by
  rw [← update_eq hs he hembedded] at hupdate
  unfold update at hupdate
  cases change with
  | unchanged =>
    cases hupdate
    exact h
  | removed =>
    cases hupdate
    exact h.remove kind _
  | added | updated =>
    cases hcontent : e.require kind with
    | error err =>
      simp only [hcontent] at hupdate
      cases hupdate
    | ok content =>
      simp only [hcontent] at hupdate
      exact write_readable h hupdate

theorem update_all_readable (hs : Sound s) (he : InMemory e) (hembedded : Storable embedded)
    {scope : Scope} {change : Change} {kinds : List ArtifactKind} {failed lost : Nat}
    (h : Readable st)
    (hall : st.updateAll s scope e change embedded kinds failed = .ok (st', lost)) :
    Readable st' := by
  induction kinds generalizing failed st with
  | nil =>
    cases hall
    exact h
  | cons kind kinds ih =>
    rw [Store.updateAll] at hall
    split at hall
    · cases hall
    · rename_i hupdate
      exact ih (update_readable hs he hembedded h hupdate) hall

theorem update_file_readable (hs : Sound s) (he : InMemory e) (hembedded : Storable embedded)
    {scope : Scope} {change : Change} {lost : Nat} (h : Readable st)
    (hfile : st.updateFile s scope e change embedded = .ok (st', lost)) : Readable st' := by
  rw [Store.updateFile] at hfile
  split at hfile
  · cases hfile
  · rename_i hall
    have hreadable := update_all_readable hs he hembedded h hall
    cases hfile
    split
    · rw [Store.commit_eq]
      exact ⟨hreadable.segments, hreadable.chunks, hreadable.embeddings⟩
    · exact hreadable

end

theorem index_readable {σ : Type} {h : Host σ} {s : Settings} (hs : Sound s)
    (hreads : ∀ p bytes w, ((h.read p).run w).1 = .ok bytes → bytes.length < FullText.limitBound)
    {j : Job} {st st' : Store} {lost : Nat} {w : σ} (hst : Readable st)
    (hindex : ((j.index h s st).run w).1 = .ok (st', lost)) : Readable st' := by
  obtain ⟨bytes, embedded, w₁, hread, hmade, hfile⟩ := index_ok hindex
  have he := entry_in_memory j (length_of_read hreads hread)
  exact update_file_readable hs he (prepared_storable hs he hmade) hst hfile

/-- Whatever an indexer stores of files that fit into memory can be read back. -/
theorem reached_readable {S : Settings → Prop} {R : Rules} {st : Store} (hs : ∀ s, S s → Sound s)
    (hcontents : ∀ bytes, R.contents bytes → bytes.length < FullText.limitBound)
    (hst : Reached S R st) : Readable st := by
  induction hst with
  | empty => exact readable_empty
  | @turn s _ h r st w _ hsettings hallow hr ih =>
    have hreads := fun p bytes w hread => hcontents bytes (hallow.reads (p := p) (w := w) hread)
    have hleads : r.Leads h s st ((r.next h s st).run w).1 := Run.next_leads w
    generalize ((r.next h s st).run w).1 = turn at hleads
    cases hleads with
    | index _ _ _ _ hindex => exact index_readable (hs s hsettings) hreads ih hindex
    | _ => exact ih
  | @clear _ h st w _ _ ih =>
    rw [clear_indexes_run]
    generalize (h.tags.run w).1 = tags
    induction tags using List.reverseRecOn with
    | nil => exact ih
    | append_singleton tags tag htags =>
      rw [List.foldl_append]
      exact htags.clear_tag tag

end Machine
end CodeIndex
