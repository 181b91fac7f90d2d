import CodeIndex.Proofs.Batches
import CodeIndex.Proofs.Files
import CodeIndex.Proofs.Groups
import Mathlib.Algebra.GroupWithZero.Nat

namespace CodeIndex

abbrev Reply := Except ProviderError (List Embedding)

/-- A batch with its number among the batches of a file. -/
structure NumberedBatch where
  number : Nat
  texts : List Text

/-- Which of the batches in flight, by its place, may have its reply taken up. -/
abbrev Delivery := List (NumberedBatch × Option Reply) → Nat → Prop

/-- What is relied on of the stream that the batches fly in: it delivers them in the order in which
they were sent, and the first one once it is answered. -/
structure Delivery.InOrder (deliver : Delivery) : Prop where
  first : ∀ {flying place}, deliver flying place → place = 0
  ready : ∀ {batch reply rest}, deliver ((batch, some reply) :: rest) 0

/-- The stream that looks at its first batch only. -/
def Delivery.buffered : Delivery := fun _ place => place = 0

theorem Delivery.buffered_in_order : buffered.InOrder := ⟨id, rfl⟩

/-- The batches of a file: those still to be sent, those in flight, of which some may be answered,
and those whose replies were taken up. The answers are kept in the order in which they came. -/
structure Sending where
  waiting : List NumberedBatch
  flying : List (NumberedBatch × Option Reply)
  taken : List (NumberedBatch × Reply)
  answers : List (NumberedBatch × Reply)

namespace Sending

/-- Batches are sent in order while there is room, are answered in any order and with any reply, and
their replies are taken up in order. -/
inductive Step (deliver : Delivery) (limit : Nat) (x : Sending) : Sending → Prop where
  | send {batch : NumberedBatch} {rest : List NumberedBatch} (hwaiting : x.waiting = batch :: rest)
      (hroom : x.flying.length < limit) :
      Step deliver limit x { x with waiting := rest, flying := x.flying ++ [(batch, none)] }
  | answer {before after : List (NumberedBatch × Option Reply)} {batch : NumberedBatch}
      (reply : Reply) (hflying : x.flying = before ++ (batch, none) :: after) :
      Step deliver limit x { x with
        flying := before ++ (batch, some reply) :: after
        answers := x.answers ++ [(batch, reply)] }
  | take {before after : List (NumberedBatch × Option Reply)} {batch : NumberedBatch}
      {reply : Reply} (hflying : x.flying = before ++ (batch, some reply) :: after)
      (hdeliver : deliver x.flying before.length) :
      Step deliver limit x { x with
        flying := before ++ after
        taken := x.taken ++ [(batch, reply)] }

/-- What becomes of some batches in so many steps. -/
inductive Runs (deliver : Delivery) (limit : Nat) (bs : List NumberedBatch) :
    Nat → Sending → Prop where
  | start : Runs deliver limit bs 0 ⟨bs, [], [], []⟩
  | next {n : Nat} {x y : Sending} (hruns : Runs deliver limit bs n x)
      (hstep : x.Step deliver limit y) : Runs deliver limit bs (n + 1) y

def IsDone (x : Sending) : Prop := x.waiting = [] ∧ x.flying = []

/-- How many steps are left: three for a batch that is not sent yet. -/
def left (x : Sending) : Nat :=
  3 * x.waiting.length + (x.flying.map fun b => if b.2.isSome then 1 else 2).sum

/-- The answers that are not taken up yet. -/
def pending (x : Sending) : List (NumberedBatch × Reply) :=
  x.flying.filterMap fun b => b.2.map fun reply => (b.1, reply)

/-- No batch is lost, repeated or moved, and every answer is where its batch is. -/
structure Keeps (x : Sending) (limit : Nat) (bs : List NumberedBatch) (n : Nat) : Prop where
  batches : x.taken.map Prod.fst ++ x.flying.map Prod.fst ++ x.waiting = bs
  answers : x.answers.Perm (x.taken ++ x.pending)
  room : x.flying.length ≤ limit
  steps : n + x.left = 3 * bs.length

section
variable {deliver : Delivery} {limit n : Nat} {bs : List NumberedBatch} {x y : Sending}

/-- The first reply can be taken up. -/
theorem Step.take_first (hinorder : deliver.InOrder) {batch : NumberedBatch} {reply : Reply}
    {rest : List (NumberedBatch × Option Reply)}
    (hflying : x.flying = (batch, some reply) :: rest) :
    x.Step deliver limit { x with flying := rest, taken := x.taken ++ [(batch, reply)] } := by
  have hfirst : x.flying = [] ++ (batch, some reply) :: rest := hflying
  refine .take hfirst ?_
  rw [hflying]
  exact hinorder.ready

theorem Step.keeps (hinorder : deliver.InOrder) (hstep : x.Step deliver limit y)
    (h : x.Keeps limit bs n) : y.Keeps limit bs (n + 1) := by
  obtain ⟨hbatches, hanswers, hroom, hsteps⟩ := h
  cases hstep with
  | @send batch rest hwaiting hfree =>
    refine ⟨?_, ?_, ?_, ?_⟩
    · simp [← hbatches, hwaiting]
    · simpa [pending] using hanswers
    · simpa [Nat.succ_le_iff] using hfree
    · simp [left, hwaiting] at hsteps ⊢
      omega
  | @answer before after batch reply hflying =>
    refine ⟨?_, ?_, ?_, ?_⟩
    · simp [← hbatches, hflying]
    · -- The new answer is pending where its batch flies, behind those of the batches before it.
      simp only [pending, hflying, List.filterMap_append, List.filterMap_cons, Option.map_none,
        Option.map_some, ← List.append_assoc] at hanswers ⊢
      exact ((List.perm_append_singleton _ _).trans (hanswers.cons _)).trans List.perm_middle.symm
    · simpa [hflying] using hroom
    · simp [left, hflying] at hsteps ⊢
      omega
  | @take before after batch reply hflying hdeliver =>
    -- Out of order, the reply would be taken up in the place of another batch.
    obtain rfl : before = [] := List.length_eq_zero_iff.mp (hinorder.first hdeliver)
    rw [List.nil_append] at hflying
    refine ⟨?_, ?_, ?_, ?_⟩
    · simp [← hbatches, hflying]
    · simpa [pending, hflying] using hanswers
    · simp [hflying] at hroom ⊢
      omega
    · simp [left, hflying] at hsteps ⊢
      omega

theorem Runs.keeps (hinorder : deliver.InOrder) (h : Runs deliver limit bs n x) :
    x.Keeps limit bs n := by
  induction h with
  | start => exact ⟨by simp, by simp [pending], by simp, by simp [left]⟩
  | next _ hstep ih => exact hstep.keeps hinorder ih

/-- Something can always be done: an answer is taken up, a batch is sent, or one is answered. -/
theorem exists_step (hinorder : deliver.InOrder) (hlimit : 1 ≤ limit) (x : Sending) :
    x.IsDone ∨ ∃ y, x.Step deliver limit y := by
  cases hflying : x.flying with
  | nil =>
    cases hwaiting : x.waiting with
    | nil => exact Or.inl ⟨hwaiting, hflying⟩
    | cons batch rest => exact Or.inr ⟨_, .send hwaiting (by rw [hflying]; exact hlimit)⟩
  | cons first flying =>
    obtain ⟨batch, reply⟩ := first
    cases reply with
    | none =>
      have hfirst : x.flying = [] ++ (batch, none) :: flying := hflying
      exact Or.inr ⟨_, .answer (.ok []) hfirst⟩
    | some reply => exact Or.inr ⟨_, .take_first hinorder hflying⟩

end

/-- An entry for each text, batch by batch in the order in which they were sent. -/
def vectors (x : Sending) : List (Option Embedding) :=
  x.taken.flatMap fun a => vectorsOf a.1.texts.length a.2

def embedded (cs : List Chunk) (x : Sending) : List Embedded :=
  List.zipWith Embedded.ofChunk cs x.vectors

section
variable {deliver : Delivery} {limit n : Nat} {bs : List NumberedBatch} {x : Sending}
  {allowed : ReplyRule}

theorem Runs.all_taken (hinorder : deliver.InOrder) (h : Runs deliver limit bs n x)
    (hdone : x.IsDone) :
    x.taken.map Prod.fst = bs ∧ x.answers.Perm x.taken := by
  obtain ⟨hwaiting, hflying⟩ := hdone
  obtain ⟨hbatches, hanswers, -, -⟩ := h.keeps hinorder
  constructor
  · simpa [hwaiting, hflying] using hbatches
  · simpa [pending, hflying] using hanswers

theorem answers_of_taken {taken : List (NumberedBatch × Reply)}
    (h : ∀ a ∈ taken, allowed a.1.texts (some a.2)) :
    Answers allowed ((taken.map Prod.fst).map NumberedBatch.texts)
      (taken.flatMap fun a => vectorsOf a.1.texts.length a.2) := by
  induction taken with
  | nil => exact .nil
  | cons a taken ih =>
    rw [List.forall_mem_cons] at h
    exact .cons a.2 h.1 (ih h.2)

/-- In whatever order the answers came, the entries are those of the batches in order. -/
theorem Runs.answers_in_order (hinorder : deliver.InOrder) (h : Runs deliver limit bs n x)
    (hdone : x.IsDone) (rule : ReplyRule) (hrule : ∀ a ∈ x.answers, rule a.1.texts (some a.2)) :
    Answers rule (bs.map NumberedBatch.texts) x.vectors := by
  obtain ⟨hbatches, hperm⟩ := h.all_taken hinorder hdone
  rw [← hbatches]
  exact answers_of_taken fun a ha => hrule a (hperm.mem_iff.mpr ha)

/-- Batches that are sent, answered and taken up one by one. -/
theorem Runs.in_turn (hinorder : deliver.InOrder) (hlimit : 1 ≤ limit)
    {waiting : List NumberedBatch} {taken answers : List (NumberedBatch × Reply)}
    {vectors : List (Option Embedding)}
    (h : Runs deliver limit bs n ⟨waiting, [], taken, answers⟩)
    (hanswers : Answers allowed (waiting.map NumberedBatch.texts) vectors) : ∃ m x,
      Runs deliver limit bs m x ∧ x.IsDone ∧
        x.vectors = taken.flatMap (fun a => vectorsOf a.1.texts.length a.2) ++ vectors ∧
        ∀ a ∈ x.answers, a ∈ answers ∨ allowed a.1.texts (some a.2) := by
  induction waiting generalizing n taken answers vectors with
  | nil =>
    cases hanswers
    exact ⟨n, _, h, ⟨rfl, rfl⟩, by simp [Sending.vectors], fun a => Or.inl⟩
  | cons batch rest ih =>
    cases hanswers with
    | cons reply hreply hrest =>
      have hsent := h.next (.send rfl hlimit)
      have hanswered := hsent.next (.answer reply (List.nil_append _).symm)
      have htaken := hanswered.next (.take_first hinorder rfl)
      obtain ⟨m, x, hruns, hdone, hvectors, hall⟩ := ih htaken hrest
      refine ⟨m, x, hruns, hdone, by simp [hvectors], fun a ha => ?_⟩
      rcases hall a ha with hold | hnew
      · rcases List.mem_append.mp hold with hold | hlast
        · exact Or.inl hold
        · obtain rfl := List.mem_singleton.mp hlast
          exact Or.inr hreply
      · exact Or.inr hnew

end
end Sending

/-- The batches of a file, numbered from zero. -/
def Settings.numbered (s : Settings) (e : FileEntry) (cs : List Chunk) : List NumberedBatch :=
  (s.batches e cs).zipIdx.map fun b => ⟨b.2, b.1⟩

section
variable {s : Settings} {e : FileEntry} {cs : List Chunk}

theorem texts_numbered : (s.numbered e cs).map NumberedBatch.texts = s.batches e cs := by
  rw [Settings.numbered, List.map_map]
  exact List.zipIdx_map_fst 0 _

theorem numbered_at_iff {k : Nat} {b : NumberedBatch} :
    (s.numbered e cs)[k]? = some b ↔ (s.batches e cs)[k]? = some b.texts ∧ b.number = k := by
  rw [Settings.numbered, List.getElem?_map, List.getElem?_zipIdx]
  cases (s.batches e cs)[k]? with
  | none => simp
  | some texts =>
    obtain ⟨number, texts'⟩ := b
    simp [eq_comm, and_comm]

/-- A chunk stands in the batch with the number of full batches before it. -/
theorem batch_of_chunk {i : Nat} {c : Chunk} (hc : cs[i]? = some c) : ∃ batch,
    (s.batches e cs)[i / max s.batchSize 1]? = some batch ∧
      batch[i % max s.batchSize 1]? = some (c.embeddingText e.path e.language) := by
  have htext : (s.batches e cs).flatten[i]? = some (c.embeddingText e.path e.language) := by
    rw [Settings.flatten_batches, List.getElem?_map, hc, Option.map_some]
  rw [Settings.batches, ← inGroups_max, getElem?_flatten_of_groups (by omega) rfl,
    inGroups_max] at htext
  exact Option.bind_eq_some_iff.mp htext

end

/-- What becomes of a chunk by the reply to its batch: it has the vector in its own place there, if
there are as many vectors as texts, and otherwise none. -/
inductive Embedded.Follows (batch : List Text) (reply : Reply) (place : Nat) (c : Chunk) :
    Embedded → Prop where
  | embedded {vectors : List Embedding} {v : Embedding} (hreply : reply = .ok vectors)
      (hlength : vectors.length = batch.length) (hv : vectors[place]? = some v) :
      Follows batch reply place c (.ofChunk c (some v))
  | lost (hreply : ∀ vectors, reply = .ok vectors → vectors.length ≠ batch.length) :
      Follows batch reply place c (.ofChunk c none)

theorem exists_follows {batch : List Text} {place : Nat} (hplace : place < batch.length)
    (reply : Reply) (c : Chunk) : ∃ v, (vectorsOf batch.length reply)[place]? = some v ∧
      Embedded.Follows batch reply place c (.ofChunk c v) := by
  cases reply with
  | error err => exact ⟨none, by simp [vectorsOf, hplace], .lost (by simp)⟩
  | ok vectors =>
    unfold vectorsOf
    by_cases hlength : vectors.length = batch.length
    · have hv : vectors[place]? = some vectors[place] := List.getElem?_eq_getElem (by omega)
      exact ⟨some vectors[place], by simp [hlength, hv], .embedded rfl hlength hv⟩
    · refine ⟨none, by simp [hlength, hplace], .lost ?_⟩
      rintro _ ⟨⟩
      exact hlength

namespace Sending

variable {deliver : Delivery} {s : Settings} {e : FileEntry} {cs : List Chunk} {limit n : Nat}
  {x : Sending}

/-- Each answer is taken up in the place of its batch. -/
theorem Runs.taken_at (hinorder : deliver.InOrder) (h : Runs deliver limit (s.numbered e cs) n x)
    (hdone : x.IsDone) {k : Nat} {batch : List Text}
    (hbatch : (s.batches e cs)[k]? = some batch) : ∃ reply,
      x.taken[k]? = some (⟨k, batch⟩, reply) ∧ (⟨k, batch⟩, reply) ∈ x.answers ∧
        ∀ a ∈ x.answers, a.1.number = k → a = (⟨k, batch⟩, reply) := by
  obtain ⟨hbatches, hperm⟩ := h.all_taken hinorder hdone
  have hat : ∀ {k : Nat}, (x.taken[k]?).map Prod.fst = (s.numbered e cs)[k]? := by
    intro k
    rw [← hbatches, List.getElem?_map]
  have hnumbered : (s.numbered e cs)[k]? = some ⟨k, batch⟩ := numbered_at_iff.mpr ⟨hbatch, rfl⟩
  rw [← hat, Option.map_eq_some_iff] at hnumbered
  obtain ⟨⟨_, reply⟩, htaken, rfl⟩ := hnumbered
  refine ⟨reply, htaken, hperm.mem_iff.mpr (List.mem_of_getElem? htaken), ?_⟩
  intro a ha hnumber
  obtain ⟨l, hl⟩ := List.mem_iff_getElem?.mp (hperm.mem_iff.mp ha)
  have hl' : (s.numbered e cs)[l]? = some a.1 := by rw [← hat, hl, Option.map_some]
  obtain rfl : l = k := (numbered_at_iff.mp hl').2.symm.trans hnumber
  exact Option.some.inj (hl.symm.trans htaken)

theorem Runs.length_vectors (hinorder : deliver.InOrder)
    (h : Runs deliver limit (s.numbered e cs) n x) (hdone : x.IsDone) :
    x.vectors.length = cs.length := by
  have hanswers := h.answers_in_order hinorder hdone (fun _ _ => True) fun _ _ => trivial
  rw [texts_numbered] at hanswers
  exact length_of_answers hanswers

/-- The entry of a chunk follows from the reply to its batch. -/
theorem Runs.chunk_follows (hinorder : deliver.InOrder)
    (h : Runs deliver limit (s.numbered e cs) n x) (hdone : x.IsDone) {i : Nat} {c : Chunk}
    (hc : cs[i]? = some c) {batch : List Text} {reply : Reply}
    (htaken : x.taken[i / max s.batchSize 1]? = some (⟨i / max s.batchSize 1, batch⟩, reply))
    (hplace : i % max s.batchSize 1 < batch.length) : ∃ entry,
      (x.embedded cs)[i]? = some entry ∧ entry.Follows batch reply (i % max s.batchSize 1) c := by
  have hlengths : (x.taken.map fun a => vectorsOf a.1.texts.length a.2).map List.length =
      (inGroups (max s.batchSize 1) (cs.map (·.embeddingText e.path e.language))).map
        List.length := by
    rw [inGroups_max, ← Settings.batches, ← texts_numbered, ← (h.all_taken hinorder hdone).1]
    simp [length_vectors_of, Function.comp_def]
  obtain ⟨v, hv, hfollows⟩ := exists_follows hplace reply c
  have hvector : x.vectors[i]? = some v := by
    rw [vectors, List.flatMap_def, getElem?_flatten_of_groups (by omega) hlengths,
      List.getElem?_map, htaken]
    exact hv
  exact ⟨_, by rw [embedded, List.getElem?_zipWith, hc, hvector], hfollows⟩

/-- What a file is embedded as when all replies are taken up: each batch was answered once, and each
chunk has one entry, in order, which follows from the reply to its own batch. -/
structure Delivers (x : Sending) (s : Settings) (e : FileEntry) (cs : List Chunk) : Prop where
  answered : (x.answers.map Prod.fst).Perm (s.numbered e cs)
  length : (x.embedded cs).length = cs.length
  entry : ∀ {i : Nat} {c : Chunk}, cs[i]? = some c →
    let number := i / max s.batchSize 1
    let place := i % max s.batchSize 1
    ∃ batch reply, batch[place]? = some (c.embeddingText e.path e.language) ∧
      (⟨number, batch⟩, reply) ∈ x.answers ∧
      (∀ a ∈ x.answers, a.1.number = number → a = (⟨number, batch⟩, reply)) ∧
      ∃ entry, (x.embedded cs)[i]? = some entry ∧ entry.Follows batch reply place c

theorem Runs.delivers (hinorder : deliver.InOrder) (h : Runs deliver limit (s.numbered e cs) n x)
    (hdone : x.IsDone) : x.Delivers s e cs := by
  refine ⟨?_, ?_, ?_⟩
  · obtain ⟨hbatches, hperm⟩ := h.all_taken hinorder hdone
    rw [← hbatches]
    exact hperm.map _
  · simp [embedded, h.length_vectors hinorder hdone]
  · intro i c hc number place
    obtain ⟨batch, hbatch, htext⟩ := batch_of_chunk (e := e) hc
    obtain ⟨reply, htaken, hanswer, hunique⟩ := h.taken_at hinorder hdone hbatch
    have hplace := (List.getElem?_eq_some_iff.mp htext).1
    exact ⟨batch, reply, htext, hanswer, hunique, h.chunk_follows hinorder hdone hc htaken hplace⟩

/-- Nothing is left to tell how the texts were divided. -/
theorem Runs.embedded_faithful (hinorder : deliver.InOrder)
    (h : Runs deliver limit (s.numbered e cs) n x) (hdone : x.IsDone) {f : Text → Embedding}
    (hf : ∀ a ∈ x.answers, a.2 = .ok (a.1.texts.map f)) :
    x.embedded cs = cs.map fun c => .ofChunk c (some (f (c.embeddingText e.path e.language))) := by
  have hfaithful := h.answers_in_order hinorder hdone (Faithful f)
    fun a ha => Or.inr (congrArg some (hf a ha))
  rw [texts_numbered] at hfaithful
  rw [embedded, hfaithful.faithful, Settings.flatten_batches]
  simp [List.zipWith_map_right, List.zipWith_self]

end Sending

/-- What a file is embedded as is what its batches deliver if they are sent one by one. -/
theorem embed_chunks_in_turn {h : Host σ} {s : Settings} {e : FileEntry} {cs : List Chunk}
    {deliver : Delivery} (hinorder : deliver.InOrder) {limit : Nat} (hlimit : 1 ≤ limit)
    {embedded : List Embedded} {w : σ}
    (hmade : ((embedChunks h s e cs).run w).1 = some embedded) : ∃ n x,
      Sending.Runs deliver limit (s.numbered e cs) n x ∧ x.IsDone ∧ x.embedded cs = embedded ∧
        ∀ a ∈ x.answers, ∃ w, ((h.embed a.1.texts).run w).1 = some a.2 := by
  let rule : ReplyRule := fun batch reply => ∃ w, ((h.embed batch).run w).1 = reply
  have hrule : ∀ batch w, rule batch ((h.embed batch).run w).1 := fun batch w => ⟨w, rfl⟩
  obtain ⟨vectors, rfl, hanswers⟩ := embed_chunks_answers hrule hmade
  rw [← texts_numbered] at hanswers
  obtain ⟨n, x, hruns, hdone, hvectors, hall⟩ := Sending.Runs.start.in_turn hinorder hlimit hanswers
  refine ⟨n, x, hruns, hdone, ?_, fun a ha => ?_⟩
  · rw [Sending.embedded, hvectors, List.flatMap_nil, List.nil_append]
  · exact (hall a ha).resolve_left (by simp)

/-- However the batches of a file are sent and answered, while the stream that they fly in delivers
them in order: no more are in flight than are allowed, there is always something left to be done
until all replies are taken up, and that is after three steps for each batch at the latest. Then
each chunk has what the reply to its own batch has for it, and under a provider that maps each text
by a function that is the same for batches of any size. If all batches are answered, a file is
embedded, as it is by batches that are sent one by one. A file that is to be written is embedded in
the chunks that its content is cut into. -/
theorem batches_embed_their_chunks {deliver : Delivery} (hinorder : deliver.InOrder) (s : Settings)
    (e : FileEntry) (cs : List Chunk) :
    let limit := max s.concurrency 1
    (∀ n x, Sending.Runs deliver limit (s.numbered e cs) n x → x.flying.length ≤ limit ∧
      n ≤ 3 * (s.numbered e cs).length ∧ (x.IsDone ∨ ∃ y, x.Step deliver limit y)) ∧
    (∀ n x, Sending.Runs deliver limit (s.numbered e cs) n x → x.IsDone → x.Delivers s e cs ∧
      ∀ f : Text → Embedding, (∀ a ∈ x.answers, a.2 = .ok (a.1.texts.map f)) → x.embedded cs =
        cs.map fun c => .ofChunk c (some (f (c.embeddingText e.path e.language)))) ∧
    ∀ {σ : Type} (h : Host σ),
      ((∀ batch w, ((h.embed batch).run w).1 ≠ none) →
        ∀ w, ∃ embedded, ((embedChunks h s e cs).run w).1 = some embedded) ∧
      (∀ w embedded, ((embedChunks h s e cs).run w).1 = some embedded → ∃ n x,
        Sending.Runs deliver limit (s.numbered e cs) n x ∧ x.IsDone ∧ x.embedded cs = embedded ∧
          ∀ a ∈ x.answers, ∃ w, ((h.embed a.1.texts).run w).1 = some a.2) ∧
      ∀ change content, change = .added ∨ change = .updated → e.content = some content →
        s.chunks e content = .ok cs →
          ∀ w, ((prepare h s e change).run w).1 = .ok ((embedChunks h s e cs).run w).1 := by
  intro limit
  have hlimit : 1 ≤ limit := by omega
  refine ⟨?_, ?_, ?_⟩
  · intro n x hruns
    have hkeeps := hruns.keeps hinorder
    have hsteps := hkeeps.steps
    exact ⟨hkeeps.room, by omega, x.exists_step hinorder hlimit⟩
  · intro n x hruns hdone
    exact ⟨hruns.delivers hinorder hdone, fun f hf => hruns.embedded_faithful hinorder hdone hf⟩
  · intro σ h
    refine ⟨fun hanswers => embed_chunks_total hanswers s e cs, ?_, ?_⟩
    · intro w embedded hmade
      exact embed_chunks_in_turn hinorder hlimit hmade
    · intro change content hchange hcontent hcs w
      exact prepare_of_cut hchange (cut_of_content hcontent hcs)

/-- A chunk for each line, a batch for each chunk, and two of them in flight. -/
def Settings.abreast : Settings :=
  { Settings.standard with limits := ⟨1, 1, 0⟩, batchSize := 1, concurrency := 2 }

/-- The second of two batches fails before the first one is answered; only its own chunk is without
a vector. A provider that answers all batches embeds both. -/
theorem batches_embed_their_chunks_overtaken :
    let s := Settings.abreast
    let e := FileEntry.ofBytes "/d/a.md" [97, 10, 98]
    let cs := chunkLines s.limits ['a', '\n', 'b']
    let h := Files.single.host (answering fun _ => [.one])
    (∃ n x, Sending.Runs .buffered 2 (s.numbered e cs) n x ∧ x.IsDone ∧
      x.answers.map (fun a => a.1.number) = [1, 0] ∧ x.Delivers s e cs ∧
      x.embedded cs = [⟨1, 1, ['a'], some [.one]⟩, ⟨2, 2, ['b'], none⟩]) ∧
    ∃ n x, Sending.Runs .buffered 2 (s.numbered e cs) n x ∧ x.IsDone ∧
      ((prepare h s e .added).run ()).1 = .ok (some (x.embedded cs)) ∧
      x.embedded cs = [⟨1, 1, ['a'], some [.one]⟩, ⟨2, 2, ['b'], some [.one]⟩] := by
  intro s e cs h
  obtain ⟨-, hdelivers, hhosts⟩ := batches_embed_their_chunks Delivery.buffered_in_order s e cs
  refine ⟨?_, ?_⟩
  · let first := cs[0]
    let second := cs[1]
    let b₀ : NumberedBatch := ⟨0, [first.embeddingText e.path e.language]⟩
    let b₁ : NumberedBatch := ⟨1, [second.embeddingText e.path e.language]⟩
    have hcs : cs = [first, second] := rfl
    have hbatches : s.numbered e cs = [b₀, b₁] := by
      rw [Settings.numbered, Settings.batches, hcs]
      simp [inGroups, s, Settings.abreast, b₀, b₁]
    have hsent : Sending.Runs .buffered 2 (s.numbered e cs) 2
        ⟨[], [(b₀, none), (b₁, none)], [], []⟩ := by
      rw [hbatches]
      exact (Sending.Runs.start.next (.send rfl (by decide))).next (.send rfl (by decide))
    have hsecond : [(b₀, none), (b₁, none)] =
        [(b₀, none)] ++ (b₁, (none : Option Reply)) :: [] := rfl
    have hfailed := hsent.next (.answer (.error .unavailable) hsecond)
    have hfirst : [(b₀, none), (b₁, some (.error .unavailable))] =
        [] ++ (b₀, (none : Option Reply)) :: [(b₁, some (.error .unavailable))] := rfl
    have hanswered := hfailed.next (.answer (.ok [[.one]]) hfirst)
    have hinorder := Delivery.buffered_in_order
    have hruns := (hanswered.next (.take_first hinorder rfl)).next (.take_first hinorder rfl)
    exact ⟨_, _, hruns, ⟨rfl, rfl⟩, rfl, (hdelivers _ _ hruns ⟨rfl, rfl⟩).1, rfl⟩
  · obtain ⟨htotal, hin_turn, hprepare⟩ := hhosts h
    obtain ⟨embedded, hmade⟩ := htotal (fun _ _ => by simp [h, Files.host]) ()
    obtain ⟨n, x, hruns, hdone, rfl, hanswers⟩ := hin_turn () embedded hmade
    have hall : x.embedded cs = cs.map fun c => .ofChunk c (some [.one]) := by
      refine (hdelivers n x hruns hdone).2 (fun _ => [.one]) ?_
      intro a ha
      obtain ⟨_, ha⟩ := hanswers a ha
      exact (Option.some.inj ha).symm
    have hcontent : e.content = some ['a', '\n', 'b'] := by decide +kernel
    refine ⟨n, x, hruns, hdone, ?_, hall⟩
    rw [hprepare .added _ (.inl rfl) hcontent rfl, hmade]

end CodeIndex
