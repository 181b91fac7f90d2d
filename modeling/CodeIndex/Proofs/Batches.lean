import CodeIndex.Refresh.Embed

namespace CodeIndex

theorem run_bind (x : StateM σ α) (f : α → StateM σ β) (w : σ) :
    (x >>= f).run w = (f (x.run w).1).run (x.run w).2 := rfl

theorem run_pure (a : α) (w : σ) : (pure a : StateM σ α).run w = (a, w) := rfl

theorem mem_run_mapM {f : α → StateM σ β} {as : List α} {w : σ} {b : β}
    (hb : b ∈ ((as.mapM f).run w).1) : ∃ a ∈ as, ∃ w, ((f a).run w).1 = b := by
  induction as generalizing w with
  | nil =>
    rw [List.mapM_nil, run_pure] at hb
    cases hb
  | cons a as ih =>
    rw [List.mapM_cons, run_bind, run_bind, run_pure, List.mem_cons] at hb
    rcases hb with rfl | hb
    · exact ⟨a, by simp, w, rfl⟩
    · obtain ⟨c, hc, w₁, hw⟩ := ih hb
      exact ⟨c, by simp [hc], w₁, hw⟩

/-- Asking one thing after another, where each answer leaves things as they are. -/
theorem run_mapM_of_steady {still : σ → Prop} {f : α → StateM σ β} {g : α → β}
    (hf : ∀ a w, still w → ((f a).run w).1 = g a ∧ still ((f a).run w).2) (as : List α) {w : σ}
    (hw : still w) : ((as.mapM f).run w).1 = as.map g ∧ still ((as.mapM f).run w).2 := by
  induction as generalizing w with
  | nil => exact ⟨rfl, hw⟩
  | cons a as ih =>
    obtain ⟨ha, hstill⟩ := hf a w hw
    obtain ⟨has, hrest⟩ := ih hstill
    rw [List.mapM_cons, run_bind, run_bind, run_pure, ha, has, List.map_cons]
    exact ⟨rfl, hrest⟩

/-- Which reply a batch may have. -/
abbrev ReplyRule := List Text → BatchReply → Prop

/-- The entries of batches that were all answered by a rule. -/
inductive Answers (allowed : ReplyRule) : List (List Text) → List (Option Embedding) → Prop where
  | nil : Answers allowed [] []
  | cons {batch : List Text} {rest : List (List Text)} {vectors : List (Option Embedding)}
      (reply : Except ProviderError (List Embedding)) (hreply : allowed batch (some reply))
      (hrest : Answers allowed rest vectors) :
      Answers allowed (batch :: rest) (vectorsOf batch.length reply ++ vectors)

theorem length_vectors_of (size : Nat) (reply : Except ProviderError (List Embedding)) :
    (vectorsOf size reply).length = size := by
  cases reply with
  | error e => exact List.length_replicate
  | ok vectors =>
    rw [vectorsOf]
    split
    · rename_i hlength
      rw [List.length_map, hlength]
    · exact List.length_replicate

theorem Answers.length {allowed : ReplyRule} {batches : List (List Text)}
    {vectors : List (Option Embedding)} (h : Answers allowed batches vectors) :
    vectors.length = batches.flatten.length := by
  induction h with
  | nil => rfl
  | cons reply hreply hrest ih =>
    rw [List.length_append, length_vectors_of, ih, List.flatten_cons, List.length_append]

/-- A provider that never fails and answers each text by a fixed function. -/
def Faithful (f : Text → Embedding) : ReplyRule := fun batch reply =>
  reply = none ∨ reply = some (.ok (batch.map f))

theorem Answers.faithful {f : Text → Embedding} {batches : List (List Text)}
    {vectors : List (Option Embedding)} (h : Answers (Faithful f) batches vectors) :
    vectors = batches.flatten.map fun text => some (f text) := by
  induction h with
  | nil => rfl
  | cons reply hreply hrest ih =>
    rcases hreply with hnone | hsome
    · cases hnone
    · cases hsome
      rw [ih, vectorsOf, if_pos (List.length_map f), List.map_map, List.flatten_cons,
        List.map_append]
      rfl

/-- The texts by which the chunks of a file are embedded, batch by batch. -/
def Settings.batches (s : Settings) (e : FileEntry) (cs : List Chunk) : List (List Text) :=
  inGroups s.batchSize (cs.map (·.embeddingText e.path e.language))

theorem Settings.flatten_batches (s : Settings) (e : FileEntry) (cs : List Chunk) :
    (s.batches e cs).flatten = cs.map (·.embeddingText e.path e.language) :=
  flatten_inGroups _ _

theorem length_of_answers {s : Settings} {e : FileEntry} {cs : List Chunk} {allowed : ReplyRule}
    {vectors : List (Option Embedding)} (h : Answers allowed (s.batches e cs) vectors) :
    vectors.length = cs.length := by
  rw [h.length, Settings.flatten_batches, List.length_map]

section
variable {σ : Type} {h : Host σ} {allowed : ReplyRule}

theorem send_batches_answers (hallowed : ∀ batch w, allowed batch ((h.embed batch).run w).1)
    (concurrency : Nat) {batches : List (List Text)} {vectors : List (Option Embedding)} {w : σ}
    (hsent : ((sendBatches h concurrency batches).run w).1 = some vectors) :
    Answers allowed batches vectors := by
  induction batches generalizing vectors w with
  | nil =>
    cases hsent
    exact .nil
  | cons batch rest ih =>
    have hreply := hallowed batch w
    rw [sendBatches, run_bind] at hsent
    generalize (h.embed batch).run w = answer at hsent hreply
    obtain ⟨reply, w₁⟩ := answer
    cases reply with
    | none => cases hsent
    | some reply =>
      simp only [run_bind, run_pure, Option.map_eq_some_iff] at hsent
      obtain ⟨vectors, hrest, rfl⟩ := hsent
      exact .cons reply hreply (ih hrest)

theorem send_batches_total (hanswers : ∀ batch w, ((h.embed batch).run w).1 ≠ none)
    (concurrency : Nat) (batches : List (List Text)) (w : σ) :
    ∃ vectors, ((sendBatches h concurrency batches).run w).1 = some vectors := by
  induction batches generalizing w with
  | nil => exact ⟨[], rfl⟩
  | cons batch rest ih =>
    have hreply := hanswers batch w
    rw [sendBatches, run_bind]
    generalize (h.embed batch).run w = answer at hreply
    obtain ⟨reply, w₁⟩ := answer
    cases reply with
    | none => exact absurd rfl hreply
    | some reply =>
      obtain ⟨vectors, hrest⟩ := ih w₁
      exact ⟨vectorsOf batch.length reply ++ vectors, by simp only [run_bind, run_pure, hrest]; rfl⟩

theorem embed_chunks_answers (hallowed : ∀ batch w, allowed batch ((h.embed batch).run w).1)
    {s : Settings} {e : FileEntry} {cs : List Chunk} {embedded : List Embedded} {w : σ}
    (hmade : ((embedChunks h s e cs).run w).1 = some embedded) : ∃ vectors,
      embedded = List.zipWith Embedded.ofChunk cs vectors ∧
        Answers allowed (s.batches e cs) vectors := by
  rw [embedChunks, run_bind, run_pure, Option.map_eq_some_iff] at hmade
  obtain ⟨vectors, hsent, rfl⟩ := hmade
  exact ⟨vectors, rfl, send_batches_answers hallowed _ hsent⟩

theorem embed_chunks_total (hanswers : ∀ batch w, ((h.embed batch).run w).1 ≠ none)
    (s : Settings) (e : FileEntry) (cs : List Chunk) (w : σ) :
    ∃ embedded, ((embedChunks h s e cs).run w).1 = some embedded := by
  obtain ⟨vectors, hsent⟩ := send_batches_total hanswers (max s.concurrency 1) (s.batches e cs) w
  refine ⟨List.zipWith Embedded.ofChunk cs vectors, ?_⟩
  rw [embedChunks, run_bind, run_pure, Option.map_eq_some_iff]
  exact ⟨vectors, hsent, rfl⟩

end
end CodeIndex
