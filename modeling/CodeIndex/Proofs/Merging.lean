import CodeIndex.Proofs.Mending

namespace CodeIndex

theorem Text.joinLines_append {ls ms : List Text} (hls : ls ≠ []) (hms : ms ≠ []) :
    joinLines (ls ++ ms) = joinLines ls ++ '\n' :: joinLines ms := by
  obtain ⟨m, ms, rfl⟩ := List.exists_cons_of_ne_nil hms
  induction ls with
  | nil => exact absurd rfl hls
  | cons l ls ih =>
    cases ls with
    | nil => simp [joinLines, joinWith]
    | cons k ls =>
      have hrest : joinLines (l :: k :: ls ++ m :: ms) =
          l ++ ['\n'] ++ joinLines (k :: ls ++ m :: ms) := rfl
      rw [hrest, ih (List.cons_ne_nil _ _)]
      simp [joinLines, joinWith]

namespace Chunk

/-- Two neighbours that are merged. -/
def Mergeable (limits : Limits) (a b : Chunk) : Prop :=
  a.size < limits.min ∧ a.size + b.size ≤ limits.target

instance (limits : Limits) (a b : Chunk) : Decidable (Mergeable limits a b) :=
  inferInstanceAs (Decidable (_ ∧ _))

/-- The chunks while they are merged, and the place of the one that is looked at. -/
structure Merging where
  chunks : List Chunk
  place : Nat

/-- A list without two neighbours. -/
theorem nil_or_singleton {cs : List Chunk} (h : ∀ a b rest, cs = a :: b :: rest → False) :
    cs = [] ∨ ∃ a, cs = [a] := by
  rcases cs with _ | ⟨a, _ | ⟨b, rest⟩⟩
  · exact .inl rfl
  · exact .inr ⟨a, rfl⟩
  · exact absurd rfl (h a b rest)

namespace Merging

/-- One turn: a chunk takes in its neighbour, which leaves the list, or the next one is looked at.
The loop ends at the last chunk. -/
def next? (limits : Limits) (m : Merging) : Option Merging := do
  let a ← m.chunks[m.place]?
  let b ← m.chunks[m.place + 1]?
  if Mergeable limits a b then
    return ⟨(m.chunks.eraseIdx (m.place + 1)).set m.place (join a b), m.place⟩
  else return ⟨m.chunks, m.place + 1⟩

/-- After so many turns, unless the loop ends before. -/
def after? (limits : Limits) : Nat → Merging → Option Merging
  | 0, m => some m
  | n + 1, m => (m.next? limits).bind (after? limits n)

theorem next_merged {limits : Limits} {a b : Chunk} (h : Mergeable limits a b)
    (done cs : List Chunk) :
    next? limits ⟨done ++ a :: b :: cs, done.length⟩ =
      some ⟨done ++ join a b :: cs, done.length⟩ := by
  simp [next?, h, List.eraseIdx_append_of_length_le]

theorem next_kept {limits : Limits} {a b : Chunk} (h : ¬ Mergeable limits a b)
    (done cs : List Chunk) :
    next? limits ⟨done ++ a :: b :: cs, done.length⟩ =
      some ⟨done ++ [a] ++ b :: cs, (done ++ [a]).length⟩ := by
  simp [next?, h]

/-- Each turn brings the end nearer by one chunk, and it leaves there what merging the chunks that
were still to be looked at comes to. -/
theorem after_mergeSmall (limits : Limits) (done cs : List Chunk) :
    ∃ m, after? limits (cs.length - 1) ⟨done ++ cs, done.length⟩ = some m ∧
      m.next? limits = none ∧ m.chunks = done ++ mergeSmall limits cs := by
  fun_induction mergeSmall limits cs generalizing done with
  | case1 a b cs h ih =>
    obtain ⟨m, hm, hend⟩ := ih done
    refine ⟨m, ?_, hend⟩
    have hturn := next_merged h done cs
    simp only [List.length_cons, Nat.add_sub_cancel, after?] at hm ⊢
    rw [hturn]
    exact hm
  | case2 a b cs h ih =>
    obtain ⟨m, hm, hend, hchunks⟩ := ih (done ++ [a])
    refine ⟨m, ?_, hend, by simpa using hchunks⟩
    have hturn := next_kept h done cs
    simp only [List.length_cons, Nat.add_sub_cancel, after?] at hm ⊢
    rw [hturn]
    exact hm
  | case3 cs hshort =>
    rcases nil_or_singleton hshort with rfl | ⟨a, rfl⟩
    · exact ⟨⟨done ++ [], done.length⟩, rfl, by simp [next?], rfl⟩
    · exact ⟨⟨done ++ [a], done.length⟩, rfl, by simp [next?], rfl⟩

end Merging

/-- A chunk that a run of neighbours was merged to. What is not made of all of them is that of the
first one. -/
structure Merges (limits : Limits) (c : Chunk) (run : List Chunk) : Prop where
  code : c.code = Text.joinLines (run.map Chunk.code)
  firstLine : run.head?.map Chunk.firstLine = some c.firstLine
  lastLine : run.getLast?.map Chunk.lastLine = some c.lastLine
  entity : c.entity = run.findSome? Chunk.entity
  first : run.head?.map (fun a => (a.nodeType, a.scope, a.imports)) =
    some (c.nodeType, c.scope, c.imports)
  alone : ∀ a, run = [a] → c = a
  merged : 2 ≤ run.length → c.hash = hashText c.code ∧ c.size ≤ limits.target

section
variable {limits : Limits}

theorem Merges.refl (limits : Limits) (c : Chunk) : Merges limits c [c] := by
  constructor <;> simp [Text.joinLines, Text.joinWith]

theorem Merges.ne_nil {c : Chunk} {run : List Chunk} (h : Merges limits c run) : run ≠ [] := by
  rintro rfl
  cases h.firstLine

theorem Merges.join {a b : Chunk} {xs ys : List Chunk} (ha : Merges limits a xs)
    (hb : Merges limits b ys) (hfits : a.size + b.size ≤ limits.target) :
    Merges limits (join a b) (xs ++ ys) := by
  have hxs := ha.ne_nil
  have hys := hb.ne_nil
  have hlength : 1 ≤ xs.length ∧ 1 ≤ ys.length :=
    ⟨List.length_pos_iff.mpr hxs, List.length_pos_iff.mpr hys⟩
  constructor
  · rw [List.map_append, Text.joinLines_append (mt List.map_eq_nil_iff.mp hxs)
      (mt List.map_eq_nil_iff.mp hys), ← ha.code, ← hb.code]
    simp [Chunk.join]
  · rw [List.head?_append_of_ne_nil _ hxs]
    exact ha.firstLine
  · rw [List.getLast?_append_of_ne_nil _ hys]
    exact hb.lastLine
  · rw [List.findSome?_append, ← ha.entity, ← hb.entity]
    rfl
  · rw [List.head?_append_of_ne_nil _ hxs]
    exact ha.first
  · intro c hone
    have := congrArg List.length hone
    rw [List.length_append, List.length_singleton] at this
    omega
  · intro _
    exact ⟨rfl, size_join a b ▸ hfits⟩

/-- What merging comes to is cut out of the chunks in runs, one after another. -/
theorem merge_small_runs (limits : Limits) (cs : List Chunk) : ∃ runs : List (List Chunk),
    runs.flatten = cs ∧ List.Forall₂ (Merges limits) (mergeSmall limits cs) runs := by
  have halone : List.Forall₂ (Merges limits) cs (cs.map ([·])) := by
    rw [List.forall₂_map_right_iff, List.forall₂_same]
    exact fun c _ => .refl limits c
  obtain ⟨runs, hruns, hflat⟩ := merge_small_from limits Merges.join halone
  exact ⟨runs, by rw [hflat, ← List.flatMap_def, List.flatMap_singleton'], hruns⟩

/-- A chunk never shrinks while it is merged. -/
theorem merge_small_head (limits : Limits) (a : Chunk) (cs : List Chunk) :
    ∃ c rest, mergeSmall limits (a :: cs) = c :: rest ∧ a.size ≤ c.size := by
  induction cs generalizing a with
  | nil => exact ⟨a, [], by simp [mergeSmall], Nat.le_refl _⟩
  | cons b cs ih =>
    rw [mergeSmall]
    split
    · obtain ⟨c, rest, hc, hsize⟩ := ih (Chunk.join a b)
      rw [size_join] at hsize
      exact ⟨c, rest, hc, by omega⟩
    · exact ⟨a, _, rfl, Nat.le_refl _⟩

/-- Neighbours that are not merged stay so, however much the second one still takes in. -/
theorem merge_small_settled (limits : Limits) (cs : List Chunk) :
    (mergeSmall limits cs).IsChain fun a b => ¬ Mergeable limits a b := by
  fun_induction mergeSmall limits cs with
  | case1 a b cs _ ih => exact ih
  | case2 a b cs hkept ih =>
    obtain ⟨c, rest, hc, hsize⟩ := merge_small_head limits b cs
    rw [hc] at ih ⊢
    refine .cons_cons ?_ ih
    rintro ⟨hsmall, hfits⟩
    exact hkept ⟨hsmall, by omega⟩
  | case3 cs hshort =>
    rcases nil_or_singleton hshort with rfl | ⟨a, rfl⟩
    · exact .nil
    · exact .singleton a

theorem merge_small_of_settled {cs : List Chunk}
    (h : cs.IsChain fun a b => ¬ Mergeable limits a b) : mergeSmall limits cs = cs := by
  fun_induction mergeSmall limits cs with
  | case1 a b cs hmerged => exact absurd hmerged (List.isChain_cons_cons.mp h).1
  | case2 a b cs _ ih => rw [ih (List.isChain_cons_cons.mp h).2]
  | case3 => rfl

end

/-- Merging small chunks ends where nothing is left to merge, and loses nothing. -/
theorem merge_small_exact (limits : Limits) (cs : List Chunk) :
    (∃ m, Merging.after? limits (cs.length - 1) ⟨cs, 0⟩ = some m ∧ m.next? limits = none ∧
      m.chunks = mergeSmall limits cs) ∧
    (∃ runs : List (List Chunk), runs.flatten = cs ∧
      List.Forall₂ (Merges limits) (mergeSmall limits cs) runs) ∧
    (mergeSmall limits cs).IsChain (fun a b => ¬ Mergeable limits a b) ∧
    mergeSmall limits (mergeSmall limits cs) = mergeSmall limits cs := by
  have hsettled := merge_small_settled limits cs
  exact ⟨Merging.after_mergeSmall limits [] cs, merge_small_runs limits cs, hsettled,
    merge_small_of_settled hsettled⟩

end Chunk
end CodeIndex
