import CodeIndex.Chunk.Group
import CodeIndex.Chunk.Merge
import CodeIndex.Proofs.LineWindows

namespace CodeIndex
namespace Chunk

theorem ink_join (a b : Chunk) : (join a b).code.ink = a.code.ink ++ b.code.ink := by
  rw [join, Text.ink_append, Text.ink_append]
  simp [Text.ink, show Text.isBlank '\n' = true from by decide]

theorem size_join (a b : Chunk) : (join a b).size = a.size + b.size := by
  simp only [size, Text.size_eq_length_ink, ink_join, List.length_append]

section
variable {limits : Limits}

/-- What chunks are made of is joined as they are. -/
theorem merge_small_from (limits : Limits) {R : Chunk → List α → Prop}
    (hjoin : ∀ {a b xs ys}, R a xs → R b ys → a.size + b.size ≤ limits.target →
      R (join a b) (xs ++ ys))
    {cs : List Chunk} {parts : List (List α)} (h : List.Forall₂ R cs parts) :
    ∃ joined, List.Forall₂ R (mergeSmall limits cs) joined ∧ joined.flatten = parts.flatten := by
  -- A joined chunk is looked at again, so the induction follows the calls and not the list.
  fun_induction mergeSmall limits cs generalizing parts with
  | case1 a b cs hsmall ih =>
    obtain ⟨xs, rest, ha, hrest, rfl⟩ := List.forall₂_cons_left_iff.mp h
    obtain ⟨ys, rest, hb, hcs, rfl⟩ := List.forall₂_cons_left_iff.mp hrest
    obtain ⟨joined, hjoined, hflat⟩ := ih (.cons (hjoin ha hb hsmall.2) hcs)
    exact ⟨joined, hjoined, by simp [hflat]⟩
  | case2 a b cs _ ih =>
    obtain ⟨xs, rest, ha, hrest, rfl⟩ := List.forall₂_cons_left_iff.mp h
    obtain ⟨joined, hjoined, hflat⟩ := ih hrest
    exact ⟨xs :: joined, .cons ha hjoined, by simp [hflat]⟩
  | case3 => exact ⟨parts, h, rfl⟩

theorem merge_small_mem {P : Chunk → Prop}
    (hjoin : ∀ {a b}, P a → P b → a.size + b.size ≤ limits.target → P (join a b))
    {cs : List Chunk} (h : ∀ c ∈ cs, P c) : ∀ c ∈ mergeSmall limits cs, P c := by
  fun_induction mergeSmall limits cs with
  | case1 a b cs hsmall ih =>
    simp only [List.forall_mem_cons] at h
    exact ih (List.forall_mem_cons.mpr ⟨hjoin h.1 h.2.1 hsmall.2, h.2.2⟩)
  | case2 a b cs _ ih =>
    rw [List.forall_mem_cons] at h
    exact List.forall_mem_cons.mpr ⟨h.1, ih h.2⟩
  | case3 => exact h

/-- What is too large is cut to fit. -/
theorem split_oversized_fit (hmax : 1 ≤ limits.max) (hle : limits.target ≤ limits.max)
    {cs : List Chunk} (h : ∀ c ∈ cs, 1 ≤ c.size ∧ c.hash = hashText c.code) :
    ∀ c ∈ splitOversized limits cs, c.Fits limits.max := by
  intro c hc
  obtain ⟨whole, hwhole, hc⟩ := List.mem_flatMap.mp hc
  split at hc
  · rename_i hfits
    rw [List.mem_singleton.mp hc]
    exact ⟨(h whole hwhole).1, hfits, (h whole hwhole).2⟩
  · obtain ⟨piece, hpiece, rfl⟩ := List.mem_map.mp hc
    obtain ⟨hsome, hmost, hhash⟩ := chunk_lines_fit hmax hle whole.code piece hpiece
    exact ⟨hsome, hmost, hhash⟩

theorem split_oversized_ne_nil {cs : List Chunk} (hcs : cs ≠ []) :
    splitOversized limits cs ≠ [] := by
  obtain ⟨c, cs, rfl⟩ := List.exists_cons_of_ne_nil hcs
  rw [splitOversized, List.flatMap_cons]
  refine List.append_ne_nil_of_left_ne_nil ?_ _
  split
  · simp
  · rename_i hlarge
    rw [Ne, List.map_eq_nil_iff]
    refine chunk_lines_ne_nil (t := c.code) ?_
    have : ¬ c.code.size ≤ limits.max := hlarge
    omega

end
end Chunk

theorem Group.chunk_sized {source imports : Text} {g : Group} {c : Chunk}
    (h : g.chunk? source imports = some c) : 1 ≤ c.size ∧ c.hash = hashText c.code := by
  unfold Group.chunk? at h
  split at h
  · dsimp only at h
    split at h
    · cases h
    · rename_i hsize
      cases h
      exact ⟨Nat.one_le_iff_ne_zero.mpr hsize, rfl⟩
  · cases h

end CodeIndex
