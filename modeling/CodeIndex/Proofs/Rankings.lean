import CodeIndex.Search.Merge
import Mathlib.Data.List.Forall2
import Mathlib.Data.List.Nodup

namespace CodeIndex.Ranking

/-- Stands before another hit: by the greater score, else by the shorter path, else by the smaller
one. -/
def Above (a b : Hit) : Prop :=
  b.score.orderKey < a.score.orderKey ∨ b.score.orderKey = a.score.orderKey ∧
    (pathLength a.path < pathLength b.path ∨
      pathLength a.path = pathLength b.path ∧ a.path < b.path)

/-- Changes nothing of the hits but their scores. -/
def Rescores (normalize : Normalizer) : Prop :=
  ∀ hits, List.Forall₂ (fun h h' => h' = { h with score := h'.score }) hits (normalize hits)

theorem keep_scores_rescores : Rescores keepScores :=
  fun _ => List.forall₂_same.mpr fun _ _ => rfl

theorem by_best_score_rescores : Rescores byBestScore := by
  intro hits
  unfold byBestScore
  dsimp only
  split
  · exact List.forall₂_map_right_iff.mpr (List.forall₂_same.mpr fun _ _ => rfl)
  · exact List.forall₂_same.mpr fun _ _ => rfl

theorem Rescores.nil {normalize : Normalizer} (h : Rescores normalize) : normalize [] = [] :=
  List.forall₂_nil_left_iff.mp (h [])

theorem Rescores.mem {normalize : Normalizer} (h : Rescores normalize) {hits : List Hit} {hit : Hit}
    (hhit : hit ∈ normalize hits) : ∃ source ∈ hits, hit = { source with score := hit.score } := by
  have hall := h hits
  generalize normalize hits = rescored at hall hhit
  induction hall with
  | nil => simp at hhit
  | cons hsame _ ih =>
    rcases List.mem_cons.mp hhit with rfl | hhit
    · exact ⟨_, List.mem_cons_self, hsame⟩
    · obtain ⟨source, hsource, heq⟩ := ih hhit
      exact ⟨source, List.mem_cons_of_mem _ hsource, heq⟩

instance : Std.TransCmp rank :=
  inferInstanceAs (Std.TransCmp (compareLex (fun a b : Hit => compareOn (·.score.orderKey) b a)
    (compareLex (compareOn fun h : Hit => pathLength h.path) (compareOn Hit.path))))

theorem rank_eq_lt {a b : Hit} : rank a b = .lt ↔ Above a b := by
  rw [rank, Above, Binary32.totalCompare, Ordering.then_eq_lt, Ordering.then_eq_lt,
    Int.compare_eq_lt, Int.compare_eq_eq, Nat.compare_eq_lt, Nat.compare_eq_eq]
  exact or_congr_right (and_congr_right fun _ => or_congr_right (and_congr_right fun _ =>
    compareOfLessAndEq_eq_lt))

theorem path_of_rank_eq {a b : Hit} (h : rank a b = .eq) : a.path = b.path := by
  rw [rank, Ordering.then_eq_eq, Ordering.then_eq_eq] at h
  exact Std.LawfulEqCmp.eq_of_compare h.2.2

/-- Hits with different paths are ranked strictly. -/
theorem sort_above {hits : List Hit} (hpaths : (hits.map Hit.path).Nodup) :
    (hits.mergeSort fun a b => (rank a b).isLE).Pairwise Above := by
  have htrans : ∀ a b c, (rank a b).isLE → (rank b c).isLE → (rank a c).isLE :=
    fun _ _ _ => Std.TransCmp.isLE_trans
  have htotal : ∀ a b, (rank a b).isLE || (rank b a).isLE := by
    intro a b
    have hswap : rank b a = (rank a b).swap := Std.OrientedCmp.eq_swap
    rw [hswap]
    cases rank a b <;> rfl
  have hsorted := List.pairwise_mergeSort htrans htotal hits
  have hdistinct : (hits.mergeSort fun a b => (rank a b).isLE).Pairwise (·.path ≠ ·.path) :=
    List.pairwise_map.mp (((List.mergeSort_perm hits _).map Hit.path).nodup_iff.mpr hpaths)
  refine hsorted.imp₂ (fun a b hle hne => ?_) hdistinct
  rw [← rank_eq_lt]
  cases hrank : rank a b with
  | lt => rfl
  | eq => exact absurd (path_of_rank_eq hrank) hne
  | gt => simp [hrank] at hle

theorem keepBest_paths (kept : List Hit) (h : Hit) :
    (keepBest kept h).map Hit.path =
      if h.path ∈ kept.map Hit.path then kept.map Hit.path else kept.map Hit.path ++ [h.path] := by
  induction kept with
  | nil => rfl
  | cons k ks ih =>
    unfold keepBest
    by_cases hk : k.path = h.path
    · simp only [hk, if_true, List.map_cons, List.mem_cons, true_or]
      split <;> simp [hk]
    · simp only [hk, if_false, List.map_cons, ih, List.mem_cons, Ne.symm hk, false_or]
      split <;> rfl

theorem mem_keepBest {kept : List Hit} {h k : Hit} (hk : k ∈ keepBest kept h) :
    k ∈ kept ∨ k = h := by
  induction kept with
  | nil => exact Or.inr (List.mem_singleton.mp hk)
  | cons first ks ih =>
    unfold keepBest at hk
    split at hk
    · rcases List.mem_cons.mp hk with rfl | hk
      · split
        · exact Or.inl List.mem_cons_self
        · exact Or.inr rfl
      · exact Or.inl (List.mem_cons_of_mem _ hk)
    · rcases List.mem_cons.mp hk with rfl | hk
      · exact Or.inl List.mem_cons_self
      · exact (ih hk).imp_left (List.mem_cons_of_mem _)

theorem fold_keepBest (kept : List Hit) (hkept : (kept.map Hit.path).Nodup) (hits : List Hit) :
    ((hits.foldl keepBest kept).map Hit.path).Nodup ∧
      ∀ k ∈ hits.foldl keepBest kept, k ∈ kept ∨ k ∈ hits := by
  induction hits generalizing kept with
  | nil => exact ⟨hkept, fun _ => Or.inl⟩
  | cons h hits ih =>
    have hnext : ((keepBest kept h).map Hit.path).Nodup := by
      rw [keepBest_paths]
      split
      · exact hkept
      · rename_i hnew
        rw [← List.concat_eq_append]
        exact hkept.concat hnew
    obtain ⟨hpaths, hmem⟩ := ih _ hnext
    refine ⟨hpaths, fun k hk => ?_⟩
    rcases hmem k hk with hk | hk
    · rcases mem_keepBest hk with hk | rfl
      · exact Or.inl hk
      · exact Or.inr List.mem_cons_self
    · exact Or.inr (List.mem_cons_of_mem _ hk)

section
variable {normalize : Normalizer} {count : Nat} {sources : List (List Hit)}

/-- A ranking holds each file once, in a strict order. -/
theorem merge_ranked : (merge normalize count sources).length ≤ count ∧
    ((merge normalize count sources).map Hit.path).Nodup ∧
    (merge normalize count sources).Pairwise Above := by
  have hpaths := (fold_keepBest [] .nil (sources.flatMap normalize)).1
  unfold merge
  dsimp only
  refine ⟨List.length_take_le _ _, ?_, (sort_above hpaths).sublist (List.take_sublist _ _)⟩
  refine List.Nodup.sublist ((List.take_sublist _ _).map _) ?_
  exact ((List.mergeSort_perm _ _).map Hit.path).nodup_iff.mpr hpaths

/-- A hit of a ranking is that of a source, but for its score. -/
theorem mem_merge (hnormalize : Rescores normalize) {h : Hit}
    (hh : h ∈ merge normalize count sources) :
    ∃ hits ∈ sources, ∃ source ∈ hits, h = { source with score := h.score } := by
  have hbest := List.mem_mergeSort.mp (List.mem_of_mem_take hh)
  have hall := (fold_keepBest [] .nil (sources.flatMap normalize)).2 h hbest
  obtain ⟨hits, hhits, hh⟩ := List.mem_flatMap.mp (hall.resolve_left (by simp))
  obtain ⟨source, hsource, heq⟩ := hnormalize.mem hh
  exact ⟨hits, hhits, source, hsource, heq⟩

/-- A source without hits leaves the ranking to the others. -/
theorem merge_nil_left (sources : List (List Hit)) (hnormalize : Rescores normalize) :
    merge normalize count ([] :: sources) = merge normalize count sources := by
  simp [merge, hnormalize.nil]

theorem merge_nil_right (sources : List (List Hit)) (hnormalize : Rescores normalize) :
    merge normalize count (sources ++ [[]]) = merge normalize count sources := by
  simp [merge, hnormalize.nil]

end
end CodeIndex.Ranking
