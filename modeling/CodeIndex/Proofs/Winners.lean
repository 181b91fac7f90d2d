import CodeIndex.Proofs.Numbers
import CodeIndex.Proofs.Rankings
import Mathlib.Data.List.Dedup
import Mathlib.Data.List.Induction
import Mathlib.Data.List.Perm.Basic
import Mathlib.Data.List.Sort

namespace CodeIndex.Ranking

/-- The earliest hit of a path that no other one of the path exceeds. -/
def winner? (hits : List Hit) (path : String) : Option Hit :=
  let rivals := hits.filter (·.path = path)
  rivals.find? fun h => rivals.all fun k => !h.score.lt k.score

/-- The winners of all paths. -/
def winners (hits : List Hit) : List Hit := (hits.map Hit.path).dedup.filterMap (winner? hits)

/-- Of the hit that is kept for a path and the next one of the path, the one that is kept then. -/
def better (kept : Option Hit) (h : Hit) : Option Hit :=
  match kept with
  | none => some h
  | some k => some (if k.score.ge h.score then k else h)

/-- The hit that is kept for a path after all hits. -/
def kept? (hits : List Hit) (path : String) : Option Hit :=
  (hits.filter (·.path = path)).foldl better none

theorem find_keepBest (kept : List Hit) (h : Hit) (path : String) :
    (keepBest kept h).find? (·.path = path) =
      if h.path = path then better (kept.find? (·.path = path)) h
      else kept.find? (·.path = path) := by
  induction kept with
  | nil => by_cases hpath : h.path = path <;> simp [keepBest, better, hpath]
  | cons k ks ih =>
    unfold keepBest
    by_cases hk : k.path = h.path
    · by_cases hge : k.score.ge h.score <;> by_cases hpath : h.path = path <;>
        simp [better, hk, hpath, hge]
    · rw [if_neg hk]
      by_cases hpath : k.path = path
      · simp [hpath, show h.path ≠ path from fun heq => hk (hpath.trans heq.symm)]
      · simp [hpath, ih]

theorem find_fold_keepBest (kept hits : List Hit) (path : String) :
    (hits.foldl keepBest kept).find? (·.path = path) =
      (hits.filter (·.path = path)).foldl better (kept.find? (·.path = path)) := by
  induction hits generalizing kept with
  | nil => rfl
  | cons h hits ih =>
    rw [List.foldl_cons, ih, find_keepBest]
    by_cases hpath : h.path = path <;> simp [hpath]

theorem find_of_mem {kept : List Hit} (hpaths : (kept.map Hit.path).Nodup) {h : Hit}
    (hh : h ∈ kept) : kept.find? (·.path = h.path) = some h := by
  obtain ⟨before, after, rfl⟩ := List.append_of_mem hh
  rw [List.map_append, List.map_cons, List.nodup_append] at hpaths
  have hbefore : ∀ k ∈ before, k.path ≠ h.path := fun k hk =>
    hpaths.2.2 _ (List.mem_map_of_mem hk) _ List.mem_cons_self
  refine List.find?_eq_some_iff_append.mpr ⟨by simp, before, after, rfl, ?_⟩
  simpa using hbefore

/-- The hits that are left are those that are kept for their paths. -/
theorem mem_fold_keepBest {hits : List Hit} {h : Hit} :
    h ∈ hits.foldl keepBest [] ↔ kept? hits h.path = some h := by
  have hpaths := (fold_keepBest [] .nil hits).1
  rw [kept?, ← List.find?_nil (p := fun k : Hit => k.path = h.path), ← find_fold_keepBest]
  exact ⟨find_of_mem hpaths, List.mem_of_find?_eq_some⟩

/-- Of numbers the one that is kept is greater than all before it, and no later one is greater. -/
theorem fold_better {rivals : List Hit} (hnumbers : ∀ h ∈ rivals, ¬ h.score.isNaN)
    (hsome : rivals ≠ []) : ∃ before h after, rivals = before ++ h :: after ∧
      rivals.foldl better none = some h ∧ (∀ k ∈ before, k.score.place < h.score.place) ∧
      ∀ k ∈ after, k.score.place ≤ h.score.place := by
  induction rivals using List.reverseRecOn with
  | nil => exact absurd rfl hsome
  | append_singleton rivals last ih =>
    have hlast := hnumbers last (by simp)
    rcases eq_or_ne rivals [] with rfl | hrivals
    · exact ⟨[], last, [], rfl, rfl, by simp, by simp⟩
    · obtain ⟨before, h, after, rfl, hkept, hbefore, hafter⟩ :=
        ih (fun k hk => hnumbers k (List.mem_append_left _ hk)) hrivals
      have hh := hnumbers h (by simp)
      have hnext : better (some h) last =
          some (if last.score.place ≤ h.score.place then h else last) := by
        simp [better, Binary32.ge_iff, hh, hlast]
      rw [List.foldl_append, hkept, List.foldl_cons, List.foldl_nil, hnext]
      by_cases hle : last.score.place ≤ h.score.place
      · rw [if_pos hle]
        refine ⟨before, h, after ++ [last], by simp, rfl, hbefore, fun k hk => ?_⟩
        rcases List.mem_append.mp hk with hk | hk
        · exact hafter k hk
        · exact List.mem_singleton.mp hk ▸ hle
      · rw [if_neg hle]
        have hlt := Int.not_le.mp hle
        refine ⟨before ++ h :: after, last, [], rfl, rfl, fun k hk => ?_, by simp⟩
        rcases List.mem_append.mp hk with hk | hk
        · exact Int.lt_trans (hbefore k hk) hlt
        · rcases List.mem_cons.mp hk with rfl | hk
          · exact hlt
          · exact Int.lt_of_le_of_lt (hafter k hk) hlt

/-- Among numbers the hit that is kept for a path is its winner. -/
theorem kept_eq_winner {hits : List Hit} (hnumbers : ∀ h ∈ hits, ¬ h.score.isNaN) (path : String) :
    kept? hits path = winner? hits path := by
  unfold kept? winner?
  dsimp only
  have hrivals : ∀ h ∈ hits.filter (·.path = path), ¬ h.score.isNaN :=
    fun h hh => hnumbers h (List.mem_of_mem_filter hh)
  generalize hits.filter (·.path = path) = rivals at hrivals
  rcases eq_or_ne rivals [] with rfl | hsome
  · rfl
  · obtain ⟨before, h, after, rfl, hkept, hbefore, hafter⟩ := fold_better hrivals hsome
    have hh := hrivals h (by simp)
    have hmost : ∀ k ∈ before ++ h :: after, k.score.place ≤ h.score.place := by
      intro k hk
      rcases List.mem_append.mp hk with hk | hk
      · exact Int.le_of_lt (hbefore k hk)
      · rcases List.mem_cons.mp hk with rfl | hk
        · exact Int.le_refl _
        · exact hafter k hk
    rw [hkept, eq_comm]
    refine List.find?_eq_some_iff_append.mpr ⟨?_, before, after, rfl, ?_⟩
    · rw [List.all_eq_true]
      intro k hk
      rw [Bool.not_eq_true', ← Bool.not_eq_true, Binary32.lt_iff]
      exact fun hlt => absurd hlt.2.2 (Int.not_lt.mpr (hmost k hk))
    · intro k hk
      rw [Bool.not_eq_true', List.all_eq_false]
      have hk' := hrivals k (List.mem_append_left _ hk)
      exact ⟨h, by simp, by simp [Binary32.lt_iff, hh, hk', hbefore k hk]⟩

theorem winner_path {hits : List Hit} {path : String} {h : Hit}
    (hh : winner? hits path = some h) : h ∈ hits ∧ h.path = path := by
  simpa using List.mem_filter.mp (List.mem_of_find?_eq_some hh)

theorem mem_winners {hits : List Hit} {h : Hit} :
    h ∈ winners hits ↔ winner? hits h.path = some h := by
  unfold winners
  rw [List.mem_filterMap]
  constructor
  · rintro ⟨path, -, hh⟩
    rw [(winner_path hh).2, hh]
  · intro hh
    exact ⟨h.path, List.mem_dedup.mpr (List.mem_map_of_mem (winner_path hh).1), hh⟩

theorem nodup_winners (hits : List Hit) : (winners hits).Nodup := by
  refine (List.nodup_dedup _).filterMap fun p q h hp hq => ?_
  rw [← (winner_path hp).2, ← (winner_path hq).2]

/-- The hits that are left are the winners, in some order. -/
theorem left_perm_winners {hits : List Hit} (hnumbers : ∀ h ∈ hits, ¬ h.score.isNaN) :
    (hits.foldl keepBest []).Perm (winners hits) := by
  have hnodup := (fold_keepBest [] .nil hits).1.of_map
  rw [List.perm_ext_iff_of_nodup hnodup (nodup_winners hits)]
  intro h
  rw [mem_fold_keepBest, mem_winners, kept_eq_winner hnumbers]

theorem Rescores.paths {normalize : Normalizer} (h : Rescores normalize)
    (sources : List (List Hit)) :
    (sources.flatMap normalize).map Hit.path = sources.flatten.map Hit.path := by
  have hsource : ∀ hits, (normalize hits).map Hit.path = hits.map Hit.path := by
    intro hits
    have hall := h hits
    generalize normalize hits = rescored at hall
    induction hall with
    | nil => rfl
    | cons hsame _ ih => rw [List.map_cons, List.map_cons, ih, hsame]
  rw [List.map_flatMap, List.map_flatten, List.flatMap_def]
  exact congrArg List.flatten (List.map_congr_left fun hits _ => hsource hits)

theorem exists_winner_iff {hits : List Hit} (hnumbers : ∀ h ∈ hits, ¬ h.score.isNaN)
    (path : String) : (∃ h, winner? hits path = some h) ↔ path ∈ hits.map Hit.path := by
  constructor
  · rintro ⟨h, hh⟩
    exact (winner_path hh).2 ▸ List.mem_map_of_mem (winner_path hh).1
  · intro hpath
    obtain ⟨h, hh, rfl⟩ := List.mem_map.mp hpath
    have hrivals : hits.filter (·.path = h.path) ≠ [] :=
      List.ne_nil_of_mem (List.mem_filter.mpr ⟨hh, decide_eq_true rfl⟩)
    obtain ⟨-, k, -, -, hkept, -⟩ :=
      fold_better (fun k hk => hnumbers k (List.mem_of_mem_filter hk)) hrivals
    exact ⟨k, kept_eq_winner hnumbers h.path ▸ hkept⟩

instance : Std.Irrefl Above := ⟨fun a h => by simp [Above] at h⟩

instance : Std.Antisymm Above where
  antisymm _ _ hab hba :=
    absurd (rank_eq_lt.mpr hba) (Std.OrientedCmp.not_lt_of_lt (rank_eq_lt.mpr hab))

/-- Of hits with different paths one stands before the other. -/
theorem above_iff_not_above {a b : Hit} (hpaths : a.path ≠ b.path) : Above a b ↔ ¬ Above b a := by
  rw [← rank_eq_lt, ← rank_eq_lt, @Std.OrientedCmp.eq_swap _ rank _ b a,
    Ordering.swap_eq_lt]
  cases hrank : rank a b with
  | lt | gt => simp
  | eq => exact absurd (path_of_rank_eq hrank) hpaths

/-- A ranking holds the first winners of the paths that the sources have, in an order that tells
different paths apart. Sorting gives it from whatever order the winners are gone through. -/
theorem merge_exact {normalize : Normalizer} (hnormalize : Rescores normalize) (count : Nat)
    (sources : List (List Hit)) (hnumbers : ∀ h ∈ sources.flatMap normalize, ¬ h.score.isNaN) :
    let hits := sources.flatMap normalize
    (∀ path, (∃ h, winner? hits path = some h) ↔ ∃ h ∈ sources.flatten, h.path = path) ∧
    (∀ a b : Hit, a.path ≠ b.path → (Above a b ↔ ¬ Above b a)) ∧
    ∃ ranking : List Hit, ranking.Perm (winners hits) ∧ ranking.Pairwise Above ∧
      merge normalize count sources = ranking.take count ∧
      ∀ values : List Hit, values.Perm (winners hits) →
        (values.mergeSort fun a b => (rank a b).isLE) = ranking := by
  intro hits
  have hleft : (hits.foldl keepBest []).Perm (winners hits) := left_perm_winners hnumbers
  have hpaths := (fold_keepBest [] .nil hits).1
  refine ⟨fun path => ?_, fun _ _ => above_iff_not_above,
    (hits.foldl keepBest []).mergeSort fun a b => (rank a b).isLE,
    (List.mergeSort_perm _ _).trans hleft, sort_above hpaths, rfl, fun values hvalues => ?_⟩
  · rw [exists_winner_iff hnumbers, hnormalize.paths, List.mem_map]
  · have hsame := hvalues.trans hleft.symm
    have hdistinct := (hsame.map Hit.path).nodup_iff.mpr hpaths
    refine (sort_above hdistinct).eq_of_mem_iff (sort_above hpaths) fun h => ?_
    rw [List.mem_mergeSort, List.mem_mergeSort, hsame.mem_iff]

/-- Two sources, one of them with the two zeros as scores of one path. -/
def zeroHits : List (List Hit) :=
  let hit (path : String) (bits : UInt32) (source : ArtifactKind) : Hit :=
    ⟨path, [], ⟨bits⟩, 1, 1, source⟩
  [[hit "/a" 0x41000000 .fullText, hit "/b" 0x40000000 .fullText],
    [hit "/c" 0x80000000 .embeddings, hit "/c" 0 .embeddings, hit "/b" 0x3E800000 .embeddings]]

/-- Of the two zeros the earlier one is kept, though the order of the ranking tells them apart. -/
theorem merge_exact_zeros : Rescores byBestScore ∧
    (∀ h ∈ zeroHits.flatMap byBestScore, ¬ h.score.isNaN) ∧
    (winner? (zeroHits.flatMap byBestScore) "/c").map Hit.score = some .negativeZero ∧
    ∃ ranking : List Hit, ranking.Perm (winners (zeroHits.flatMap byBestScore)) ∧
      ranking.Pairwise Above ∧ merge byBestScore 2 zeroHits = ranking.take 2 := by
  have hnumbers : ∀ h ∈ zeroHits.flatMap byBestScore, ¬ h.score.isNaN := by decide
  obtain ⟨-, -, ranking, hperm, hsorted, hmerge, -⟩ :=
    merge_exact by_best_score_rescores 2 zeroHits hnumbers
  exact ⟨by_best_score_rescores, hnumbers, by decide, ranking, hperm, hsorted, hmerge⟩

end CodeIndex.Ranking
