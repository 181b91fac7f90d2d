import CodeIndex.Proofs.Winners

namespace CodeIndex.Ranking

/-- A ranking in which NaNs give way to numbers: a number stands for each file that has one, and no
NaN stands before a number. -/
structure NanLoses (sources : List (List Hit)) (ranking : List Hit) : Prop where
  represented : ∀ h ∈ ranking,
    (∃ k ∈ sources.flatten, k.path = h.path ∧ ¬ k.score.isNaN) → ¬ h.score.isNaN
  below : ranking.Pairwise fun a b => a.score.isNaN → b.score.isNaN

/-- The last hit of a path over all sources. -/
def last? (sources : List (List Hit)) (path : String) : Option Hit :=
  (sources.flatten.filter (·.path = path)).getLast?

/-- A hit before and after its score was rewritten: a NaN stays as it is, and so does being a
number. -/
structure KeepsNan (h h' : Hit) : Prop where
  path : h'.path = h.path
  number : h'.score.isNaN ↔ h.score.isNaN
  nan : h.score.isNaN → h'.score = h.score

theorem KeepsNan.refl (h : Hit) : KeepsNan h h := ⟨rfl, Iff.rfl, fun _ => rfl⟩

theorem by_best_score_keeps_nan (hits : List Hit) :
    List.Forall₂ KeepsNan hits (byBestScore hits) := by
  unfold byBestScore
  dsimp only
  split
  · rename_i hbest
    obtain ⟨hpos, hfinite⟩ := (Bool.and_eq_true _ _).mp hbest
    refine List.forall₂_map_right_iff.mpr (List.forall₂_same.mpr fun h _ => ?_)
    exact ⟨rfl, Binary32.is_nan_div hpos hfinite, fun hnan => if_pos hnan⟩
  · exact List.forall₂_same.mpr fun h _ => .refl h

theorem exists_last_of_forall₂ {R : Hit → Hit → Prop} {hits rescored : List Hit}
    (hall : List.Forall₂ R hits rescored) {h' : Hit} (hlast : rescored.getLast? = some h') :
    ∃ h, hits.getLast? = some h ∧ R h h' := by
  have hall := List.forall₂_reverse_iff.mpr hall
  rw [List.getLast?_eq_head?_reverse] at hlast ⊢
  generalize hits.reverse = before, rescored.reverse = after at hall hlast
  cases hall with
  | nil => cases hlast
  | cons hfirst _ =>
    obtain rfl := Option.some.inj hlast
    exact ⟨_, rfl, hfirst⟩

/-- The hits of a path before and after normalizing. -/
theorem rivals_keep_nan (sources : List (List Hit)) (path : String) :
    List.Forall₂ KeepsNan (sources.flatten.filter (·.path = path))
      ((sources.flatMap byBestScore).filter (·.path = path)) := by
  have hsources : List.Forall₂ (List.Forall₂ KeepsNan) sources (sources.map byBestScore) :=
    List.forall₂_map_right_iff.mpr
      (List.forall₂_same.mpr fun hits _ => by_best_score_keeps_nan hits)
  rw [List.flatMap_def]
  refine List.rel_filter (fun h h' hkeeps => ?_) (List.rel_flatten hsources)
  simp [hkeeps.path]

/-- What is kept is a NaN just if the last hit is one, and then it is that one. -/
theorem fold_better_last (rivals : List Hit) (last : Hit) :
    ∃ h, (rivals ++ [last]).foldl better none = some h ∧
      (h.score.isNaN ↔ last.score.isNaN) ∧ (last.score.isNaN → h = last) := by
  rw [List.foldl_append, List.foldl_cons, List.foldl_nil]
  cases rivals.foldl better none with
  | none => exact ⟨last, rfl, Iff.rfl, fun _ => rfl⟩
  | some k =>
    -- The held hit stays only if both scores are numbers: nothing compares with a NaN.
    by_cases hge : k.score.ge last.score
    · obtain ⟨hk, hlast, -⟩ := Binary32.ge_iff.mp hge
      exact ⟨k, by simp [better, hge], iff_of_false hk hlast, fun hnan => absurd hnan hlast⟩
    · exact ⟨last, by simp [better, hge], Iff.rfl, fun _ => rfl⟩

/-- A hit of a ranking is a NaN just if the last hit of its path is one, and then it has its
score. -/
theorem merge_last {count : Nat} {sources : List (List Hit)} {h : Hit}
    (hh : h ∈ merge byBestScore count sources) :
    ∃ last, last? sources h.path = some last ∧ KeepsNan last h := by
  have hkept := mem_fold_keepBest.mp (List.mem_mergeSort.mp (List.mem_of_mem_take hh))
  have hrivals := rivals_keep_nan sources h.path
  unfold kept? at hkept
  generalize (sources.flatMap byBestScore).filter (·.path = h.path) = rivals at hkept hrivals
  rcases List.eq_nil_or_concat rivals with rfl | ⟨before, final, rfl⟩
  · simp at hkept
  · rw [List.concat_eq_append] at hkept hrivals
    obtain ⟨k, hk, hnumber, hnan⟩ := fold_better_last before final
    obtain rfl := Option.some.inj (hk.symm.trans hkept)
    obtain ⟨last, hlast, hkeeps⟩ := exists_last_of_forall₂ hrivals List.getLast?_concat
    have hpath : last.path = k.path := by
      simpa using (List.mem_filter.mp (List.mem_of_getLast? hlast)).2
    refine ⟨last, hlast, hpath.symm, hnumber.trans hkeeps.number, fun h => ?_⟩
    rw [hnan (hkeeps.number.mpr h), hkeeps.nan h]

theorem Above.key_le {a b : Hit} (h : Above a b) : b.score.orderKey ≤ a.score.orderKey := by
  rcases h with hlt | ⟨heq, -⟩
  · exact Int.le_of_lt hlt
  · exact Int.le_of_eq heq

/-- In order of scores NaNs stand behind all numbers just if they have their sign bits set, or
there is nothing but NaNs. -/
theorem nans_below_iff {ranking : List Hit} (habove : ranking.Pairwise Above) :
    (ranking.Pairwise fun a b => a.score.isNaN → b.score.isNaN) ↔
      ∀ a ∈ ranking, a.score.isNaN → a.score.bits < 0x80000000 → ∀ b ∈ ranking, b.score.isNaN := by
  constructor
  · intro hbelow a ha hnan hpos b hb
    obtain ⟨before, after, rfl⟩ := List.append_of_mem ha
    rw [List.pairwise_append, List.pairwise_cons] at habove hbelow
    rcases List.mem_append.mp hb with hb | hb
    · by_contra hnumber
      have hab : Above b a := habove.2.2 b hb a List.mem_cons_self
      exact absurd hab.key_le (Int.not_le.mpr (Binary32.above_numbers hnan hpos hnumber))
    · rcases List.mem_cons.mp hb with rfl | hb
      · exact hnan
      · exact hbelow.2.1.1 b hb hnan
  · intro hall
    refine habove.imp_of_mem fun {a b} ha hb hab hnan => ?_
    by_cases hpos : a.score.bits < 0x80000000
    · exact hall a ha hnan hpos b hb
    · by_contra hnumber
      exact absurd hab.key_le (Int.not_le.mpr (Binary32.below_numbers hnan hpos hnumber))

/-- NaNs give way to numbers just if a ranked file whose last hit is a NaN has nothing else, and
that NaN has its sign bit set unless every ranked file ends in a NaN. -/
theorem nan_loses_iff (count : Nat) (sources : List (List Hit)) :
    NanLoses sources (merge byBestScore count sources) ↔
      ∀ h ∈ merge byBestScore count sources, ∀ last, last? sources h.path = some last →
        last.score.isNaN →
          (∀ k ∈ sources.flatten, k.path = h.path → k.score.isNaN) ∧
          (last.score.bits < 0x80000000 → ∀ g ∈ merge byBestScore count sources,
            ∀ final, last? sources g.path = some final → final.score.isNaN) := by
  obtain ⟨-, -, habove⟩ := @merge_ranked byBestScore count sources
  have hlasts := @merge_last count sources
  generalize merge byBestScore count sources = ranking at habove hlasts
  have hkeeps : ∀ h ∈ ranking, ∀ last, last? sources h.path = some last → KeepsNan last h := by
    intro h hh last hlast
    obtain ⟨other, hother, hkeeps⟩ := hlasts hh
    exact Option.some.inj (hother.symm.trans hlast) ▸ hkeeps
  constructor
  · rintro ⟨hrepresented, hbelow⟩ h hh last hlast hnan
    have hsame := hkeeps h hh last hlast
    have hh' : h.score.isNaN := hsame.number.mpr hnan
    refine ⟨fun k hk hpath => ?_, fun hpos g hg final hfinal => ?_⟩
    · by_contra hnumber
      exact hrepresented h hh ⟨k, hk, hpath, hnumber⟩ hh'
    · rw [← hsame.nan hnan] at hpos
      exact (hkeeps g hg final hfinal).number.mp
        ((nans_below_iff habove).mp hbelow h hh hh' hpos g hg)
  · intro hends
    refine ⟨fun h hh hnumbers hnan => ?_, (nans_below_iff habove).mpr fun a ha hnan hpos b hb => ?_⟩
    · obtain ⟨last, hlast, hsame⟩ := hlasts hh
      obtain ⟨k, hk, hpath, hnumber⟩ := hnumbers
      exact hnumber ((hends h hh last hlast (hsame.number.mp hnan)).1 k hk hpath)
    · obtain ⟨last, hlast, hsame⟩ := hlasts ha
      obtain ⟨final, hfinal, hsame'⟩ := hlasts hb
      have hlastnan := hsame.number.mp hnan
      rw [hsame.nan hlastnan] at hpos
      exact hsame'.number.mpr ((hends a ha last hlast hlastnan).2 hpos b hb final hfinal)

/-- A file with a number and a NaN after it, beside a file with a number. -/
def overflowed : List (List Hit) :=
  let hit (path : String) (score : Binary32) (source : ArtifactKind) : Hit :=
    ⟨path, [], score, 1, 1, source⟩
  [[hit "/a.rs" .one .fullText],
    [hit "/b.rs" ⟨0x3F000000⟩ .embeddings, hit "/a.rs" .nan .embeddings]]

/-- The NaN stands for the file that has a number, before the file that has no NaN. -/
theorem nan_wins :
    (∀ hits ∈ overflowed, (Binary32.maximum (hits.map Hit.score)).isFinite) ∧
      ¬ NanLoses overflowed (merge byBestScore 10 overflowed) := by
  refine ⟨by decide, fun h => ?_⟩
  have hleft : (overflowed.flatMap byBestScore).foldl keepBest [] =
      [⟨"/a.rs", [], .nan, 1, 1, .embeddings⟩, ⟨"/b.rs", [], .one, 1, 1, .embeddings⟩] := by decide
  have hranked : ⟨"/a.rs", [], .nan, 1, 1, .embeddings⟩ ∈ merge byBestScore 10 overflowed := by
    unfold merge
    dsimp only
    rw [hleft, List.take_of_length_le (by simp), List.mem_mergeSort]
    exact List.mem_cons_self
  exact h.represented _ hranked ⟨⟨"/a.rs", [], .one, 1, 1, .fullText⟩, by decide, rfl, by decide⟩
    (by decide)

end CodeIndex.Ranking
