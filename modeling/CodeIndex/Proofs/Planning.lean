import CodeIndex.Proofs.Indexing

namespace CodeIndex

theorem Change.classify_eq_unchanged_iff {current : String} {recorded : List (Option String)} :
    classify current recorded = .unchanged ↔
      recorded ≠ [] ∧ ∀ r ∈ recorded, r = some current := by
  rw [classify]
  cases recorded with
  | nil => simp
  | cons r rs =>
    split
    · rename_i hnone
      rw [List.all_eq_true] at hnone
      have hr := hnone r List.mem_cons_self
      constructor
      · intro h
        cases h
      · rintro ⟨-, h⟩
        rw [h r List.mem_cons_self] at hr
        cases hr
    · split
      · rename_i hall
        simpa using hall
      · rename_i hall
        simpa using hall

theorem Change.classify_ne_removed (current : String) (recorded : List (Option String)) :
    classify current recorded ≠ .removed := by
  rw [classify]
  split
  · simp
  · split <;> simp

theorem mem_records {st : Store} {key hash : String} {p : Path} :
    (p, hash) ∈ st.records key ↔ hash ∈ st.catalog.rows ⟨key, p⟩ := by
  simp only [Store.records, Table.underTag, Table.rows, List.mem_map, List.mem_filter,
    decide_eq_true_eq]
  constructor
  · rintro ⟨⟨⟨tag, path⟩, hash'⟩, ⟨hm, rfl⟩, heq⟩
    cases heq
    exact ⟨_, ⟨hm, rfl⟩, rfl⟩
  · rintro ⟨⟨slot, hash'⟩, ⟨hm, rfl⟩, rfl⟩
    exact ⟨_, ⟨hm, rfl⟩, rfl⟩

theorem hash_of_records (st : Store) (key : String) (p : Path) :
    (st.records key).hash? p = st.hash? ⟨key, p⟩ := by
  unfold Store.records Store.hash? Records.hash?
  induction st.catalog with
  | nil => rfl
  | cons r catalog ih =>
    obtain ⟨⟨tag, path⟩, hash⟩ := r
    simp only [Table.underTag, Table.rows, List.filter_cons, Slot.mk.injEq] at ih ⊢
    by_cases htag : tag = key
    · by_cases hpath : path = p
      · simp [htag, hpath]
      · have hne : (p == path) = false := by simpa using Ne.symm hpath
        simpa [htag, hpath, List.lookup_cons, hne] using ih
    · simpa [htag] using ih

namespace Records

theorem hash_cons (r : Path × String) (rs : Records) (p : Path) :
    hash? (r :: rs) p = if p = r.1 then some r.2 else rs.hash? p := by
  rw [hash?, List.lookup_cons]
  by_cases hp : p = r.1
  · simp [hp]
  · simp [hp, beq_false_of_ne hp, hash?]

theorem path_mem_iff {rs : Records} {p : Path} :
    p ∈ rs.map Prod.fst ↔ ∃ hash, rs.hash? p = some hash := by
  induction rs with
  | nil => simp [hash?]
  | cons r rs ih =>
    rw [List.map_cons, List.mem_cons, ih, hash_cons]
    by_cases hp : p = r.1 <;> simp [hp]

theorem hash_filter (keep : Path → Bool) (rs : Records) (p : Path) :
    hash? (rs.filter (keep ·.1)) p = if keep p then rs.hash? p else none := by
  induction rs with
  | nil => simp [hash?]
  | cons r rs ih =>
    rw [hash_cons, List.filter_cons]
    by_cases hp : p = r.1
    · subst hp
      split
      · rw [hash_cons, if_pos rfl, if_pos rfl]
      · rename_i hdropped
        rw [ih, if_neg hdropped]
    · rw [if_neg hp, ← ih]
      split
      · rw [hash_cons, if_neg hp]
      · rfl

/-- Of several records the first one counts. -/
theorem hash_flatten (catalogs : List Records) (p : Path) :
    hash? catalogs.flatten p = catalogs.findSome? (·.hash? p) := by
  induction catalogs with
  | nil => rfl
  | cons rs catalogs ih =>
    rw [List.flatten_cons, hash?, List.lookup_append, List.findSome?_cons, ← ih]
    change (rs.hash? p).or (hash? catalogs.flatten p) = _
    cases rs.hash? p <;> rfl

end Records

namespace FileChange

section
variable {P : Type} [PathForm P] {catalogs : List Records} {listed : List P}
  {hashOf : P → Option String} {c : FileChange P}

theorem mem_plan : c ∈ plan catalogs listed hashOf ↔
    c ∈ listedChanges catalogs listed hashOf ∨ c ∈ removedChanges catalogs listed := by
  rw [plan, List.mem_mergeSort, List.mem_append]

theorem mem_listed_changes : c ∈ listedChanges catalogs listed hashOf ↔
    c.path ∈ listed ∧ hashOf c.path = some c.hash ∧
      Change.classify c.hash (catalogs.map (·.hash? (PathForm.text c.path))) = c.change ∧
      c.change ≠ .unchanged := by
  obtain ⟨path, change, hash⟩ := c
  simp only [listedChanges, List.mem_filterMap, Option.bind_eq_some_iff]
  constructor
  · rintro ⟨p, hp, current, hhash, hc⟩
    cases hchange : Change.classify current (catalogs.map (·.hash? (PathForm.text p))) <;>
      simp only [hchange, Option.some.injEq, FileChange.mk.injEq, reduceCtorEq] at hc
    all_goals
      obtain ⟨rfl, rfl, rfl⟩ := hc
      exact ⟨hp, hhash, hchange, by simp⟩
  · rintro ⟨hp, hhash, hchange, hne⟩
    refine ⟨path, hp, hash, hhash, ?_⟩
    rw [hchange]
    cases change <;> first | rfl | exact absurd rfl hne

/-- Of the records that are added, the first of each new path is taken. -/
theorem mem_add_records {seen rs : Records} {p : Path} {hash : String} :
    (p, hash) ∈ addRecords seen rs ↔
      (p, hash) ∈ seen ∨ p ∉ seen.map Prod.fst ∧ rs.hash? p = some hash := by
  unfold addRecords
  induction rs generalizing seen with
  | nil => simp [Records.hash?]
  | cons r rs ih =>
    rw [List.foldl_cons, ih, Records.hash_cons]
    by_cases hr : r.1 ∈ seen.map Prod.fst
    · rw [if_pos (by simpa using hr)]
      refine or_congr_right (and_congr_right fun hp => ?_)
      rw [if_neg (ne_of_mem_of_not_mem hr hp).symm]
    · rw [if_neg (by simpa using hr)]
      by_cases hp : p = r.1
      · subst hp
        simp [hr, Prod.ext_iff, eq_comm]
      · simp [hp, Prod.ext_iff]

/-- The catalogs are gone through one after another as if they were one. -/
theorem gone_records_eq (catalogs : List Records) (listed : List P) :
    goneRecords catalogs listed =
      addRecords [] (catalogs.flatten.filter (!(listed.map PathForm.text).contains ·.1)) := by
  have hfold : ∀ seen : Records, catalogs.foldl
      (fun seen rs => addRecords seen (rs.filter (!(listed.map PathForm.text).contains ·.1))) seen =
      addRecords seen (catalogs.flatten.filter (!(listed.map PathForm.text).contains ·.1)) := by
    induction catalogs with
    | nil => exact fun _ => rfl
    | cons rs catalogs ih =>
      intro seen
      rw [List.foldl_cons, ih, List.flatten_cons, List.filter_append]
      exact List.foldl_append.symm
  exact hfold []

theorem mem_gone_records {t : Path} {hash : String} : (t, hash) ∈ goneRecords catalogs listed ↔
    t ∉ listed.map PathForm.text ∧ catalogs.findSome? (·.hash? t) = some hash := by
  rw [gone_records_eq, mem_add_records,
    Records.hash_filter (!(listed.map PathForm.text).contains ·), Records.hash_flatten]
  simp

/-- A removed file is a recorded one whose text is not listed, and carries its first record. -/
theorem mem_removed_changes : c ∈ removedChanges catalogs listed ↔
    ∃ t hash, c = ⟨PathForm.ofText t, .removed, hash⟩ ∧ t ∉ listed.map PathForm.text ∧
      catalogs.findSome? (·.hash? t) = some hash := by
  rw [removedChanges, List.mem_map]
  simp only [List.mem_mergeSort]
  constructor
  · rintro ⟨⟨t, hash⟩, hr, rfl⟩
    exact ⟨t, hash, rfl, mem_gone_records.mp hr⟩
  · rintro ⟨t, hash, rfl, hr⟩
    exact ⟨(t, hash), mem_gone_records.mpr hr, rfl⟩

end

section
variable {catalogs : List Records} {listed : List Path} {c : FileChange} {p : Path}

/-- Paths that are texts are listed under themselves. -/
theorem mem_removed_changes_iff : c ∈ removedChanges catalogs listed ↔
    c.change = .removed ∧ c.path ∉ listed ∧
      catalogs.findSome? (·.hash? c.path) = some c.hash := by
  have hlisted : listed.map PathForm.text = listed := List.map_id listed
  rw [mem_removed_changes, hlisted]
  constructor
  · rintro ⟨t, hash, rfl, hgone, hhash⟩
    exact ⟨rfl, hgone, hhash⟩
  · rintro ⟨hchange, hgone, hhash⟩
    exact ⟨c.path, c.hash, by rw [← hchange]; rfl, hgone, hhash⟩

theorem path_mem_removed_changes : (∃ c ∈ removedChanges catalogs listed, c.path = p) ↔
    p ∉ listed ∧ ∃ rs ∈ catalogs, p ∈ rs.map Prod.fst := by
  have hrecorded : (∃ rs ∈ catalogs, p ∈ rs.map Prod.fst) ↔
      ∃ hash, catalogs.findSome? (·.hash? p) = some hash := by
    simp only [Records.path_mem_iff, ← Option.isSome_iff_exists, List.findSome?_isSome_iff]
  rw [hrecorded]
  constructor
  · rintro ⟨c, hc, rfl⟩
    obtain ⟨-, hp, hhash⟩ := mem_removed_changes_iff.mp hc
    exact ⟨hp, _, hhash⟩
  · rintro ⟨hp, hash, hhash⟩
    exact ⟨⟨p, .removed, hash⟩, mem_removed_changes_iff.mpr ⟨rfl, hp, hhash⟩, rfl⟩

theorem change_of_mem_removed_changes (hc : c ∈ removedChanges catalogs listed) :
    c.change = .removed :=
  (mem_removed_changes_iff.mp hc).1

end
end FileChange

theorem Plan.recorded_in_catalogs (scope : Scope) (stores : ArtifactKind → Store) (p : Path) :
    (Plan.catalogs scope stores).map (·.hash? p) =
      ArtifactKind.all.map fun k => (stores k).hash? (scope.slot k p) := by
  rw [catalogs, List.map_map]
  apply List.map_congr_left
  intro k _
  exact hash_of_records (stores k) _ p

namespace Store

/-- The records of all tags of a scope. -/
def catalogs (scope : Scope) (st : Store) : List Records := Plan.catalogs scope fun _ => st

/-- The jobs of a directory, given what it lists and the hashes of its files. -/
def jobs (scope : Scope) (listed : List Path) (hashOf : Path → Option String) (st : Store) :
    List Job :=
  (FileChange.plan (st.catalogs scope) listed hashOf).map fun c =>
    ⟨scope, c.path, c.change, c.hash⟩

section
variable {st : Store} {scope : Scope} {listed : List Path} {hashOf : Path → Option String}

theorem recorded_in_catalogs (p : Path) :
    (st.catalogs scope).map (·.hash? p) =
      ArtifactKind.all.map fun k => st.hash? (scope.slot k p) :=
  Plan.recorded_in_catalogs scope (fun _ => st) p

theorem mem_jobs {j : Job} : j ∈ st.jobs scope listed hashOf ↔ j.scope = scope ∧
    ⟨j.path, j.change, j.hash⟩ ∈ FileChange.plan (st.catalogs scope) listed hashOf := by
  rw [jobs, List.mem_map]
  constructor
  · rintro ⟨c, hc, rfl⟩
    exact ⟨rfl, hc⟩
  · rintro ⟨rfl, hj⟩
    exact ⟨_, hj, rfl⟩

/-- What a job is for: a removed file is not listed, any other one is listed and is to be
written. -/
theorem job_spec {j : Job} (hj : j ∈ st.jobs scope listed hashOf) :
    j.scope = scope ∧ j.change ≠ .unchanged ∧ (j.change = .removed ↔ j.path ∉ listed) := by
  obtain ⟨hscope, hj⟩ := mem_jobs.mp hj
  rcases FileChange.mem_plan.mp hj with hlisted | hremoved
  · obtain ⟨hp, -, hclass, hne⟩ := FileChange.mem_listed_changes.mp hlisted
    refine ⟨hscope, hne, ?_⟩
    constructor
    · intro hremoved
      exact absurd (hclass.trans hremoved) (Change.classify_ne_removed _ _)
    · intro hn
      exact absurd hp hn
  · have hchange : j.change = .removed := FileChange.change_of_mem_removed_changes hremoved
    have hp := (FileChange.path_mem_removed_changes.mp ⟨_, hremoved, rfl⟩).1
    exact ⟨hscope, by simp [hchange], by simp [hchange, hp]⟩

theorem job_of_listed {p : Path} {hash : String} (hp : p ∈ listed) (hhash : hashOf p = some hash) :
    (∃ j ∈ st.jobs scope listed hashOf, j.path = p) ↔
      ∃ k, st.hash? (scope.slot k p) ≠ some hash := by
  have hclass : Change.classify hash ((st.catalogs scope).map (·.hash? p)) = .unchanged ↔
      ∀ k, st.hash? (scope.slot k p) = some hash := by
    rw [Change.classify_eq_unchanged_iff, recorded_in_catalogs]
    constructor
    · rintro ⟨-, hall⟩ k
      exact hall _ (List.mem_map.mpr ⟨k, ArtifactKind.mem_all k, rfl⟩)
    · intro hall
      refine ⟨by simp [ArtifactKind.all], ?_⟩
      intro r hr
      obtain ⟨k, -, rfl⟩ := List.mem_map.mp hr
      exact hall k
  constructor
  · rintro ⟨j, hj, rfl⟩
    apply Classical.byContradiction
    intro hall
    simp only [not_exists, ne_eq, Decidable.not_not] at hall
    rcases FileChange.mem_plan.mp (mem_jobs.mp hj).2 with hlisted | hremoved
    · obtain ⟨-, hh, hc, hne⟩ := FileChange.mem_listed_changes.mp hlisted
      rw [hhash] at hh
      cases hh
      exact hne (hc.symm.trans (hclass.mpr hall))
    · exact (FileChange.path_mem_removed_changes.mp ⟨_, hremoved, rfl⟩).1 hp
  · rintro ⟨k, hk⟩
    let change := Change.classify hash ((st.catalogs scope).map (·.hash? p))
    have hne : change ≠ .unchanged := fun hunchanged => hk (hclass.mp hunchanged k)
    have hc : (⟨p, change, hash⟩ : FileChange) ∈
        FileChange.plan (st.catalogs scope) listed hashOf :=
      FileChange.mem_plan.mpr (Or.inl (FileChange.mem_listed_changes.mpr ⟨hp, hhash, rfl, hne⟩))
    exact ⟨⟨scope, p, change, hash⟩, mem_jobs.mpr ⟨rfl, hc⟩, rfl⟩

theorem job_of_unlisted {p : Path} (hp : p ∉ listed) :
    (∃ j ∈ st.jobs scope listed hashOf, j.path = p) ↔
      ∃ k, st.hash? (scope.slot k p) ≠ none := by
  have hrecorded : (∃ rs ∈ st.catalogs scope, p ∈ rs.map Prod.fst) ↔
      ∃ k, st.hash? (scope.slot k p) ≠ none := by
    simp only [catalogs, Plan.catalogs, List.mem_map, ArtifactKind.mem_all, true_and,
      exists_exists_eq_and]
    apply exists_congr
    intro k
    rw [hash?, ne_eq, List.head?_eq_none_iff]
    constructor
    · rintro ⟨⟨_, hash⟩, hr, rfl⟩
      exact List.ne_nil_of_mem (mem_records.mp hr)
    · intro h
      obtain ⟨hash, hh⟩ := List.exists_mem_of_ne_nil _ h
      exact ⟨(p, hash), mem_records.mpr hh, rfl⟩
  rw [← hrecorded]
  constructor
  · rintro ⟨j, hj, rfl⟩
    rcases FileChange.mem_plan.mp (mem_jobs.mp hj).2 with hlisted | hremoved
    · exact absurd (FileChange.mem_listed_changes.mp hlisted).1 hp
    · exact (FileChange.path_mem_removed_changes.mp ⟨_, hremoved, rfl⟩).2
  · intro hsome
    obtain ⟨c, hc, rfl⟩ := FileChange.path_mem_removed_changes.mpr ⟨hp, hsome⟩
    exact ⟨⟨scope, c.path, c.change, c.hash⟩,
      mem_jobs.mpr ⟨rfl, FileChange.mem_plan.mpr (Or.inr hc)⟩, rfl⟩

end
end Store

theorem exists_right_of_forall₂ {R : α → β → Prop} {as : List α} {bs : List β}
    (h : List.Forall₂ R as bs) {a : α} (ha : a ∈ as) : ∃ b ∈ bs, R a b := by
  induction h with
  | nil => cases ha
  | @cons _ b _ _ hab _ ih =>
    rcases List.mem_cons.mp ha with rfl | ha
    · exact ⟨b, List.mem_cons_self, hab⟩
    · obtain ⟨c, hc, hac⟩ := ih ha
      exact ⟨c, List.mem_cons_of_mem _ hc, hac⟩

theorem exists_left_of_forall₂ {R : α → β → Prop} {as : List α} {bs : List β}
    (h : List.Forall₂ R as bs) {b : β} (hb : b ∈ bs) : ∃ a ∈ as, R a b := by
  obtain ⟨a, ha, hr⟩ := exists_right_of_forall₂ h.flip hb
  exact ⟨a, ha, hr⟩

namespace Plan

section
variable {σ : Type} {h : Host σ} {s : Settings} {st : Store}

/-- Each listed file was read, and either its hash is known or it is rejected. -/
theorem read_all_spec {limit : Nat} {listed : List Path} {w : σ}
    {read : List (Path × String) × List Rejected}
    (hread : ((readAll h limit listed).run w).1 = read) :
    (∀ p ∈ listed, (∃ hash, (p, hash) ∈ read.1) ∨ ∃ r ∈ read.2, r.path = p) ∧
      (∀ e ∈ read.1, ∃ bytes w, ((h.readWithin limit e.1).run w).1 = .ok bytes ∧
        e.2 = hashBytes bytes) ∧
      ∀ r ∈ read.2, ∃ e w, ((h.readWithin limit r.path).run w).1 = .error e := by
  induction listed generalizing read w with
  | nil =>
    subst hread
    refine ⟨?_, ?_, ?_⟩ <;> intro _ hm <;> cases hm
  | cons p ps ih =>
    rw [readAll, run_bind, run_bind] at hread
    generalize hp : (h.readWithin limit p).run w = answer at hread
    obtain ⟨bytes, w₁⟩ := answer
    generalize hps : (readAll h limit ps).run w₁ = rest at hread
    obtain ⟨⟨hashes, rejected⟩, w₂⟩ := rest
    obtain ⟨hcovered, hsound, hrefused⟩ := ih (congrArg Prod.fst hps)
    cases bytes with
    | ok bytes =>
      subst hread
      refine ⟨?_, ?_, hrefused⟩
      · intro q hq
        rcases List.mem_cons.mp hq with rfl | hq
        · exact Or.inl ⟨hashBytes bytes, List.mem_cons_self⟩
        · rcases hcovered q hq with ⟨hash, hm⟩ | hr
          · exact Or.inl ⟨hash, List.mem_cons_of_mem _ hm⟩
          · exact Or.inr hr
      · intro e he
        rcases List.mem_cons.mp he with rfl | he
        · exact ⟨bytes, w, congrArg Prod.fst hp, rfl⟩
        · exact hsound e he
    | error err =>
      subst hread
      refine ⟨?_, hsound, ?_⟩
      · intro q hq
        rcases List.mem_cons.mp hq with rfl | hq
        · exact Or.inr ⟨⟨q, err.text⟩, List.mem_cons_self, rfl⟩
        · rcases hcovered q hq with hm | ⟨r, hm, hr⟩
          · exact Or.inl hm
          · exact Or.inr ⟨r, List.mem_cons_of_mem _ hm, hr⟩
      · intro r hr
        rcases List.mem_cons.mp hr with rfl | hr
        · exact ⟨err, w, congrArg Prod.fst hp⟩
        · exact hrefused r hr

/-- The hash that a file is looked up with is that of its bytes, in whatever spelling it was read
last. -/
theorem hash_in_of_read {hashes : List (Path × String)} {p : Path} {hash : String}
    (hmem : ∃ hash, (p, hash) ∈ hashes)
    (hsame : ∀ e ∈ hashes, Path.same e.1 p → e.2 = hash) : hashIn hashes p = some hash := by
  obtain ⟨hash', hm⟩ := hmem
  have hfound : (hashes.reverse.find? fun e => Path.same e.1 p).isSome := by
    rw [List.find?_isSome]
    exact ⟨_, List.mem_reverse.mpr hm, by simp [Path.same]⟩
  obtain ⟨e, he⟩ := Option.isSome_iff_exists.mp hfound
  have hspelling := List.find?_some he
  have hread := List.mem_reverse.mp (List.mem_of_find?_eq_some he)
  simp only [hashIn, PathForm.spelling_path, he, Option.map_some, hsame e hread hspelling]

theorem of_dir_ok {dir : Path} {plan : Plan} {w : σ}
    (hplan : ((ofDir h s (fun _ => st) dir).run w).1 = .ok plan) : ∃ listed w₁ w₂,
      (h.list dir).run w = (.ok listed, w₁) ∧
        plan = ⟨st.jobs ⟨((h.branch dir).run w₁).1, dir⟩ listed
            (hashIn ((readAll h s.maxFileSize listed).run w₂).1.1),
          ((readAll h s.maxFileSize listed).run w₂).1.2⟩ := by
  rw [ofDir, run_bind] at hplan
  generalize (h.list dir).run w = answer at hplan
  obtain ⟨listed, w₁⟩ := answer
  cases listed with
  | error e => cases hplan
  | ok listed =>
    rw [run_bind, Host.scope, run_bind, run_pure] at hplan
    simp only [run_bind, run_pure] at hplan
    cases hplan
    exact ⟨listed, w₁, _, rfl, rfl⟩

theorem of_dirs_single {dir : Path} {plan : Plan} {w : σ}
    (hplan : ((ofDirs h s st [dir]).run w).1 = .ok plan) :
    ((ofDir h s (fun _ => st) dir).run w).1 = .ok plan := by
  rw [ofDirs, run_bind] at hplan
  generalize (ofDir h s (fun _ => st) dir).run w = first at hplan ⊢
  obtain ⟨first, w₁⟩ := first
  cases first with
  | error e => cases hplan
  | ok first =>
    have hsame : first.append empty = first := by simp [append, empty]
    rw [← hplan]
    exact congrArg Except.ok hsame.symm

/-- The plan of several directories is made of a plan for each. -/
theorem of_dirs_ok {dirs : List Path} {plan : Plan} {w : σ}
    (hplan : ((ofDirs h s st dirs).run w).1 = .ok plan) : ∃ plans : List Plan,
      List.Forall₂ (fun dir plan => ∃ w, ((ofDir h s (fun _ => st) dir).run w).1 = .ok plan)
        dirs plans ∧
        plan.jobs = plans.flatMap Plan.jobs ∧ plan.rejected = plans.flatMap Plan.rejected := by
  induction dirs generalizing plan w with
  | nil =>
    cases hplan
    exact ⟨[], .nil, rfl, rfl⟩
  | cons dir dirs ih =>
    rw [ofDirs, run_bind] at hplan
    generalize hdir : (ofDir h s (fun _ => st) dir).run w = first at hplan
    obtain ⟨first, w₁⟩ := first
    cases first with
    | error e => cases hplan
    | ok first =>
      simp only [run_bind] at hplan
      generalize hdirs : (ofDirs h s st dirs).run w₁ = rest at hplan
      obtain ⟨rest, w₂⟩ := rest
      cases rest with
      | error e => cases hplan
      | ok rest =>
        cases hplan
        obtain ⟨plans, hplans, hjobs, hrejected⟩ := ih (congrArg Prod.fst hdirs)
        refine ⟨first :: plans, .cons ⟨w, congrArg Prod.fst hdir⟩ hplans, ?_, ?_⟩
        · rw [append, hjobs, List.flatMap_cons]
        · rw [append, hrejected, List.flatMap_cons]

end
end Plan
end CodeIndex
