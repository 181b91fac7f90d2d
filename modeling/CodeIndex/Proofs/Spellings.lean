import CodeIndex.Proofs.Retrieval
import Mathlib.Data.List.Sort

namespace CodeIndex

/-- Each element is less than all that follow it. -/
def Ascending (cmp : α → α → Ordering) (as : List α) : Prop :=
  as.Pairwise fun a b => cmp a b = .lt

section
variable {cmp : α → α → Ordering} [Std.TransCmp cmp] {as bs : List α}

/-- Lists in strictly ascending order are told apart by their elements. -/
theorem Ascending.eq_of_mem_iff (ha : Ascending cmp as) (hb : Ascending cmp bs)
    (hmem : ∀ a, a ∈ as ↔ a ∈ bs) : as = bs := by
  have : Std.Irrefl fun a b => cmp a b = .lt := ⟨fun _ => by simp [Std.ReflCmp.compare_self]⟩
  have : Std.Antisymm fun a b => cmp a b = .lt :=
    ⟨fun _ _ hab hba => absurd hba (Std.OrientedCmp.not_lt_of_lt hab)⟩
  exact List.Pairwise.eq_of_mem_iff ha hb hmem

end

theorem trans_on (cmp : α → α → Ordering) [Std.TransCmp cmp] (f : β → α) :
    Std.TransCmp fun a b => cmp (f a) (f b) where
  eq_swap := Std.OrientedCmp.eq_swap
  isLE_trans := Std.TransCmp.isLE_trans

namespace Path

instance : Std.TransCmp Component.compare :=
  inferInstanceAs (Std.TransCmp (compareLex (compareOn Component.rank) (compareOn Component.label)))

instance : Std.LawfulEqCmp Component.compare where
  eq_of_compare {a b} h := by
    rw [Component.compare, Ordering.then_eq_eq, Nat.compare_eq_eq] at h
    obtain ⟨hrank, hlabel⟩ := h
    have hlabel := Std.LawfulEqCmp.eq_of_compare hlabel
    cases a <;> cases b <;> simp_all [Component.rank, Component.label]

theorem compare_components_eq : compareComponents = List.compareLex Component.compare := by
  funext as bs
  induction as generalizing bs with
  | nil => cases bs <;> rfl
  | cons a as ih =>
    cases bs with
    | nil => rfl
    | cons b bs => rw [compareComponents, List.compareLex_cons_cons, ih]

instance : Std.TransCmp compareComponents := by
  rw [compare_components_eq]
  infer_instance

instance : Std.LawfulEqCmp compareComponents := by
  rw [compare_components_eq]
  infer_instance

end Path

namespace Tag

/-- What a tag asks for: its branch, and its directory by components. -/
def site (t : Tag) : String × List Path.Component := (t.branch, Path.components t.directory)

def compareSites : (a b : String × List Path.Component) → Ordering :=
  compareLex (compareOn Prod.fst) fun a b => Path.compareComponents a.2 b.2

instance : Std.TransCmp compareSites :=
  have := trans_on Path.compareComponents (Prod.snd (α := String))
  inferInstanceAs (Std.TransCmp (compareLex _ _))

instance : Std.LawfulEqCmp compareSites where
  eq_of_compare {a b} h := by
    obtain ⟨hbranch, hdir⟩ := Ordering.then_eq_eq.mp h
    exact Prod.ext (Std.LawfulEqCmp.eq_of_compare hbranch) (Std.LawfulEqCmp.eq_of_compare hdir)

theorem compare_eq_then (s t : Tag) :
    compare s t = (compareSites s.site t.site).then (Ord.compare s.artifact t.artifact) :=
  (Ordering.then_assoc ..).symm

instance : Std.TransCmp compare := by
  have := trans_on compareSites site
  rw [show compare = compareLex (fun s t => compareSites s.site t.site) (compareOn artifact) from
    funext₂ compare_eq_then]
  infer_instance

theorem compare_eq_iff {s t : Tag} :
    compare s t = .eq ↔ s.site = t.site ∧ s.artifact = t.artifact := by
  rw [compare_eq_then, Ordering.then_eq_eq, Std.LawfulEqCmp.compare_eq_iff_eq,
    Std.LawfulEqCmp.compare_eq_iff_eq]

theorem compare_of_site_eq {s t : Tag} (h : s.site = t.site) :
    compare s t = Ord.compare s.artifact t.artifact := by
  simp [compare_eq_then, h, Std.ReflCmp.compare_self]

theorem compare_of_artifact_eq {s t : Tag} (h : s.artifact = t.artifact) :
    compare s t = compareSites s.site t.site := by
  simp [compare_eq_then, h, Std.ReflCmp.compare_self]

theorem mem_insert_iff {t x : Tag} {set : List Tag} (hset : Ascending compare set) :
    x ∈ insert t set ↔ x ∈ set ∨ x = t ∧ ∀ s ∈ set, compare t s ≠ .eq := by
  fun_induction insert t set with
  | case1 => simp
  | case2 s ts hlt =>
    obtain ⟨hs, -⟩ := List.pairwise_cons.mp hset
    have hnew : ∀ y ∈ s :: ts, compare t y ≠ .eq := by
      intro y hy
      rcases List.mem_cons.mp hy with rfl | hy
      · simp [hlt]
      · simp [Std.TransCmp.lt_trans hlt (hs y hy)]
    rw [List.mem_cons, or_comm, and_iff_left hnew]
  | case3 s ts heq =>
    exact (or_iff_left fun h => h.2 s List.mem_cons_self heq).symm
  | case4 s ts hgt ih =>
    rw [List.mem_cons, List.mem_cons, ih hset.of_cons, or_assoc, List.forall_mem_cons]
    simp [hgt]

theorem ascending_insert {t : Tag} {set : List Tag} (hset : Ascending compare set) :
    Ascending compare (insert t set) := by
  fun_induction insert t set with
  | case1 => exact List.pairwise_singleton _ _
  | case2 s ts hlt =>
    obtain ⟨hs, -⟩ := List.pairwise_cons.mp hset
    refine List.pairwise_cons.mpr ⟨fun y hy => ?_, hset⟩
    rcases List.mem_cons.mp hy with rfl | hy
    · exact hlt
    · exact Std.TransCmp.lt_trans hlt (hs y hy)
  | case3 => exact hset
  | case4 s ts hgt ih =>
    obtain ⟨hs, hts⟩ := List.pairwise_cons.mp hset
    refine List.pairwise_cons.mpr ⟨fun y hy => ?_, ih hts⟩
    rcases (mem_insert_iff hts).mp hy with hy | ⟨rfl, -⟩
    · exact hs y hy
    · exact Std.OrientedCmp.gt_iff_lt.mp hgt

theorem exists_mem_insert (t : Tag) {set : List Tag} (hset : Ascending compare set) :
    ∃ s ∈ insert t set, compare t s = .eq := by
  by_cases h : ∃ s ∈ set, compare t s = .eq
  · obtain ⟨s, hs, heq⟩ := h
    exact ⟨s, (mem_insert_iff hset).mpr (.inl hs), heq⟩
  · exact ⟨t, (mem_insert_iff hset).mpr (.inr ⟨rfl, by simpa using h⟩), Std.ReflCmp.compare_self⟩

/-- Of equal tags the set keeps the one it was given first. -/
theorem mem_foldl_insert {x : Tag} {added set : List Tag} (hset : Ascending compare set) :
    x ∈ added.foldl (fun set t => insert t set) set ↔
      x ∈ set ∨ added.find? (compare · x = .eq) = some x ∧ ∀ s ∈ set, compare x s ≠ .eq := by
  -- The next tag is equal to `x`, so that no later one is taken, or has no part in it.
  induction added generalizing set with
  | nil => simp
  | cons t ts ih =>
    rw [List.foldl_cons, ih (ascending_insert hset), mem_insert_iff hset, or_assoc,
      List.find?_cons]
    refine or_congr_right ?_
    obtain ⟨s, hs, hts⟩ := exists_mem_insert t hset
    by_cases htx : compare t x = .eq
    · have hgone : ¬ ∀ s ∈ insert t set, compare x s ≠ .eq := fun h =>
        h s hs (Std.TransCmp.eq_trans (Std.OrientedCmp.eq_symm htx) hts)
      simp only [htx, hgone, and_false, or_false, decide_true, Option.some.injEq]
      exact ⟨fun ⟨h, hnew⟩ => ⟨h.symm, h ▸ hnew⟩, fun ⟨h, hnew⟩ => ⟨h.symm, h ▸ hnew⟩⟩
    · have hother : x ≠ t := by
        rintro rfl
        exact htx Std.ReflCmp.compare_self
      simp only [htx, hother, false_and, false_or, decide_false]
      refine and_congr_right fun _ => ⟨fun h s hs => h s ((mem_insert_iff hset).mpr (.inl hs)),
        fun h s hs => ?_⟩
      rcases (mem_insert_iff hset).mp hs with hs | ⟨rfl, -⟩
      · exact h s hs
      · exact fun heq => htx (Std.OrientedCmp.eq_symm heq)

theorem mem_collect_iff {x : Tag} {added : List Tag} :
    x ∈ collect added ↔ added.find? (compare · x = .eq) = some x := by
  have hempty : Ascending compare [] := List.Pairwise.nil
  rw [collect, mem_foldl_insert hempty]
  simp

theorem ascending_collect (added : List Tag) : Ascending compare (collect added) :=
  List.foldlRecOn added _ List.Pairwise.nil fun _ h _ _ => ascending_insert h

theorem mem_of_mem_collect {t : Tag} {added : List Tag} (ht : t ∈ collect added) : t ∈ added :=
  List.mem_of_find?_eq_some (mem_collect_iff.mp ht)

theorem exists_mem_collect {t : Tag} {added : List Tag} (ht : t ∈ added) :
    ∃ u ∈ collect added, u.site = t.site ∧ u.artifact = t.artifact := by
  obtain ⟨u, hu⟩ := Option.isSome_iff_exists.mp
    (List.find?_isSome (p := (compare · t = .eq)).mpr ⟨t, ht, by simp [compare_eq_iff]⟩)
  have hut : compare u t = .eq := by simpa using List.find?_some hu
  refine ⟨u, mem_collect_iff.mpr ?_, compare_eq_iff.mp hut⟩
  simpa only [Std.TransCmp.congr_right hut] using hu

theorem mem_site_collect_iff {added : List Tag} {a} :
    a ∈ (collect added).map site ↔ a ∈ added.map site := by
  simp only [List.mem_map]
  constructor
  · rintro ⟨t, ht, rfl⟩
    exact ⟨t, mem_of_mem_collect ht, rfl⟩
  · rintro ⟨t, ht, rfl⟩
    obtain ⟨u, hu, hsite, -⟩ := exists_mem_collect ht
    exact ⟨u, hu, hsite⟩

section
variable {ts : List Tag} {kind : ArtifactKind}

theorem before_later {s t : Tag} (hts : (s :: t :: ts).Pairwise fun s t => (compare s t).isLE)
    (hst : compare s t ≠ .eq) : ∀ y ∈ t :: ts, compare s y = .lt := by
  obtain ⟨hs, hts⟩ := List.pairwise_cons.mp hts
  have hlt : compare s t = .lt :=
    (Ordering.isLE_iff_eq_lt_or_eq_eq.mp (hs t List.mem_cons_self)).resolve_right hst
  intro y hy
  rcases List.mem_cons.mp hy with rfl | hy
  · exact hlt
  · exact Std.TransCmp.lt_of_lt_of_isLE hlt ((List.pairwise_cons.mp hts).1 y hy)

theorem ascending_last_of_equal (hts : ts.Pairwise fun s t => (compare s t).isLE) :
    Ascending compare (lastOfEqual ts) := by
  fun_induction lastOfEqual ts with
  | case1 s t ts heq ih => exact ih hts.of_cons
  | case2 s t ts hne ih =>
    refine List.pairwise_cons.mpr ⟨fun y hy => ?_, ih hts.of_cons⟩
    exact before_later hts hne y (mem_of_lastOfEqual hy)
  | case3 ts h =>
    cases ts with
    | nil => exact List.Pairwise.nil
    | cons t ts =>
      cases ts with
      | nil => exact List.pairwise_singleton _ _
      | cons u ts => exact absurd rfl (h t u ts)

theorem mem_last_of_equal_iff {x : Tag} (hts : ts.Pairwise fun s t => (compare s t).isLE) :
    x ∈ lastOfEqual ts ↔
      ∃ before after, ts = before ++ x :: after ∧ ∀ y ∈ after, compare x y ≠ .eq := by
  fun_induction lastOfEqual ts with
  | case1 s t ts heq ih =>
    rw [ih hts.of_cons]
    constructor
    · rintro ⟨before, after, hsplit, hafter⟩
      exact ⟨s :: before, after, by rw [hsplit, List.cons_append], hafter⟩
    · rintro ⟨before, after, hsplit, hafter⟩
      cases before with
      | nil =>
        obtain ⟨rfl, rfl⟩ := List.cons.inj hsplit
        exact absurd heq (hafter t List.mem_cons_self)
      | cons b before => exact ⟨before, after, (List.cons.inj hsplit).2, hafter⟩
  | case2 s t ts hne ih =>
    rw [List.mem_cons, ih hts.of_cons]
    constructor
    · rintro (rfl | ⟨before, after, hsplit, hafter⟩)
      · exact ⟨[], t :: ts, rfl, fun y hy => by simp [before_later hts hne y hy]⟩
      · exact ⟨s :: before, after, by rw [hsplit, List.cons_append], hafter⟩
    · rintro ⟨before, after, hsplit, hafter⟩
      cases before with
      | nil => exact .inl (List.cons.inj hsplit).1.symm
      | cons b before => exact .inr ⟨before, after, (List.cons.inj hsplit).2, hafter⟩
  | case3 ts h =>
    constructor
    · intro hx
      cases ts with
      | nil => cases hx
      | cons t ts =>
        cases ts with
        | nil =>
          obtain rfl := List.mem_singleton.mp hx
          exact ⟨[], [], rfl, by simp⟩
        | cons u ts => exact absurd rfl (h t u ts)
    · rintro ⟨before, after, rfl, -⟩
      simp

theorem exists_mem_last_of_equal {x : Tag} (hx : x ∈ ts) :
    ∃ y ∈ lastOfEqual ts, compare x y = .eq := by
  fun_induction lastOfEqual ts generalizing x with
  | case1 s t ts heq ih =>
    rcases List.mem_cons.mp hx with rfl | hx
    · obtain ⟨y, hy, hty⟩ := ih List.mem_cons_self
      exact ⟨y, hy, Std.TransCmp.eq_trans heq hty⟩
    · exact ih hx
  | case2 s t ts hne ih =>
    rcases List.mem_cons.mp hx with rfl | hx
    · exact ⟨x, List.mem_cons_self, Std.ReflCmp.compare_self⟩
    · obtain ⟨y, hy, hxy⟩ := ih hx
      exact ⟨y, List.mem_cons_of_mem _ hy, hxy⟩
  | case3 => exact ⟨x, hx, Std.ReflCmp.compare_self⟩

theorem bound_sorted (hts : Ascending compare ts) (artifact : String) :
    (ts.map (·.withArtifact artifact)).Pairwise fun s t => (compare s t).isLE := by
  refine List.pairwise_map.mpr (hts.imp fun {s t} hlt => ?_)
  rw [compare_eq_then, Ordering.then_eq_lt] at hlt
  rw [compare_of_artifact_eq (s := s.withArtifact artifact) (t := t.withArtifact artifact) rfl]
  rcases hlt with hlt | ⟨heq, -⟩
  · exact Ordering.isLE_of_eq_lt hlt
  · exact Ordering.isLE_of_eq_eq heq

theorem bound_to_eq (hts : Ascending compare ts) (kind : ArtifactKind) :
    boundTo kind ts = lastOfEqual (ts.map (·.withArtifact kind.id)) := by
  rw [boundTo, List.mergeSort_of_pairwise (bound_sorted hts kind.id)]

/-- Of the tags for one site, the one with the greatest artifact is bound. -/
theorem mem_bound_to_iff (hts : Ascending compare ts) {x : Tag} :
    x ∈ boundTo kind ts ↔ ∃ t ∈ ts, x = t.withArtifact kind.id ∧
      ∀ u ∈ ts, u.site = t.site → u.artifact ≤ t.artifact := by
  -- Tags of one site ascend by artifact before they are bound and are equal afterwards.
  rw [bound_to_eq hts, mem_last_of_equal_iff (bound_sorted hts kind.id)]
  constructor
  · rintro ⟨before, after, hsplit, hafter⟩
    obtain ⟨front, rest, rfl, -, hrest⟩ := List.map_eq_append_iff.mp hsplit
    obtain ⟨t, back, rfl, rfl, rfl⟩ := List.map_eq_cons_iff.mp hrest
    refine ⟨t, by simp, rfl, fun u hu hsite => ?_⟩
    rcases List.mem_append.mp hu with hu | hu
    · have hlt := (List.pairwise_append.mp hts).2.2 u hu t List.mem_cons_self
      rw [compare_of_site_eq hsite] at hlt
      exact Std.le_of_lt (compareOfLessAndEq_eq_lt.mp hlt)
    · rcases List.mem_cons.mp hu with rfl | hu
      · exact String.le_refl _
      · exact (hafter _ (List.mem_map_of_mem hu) (compare_eq_iff.mpr ⟨hsite.symm, rfl⟩)).elim
  · rintro ⟨t, ht, rfl, hgreatest⟩
    obtain ⟨front, back, rfl⟩ := List.append_of_mem ht
    refine ⟨front.map (·.withArtifact kind.id), back.map (·.withArtifact kind.id), by simp, ?_⟩
    rintro y hy heq
    obtain ⟨u, hu, rfl⟩ := List.mem_map.mp hy
    have hsite : t.site = u.site := (compare_eq_iff.mp heq).1
    have hlt := (List.pairwise_cons.mp (List.pairwise_append.mp hts).2.1).1 u hu
    rw [compare_of_site_eq hsite] at hlt
    exact String.not_le.mpr (compareOfLessAndEq_eq_lt.mp hlt)
      (hgreatest u (by simp [hu]) hsite.symm)

theorem artifact_of_bound {x : Tag} (hx : x ∈ boundTo kind ts) : x.artifact = kind.id := by
  obtain ⟨t, -, rfl⟩ := mem_boundTo hx
  rfl

theorem ascending_bound_to (hts : Ascending compare ts) (kind : ArtifactKind) :
    Ascending compare (boundTo kind ts) := by
  rw [bound_to_eq hts]
  exact ascending_last_of_equal (bound_sorted hts kind.id)

theorem ascending_sites (hts : Ascending compare ts) (kind : ArtifactKind) :
    Ascending compareSites ((boundTo kind ts).map site) := by
  refine List.pairwise_map.mpr ((ascending_bound_to hts kind).imp_of_mem fun hs ht hlt => ?_)
  rwa [compare_of_artifact_eq ((artifact_of_bound hs).trans (artifact_of_bound ht).symm)] at hlt

theorem mem_site_bound_to_iff (hts : Ascending compare ts) (kind : ArtifactKind) {a} :
    a ∈ (boundTo kind ts).map site ↔ a ∈ ts.map site := by
  simp only [List.mem_map]
  constructor
  · rintro ⟨x, hx, rfl⟩
    obtain ⟨t, ht, rfl⟩ := mem_boundTo hx
    exact ⟨t, ht, rfl⟩
  · rintro ⟨t, ht, rfl⟩
    obtain ⟨y, hy, heq⟩ :=
      exists_mem_last_of_equal (List.mem_map_of_mem (f := (·.withArtifact kind.id)) ht)
    exact ⟨y, bound_to_eq hts kind ▸ hy, (compare_eq_iff.mp heq).1.symm⟩

end

/-- The tag whose spelling counts among those that were added for its branch and directory: the one
with the greatest artifact, and of equal ones the first. -/
structure Leads (added : List Tag) (t : Tag) : Prop where
  first : added.find? (compare · t = .eq) = some t
  greatest : ∀ u ∈ added, u.site = t.site → u.artifact ≤ t.artifact

theorem Leads.eq_of_site_eq {added : List Tag} {t u : Tag} (ht : Leads added t)
    (hu : Leads added u) (hsite : t.site = u.site) : t = u := by
  have hartifact : t.artifact = u.artifact := String.le_antisymm
    (hu.greatest t (List.mem_of_find?_eq_some ht.first) hsite)
    (ht.greatest u (List.mem_of_find?_eq_some hu.first) hsite.symm)
  have hfirst := ht.first
  simp only [Std.TransCmp.congr_right (compare_eq_iff.mpr ⟨hsite, hartifact⟩)] at hfirst
  exact Option.some.inj (hfirst.symm.trans hu.first)

/-- Two ways to add tags give each branch and directory the same spelling. -/
def SpelledAlike (added added' : List Tag) : Prop :=
  ∀ t u, Leads added t → Leads added' u → t.site = u.site → t.directory = u.directory

theorem SpelledAlike.symm {added added' : List Tag} (h : SpelledAlike added added') :
    SpelledAlike added' added :=
  fun t u ht hu hsite => (h u t hu ht hsite.symm).symm

section
variable {added added' : List Tag} {kind : ArtifactKind}

theorem mem_bound_to_collect_iff {x : Tag} :
    x ∈ boundTo kind (collect added) ↔ ∃ t, Leads added t ∧ x = t.withArtifact kind.id := by
  rw [mem_bound_to_iff (ascending_collect added)]
  constructor
  · rintro ⟨t, ht, rfl, hgreatest⟩
    refine ⟨t, ⟨mem_collect_iff.mp ht, fun u hu hsite => ?_⟩, rfl⟩
    obtain ⟨v, hv, hsame, hartifact⟩ := exists_mem_collect hu
    exact hartifact ▸ hgreatest v hv (hsame.trans hsite)
  · rintro ⟨t, ⟨hfirst, hgreatest⟩, rfl⟩
    exact ⟨t, mem_collect_iff.mpr hfirst, rfl, fun u hu => hgreatest u (mem_of_mem_collect hu)⟩

theorem exists_leads {a} (ha : a ∈ added.map site) : ∃ t, Leads added t ∧ t.site = a := by
  obtain ⟨x, hx, rfl⟩ := List.mem_map.mp
    ((mem_site_bound_to_iff (ascending_collect added) .metadata).mpr
      (mem_site_collect_iff.mpr ha))
  obtain ⟨t, ht, rfl⟩ := mem_bound_to_collect_iff.mp hx
  exact ⟨t, ht, rfl⟩

theorem Leads.site_mem {t : Tag} (ht : Leads added t) : t.site ∈ added.map site :=
  List.mem_map_of_mem (List.mem_of_find?_eq_some ht.first)

variable (hsites : ∀ a, a ∈ added.map site ↔ a ∈ added'.map site)
include hsites

theorem sites_bound_to_eq (kind : ArtifactKind) :
    (boundTo kind (collect added)).map site = (boundTo kind (collect added')).map site := by
  refine (ascending_sites (ascending_collect added) kind).eq_of_mem_iff
    (ascending_sites (ascending_collect added') kind) fun a => ?_
  rw [mem_site_bound_to_iff (ascending_collect added), mem_site_collect_iff, hsites,
    ← mem_site_collect_iff, ← mem_site_bound_to_iff (ascending_collect added') kind]

theorem SpelledAlike.mem_bound_to (halike : SpelledAlike added added') {x : Tag}
    (hx : x ∈ boundTo kind (collect added)) : x ∈ boundTo kind (collect added') := by
  obtain ⟨t, ht, rfl⟩ := mem_bound_to_collect_iff.mp hx
  obtain ⟨u, hu, hsite⟩ := exists_leads ((hsites t.site).mp ht.site_mem)
  refine mem_bound_to_collect_iff.mpr ⟨u, hu, ?_⟩
  have hdir := halike t u ht hu hsite.symm
  have hbranch : t.branch = u.branch := congrArg Prod.fst hsite.symm
  simp only [withArtifact, hdir, hbranch]

theorem bound_to_eq_iff :
    boundTo kind (collect added) = boundTo kind (collect added') ↔ SpelledAlike added added' := by
  constructor
  · intro heq t u ht hu hsite
    have hbound : u.withArtifact kind.id ∈ boundTo kind (collect added') :=
      mem_bound_to_collect_iff.mpr ⟨u, hu, rfl⟩
    rw [← heq] at hbound
    obtain ⟨t', ht', hsame⟩ := mem_bound_to_collect_iff.mp hbound
    obtain ⟨hbranch, hdir, -⟩ := mk.inj hsame
    have hsite' : t.site = t'.site := by rw [hsite, site, site, hbranch, hdir]
    rw [ht.eq_of_site_eq ht' hsite', hdir]
  · intro halike
    refine (ascending_bound_to (ascending_collect added) kind).eq_of_mem_iff
      (ascending_bound_to (ascending_collect added') kind) fun x => ?_
    exact ⟨halike.mem_bound_to hsites, halike.symm.mem_bound_to fun a => (hsites a).symm⟩

end

theorem eq_of_key_eq {t u : Tag} (hsite : t.site = u.site) (hartifact : t.artifact = u.artifact)
    (hkey : t.key = u.key) : t = u := by
  obtain ⟨branch, directory, artifact⟩ := t
  obtain ⟨branch', directory', artifact'⟩ := u
  obtain rfl : branch = branch' := congrArg Prod.fst hsite
  obtain rfl : artifact = artifact' := hartifact
  simpa [key, String.append_left_inj] using hkey

/-- Tags of one artifact for the same sites, in the same order, differ only in their spelling. -/
theorem eq_of_keys_eq {ts us : List Tag} {artifact : String} (hsites : ts.map site = us.map site)
    (hkeys : ts.map key = us.map key) (hts : ∀ t ∈ ts, t.artifact = artifact)
    (hus : ∀ u ∈ us, u.artifact = artifact) : ts = us := by
  induction ts generalizing us with
  | nil => exact (List.map_eq_nil_iff.mp hsites.symm).symm
  | cons t ts ih =>
    obtain ⟨u, us, rfl, hsite, hsites⟩ := List.map_eq_cons_iff.mp hsites.symm
    rw [List.map_cons, List.map_cons] at hkeys
    obtain ⟨hkey, hkeys⟩ := List.cons.inj hkeys
    rw [List.forall_mem_cons] at hts hus
    rw [eq_of_key_eq hsite.symm (hts.1.trans hus.1.symm) hkey, ih hsites.symm hkeys hts.2 hus.2]

end Tag

/-- A search looks at the tags only as they are bound. -/
theorem search_congr {q q' : SearchQuery} (htags : ∀ kind, q.tagsFor kind = q'.tagsFor kind)
    (hdir : q.directory = q'.directory) (htext : q.text = q'.text) (h : Host σ)
    (provider : String) (normalize : Ranking.Normalizer) (z : SearchSizes) (st : Store) :
    search h provider normalize z st q = search h provider normalize z st q' := by
  rw [search, search, htags, htags, hdir, htext]

/-- The query that is made by adding tags one after another. -/
def SearchQuery.adding (added : List Tag) (dir : Option Path) (text : Text) : SearchQuery :=
  ⟨Tag.collect added, dir, text⟩

/-- Two queries for the same branches and directories are bound to tags for just these, in the same
order, which differ in their spelling only. Their keys are the same exactly if each branch and
directory is spelled alike by the tag that leads it, and then every search finds the same. -/
theorem respelled_keys_agree_iff {added added' : List Tag}
    (hsites : ∀ a, a ∈ added.map Tag.site ↔ a ∈ added'.map Tag.site) (dir : Option Path)
    (text : Text) :
    let q := SearchQuery.adding added dir text
    let q' := SearchQuery.adding added' dir text
    (∀ kind a, a ∈ (q.tagsFor kind).map Tag.site ↔ a ∈ added.map Tag.site) ∧
      (∀ kind, (q.tagsFor kind).map Tag.site = (q'.tagsFor kind).map Tag.site) ∧
      (∀ kind, (q.tagsFor kind).map Tag.key = (q'.tagsFor kind).map Tag.key ↔
        Tag.SpelledAlike added added') ∧
      (Tag.SpelledAlike added added' → ∀ {σ} (h : Host σ) provider normalize z st,
        search h provider normalize z st q = search h provider normalize z st q') := by
  intro q q'
  have hiff : ∀ kind, q.tagsFor kind = q'.tagsFor kind ↔ Tag.SpelledAlike added added' :=
    fun kind => Tag.bound_to_eq_iff hsites
  refine ⟨fun kind a => ?_, Tag.sites_bound_to_eq hsites, fun kind => ?_,
    fun halike σ h provider normalize z st => ?_⟩
  · exact (Tag.mem_site_bound_to_iff (Tag.ascending_collect added) kind).trans
      Tag.mem_site_collect_iff
  · rw [← hiff kind]
    exact ⟨fun hkeys => Tag.eq_of_keys_eq (Tag.sites_bound_to_eq hsites kind) hkeys
      (fun _ => Tag.artifact_of_bound) fun _ => Tag.artifact_of_bound, congrArg _⟩
  · exact search_congr (fun kind => (hiff kind).mpr halike) rfl rfl h provider normalize z st

/-- A directory as it was indexed, led by its own tag. -/
def Tag.plain : List Tag :=
  [(Scope.mk noBranch "/d").tagFor .metadata, (Scope.mk noBranch "/d/").tagFor .chunk]

/-- The same directory with other artifacts and in another order, led by the same spelling. -/
def Tag.dotted : List Tag :=
  [(Scope.mk noBranch "/d/.").tagFor .chunk, (Scope.mk noBranch "/d").tagFor .embeddings]

/-- The same directory with the artifacts exchanged, led by the other spelling. -/
def Tag.slashed : List Tag :=
  [(Scope.mk noBranch "/d").tagFor .chunk, (Scope.mk noBranch "/d/").tagFor .metadata]

/-- Other artifacts, another order and a dot do not matter while the same spelling leads. -/
theorem respelled_keys_agree_iff_dotted :
    (∀ a, a ∈ Tag.plain.map Tag.site ↔ a ∈ Tag.dotted.map Tag.site) ∧
      ∀ kind, (Tag.boundTo kind (Tag.collect Tag.plain)).map Tag.key =
        (Tag.boundTo kind (Tag.collect Tag.dotted)).map Tag.key := by
  have hsites : ∀ a, a ∈ Tag.plain.map Tag.site ↔ a ∈ Tag.dotted.map Tag.site := by
    rw [show Tag.plain.map Tag.site = Tag.dotted.map Tag.site by decide]
    exact fun _ => Iff.rfl
  have hplain : Tag.Leads Tag.plain ((Scope.mk noBranch "/d").tagFor .metadata) := by
    constructor <;> decide
  have hdotted : Tag.Leads Tag.dotted ((Scope.mk noBranch "/d").tagFor .embeddings) := by
    constructor <;> decide
  have hone : ∀ a ∈ Tag.plain.map Tag.site,
      a = ((Scope.mk noBranch "/d").tagFor .metadata).site := by
    decide
  have halike : Tag.SpelledAlike Tag.plain Tag.dotted := by
    intro t u ht hu hsite
    have ht' := hone _ ht.site_mem
    rw [ht.eq_of_site_eq hplain ht', hu.eq_of_site_eq hdotted (hsite.symm.trans ht')]
    rfl
  obtain ⟨-, -, hkeys, -⟩ := respelled_keys_agree_iff hsites none []
  exact ⟨hsites, fun kind => (hkeys kind).mpr halike⟩

/-- Where the artifacts are exchanged, the other spelling leads, and nothing is found under it. -/
theorem respelled_not_found :
    (∀ a, a ∈ Tag.plain.map Tag.site ↔ a ∈ Tag.slashed.map Tag.site) ∧
      (Tag.boundTo .fullText (Tag.collect Tag.plain)).map Tag.key ≠
        (Tag.boundTo .fullText (Tag.collect Tag.slashed)).map Tag.key ∧
      ∃ st, Refreshes (Files.worded.host failing) .standard ["/d"] .empty st ∧
        (hitsOf ((search (Files.worded.host failing) "none" Ranking.keepScores ⟨2, 1⟩ st
          (.adding Tag.plain none "words".toList)).run ()).1).map Hit.path = ["/d/a.md"] ∧
        (hitsOf ((search (Files.worded.host failing) "none" Ranking.keepScores ⟨2, 1⟩ st
          (.adding Tag.slashed none "words".toList)).run ()).1).map Hit.path = [] := by
  have hsites : Tag.plain.map Tag.site = Tag.slashed.map Tag.site := by decide
  have hplain : ∀ kind, Tag.boundTo kind (Tag.collect Tag.plain) =
      Tag.boundTo kind [(Scope.mk noBranch "/d").tagFor .metadata] := by
    intro kind
    rw [Tag.bound_to_eq (Tag.ascending_collect _)]
    cases kind <;> decide +kernel
  have hslashed : ∀ kind, Tag.boundTo kind (Tag.collect Tag.slashed) =
      Tag.boundTo kind [(Scope.mk noBranch "/d/").tagFor .metadata] := by
    intro kind
    rw [Tag.bound_to_eq (Tag.ascending_collect _)]
    cases kind <;> decide +kernel
  have halone : ∀ {added tag}, (∀ kind, Tag.boundTo kind (Tag.collect added) =
      Tag.boundTo kind [tag]) → ∀ (h : Host Unit) st,
        search h "none" Ranking.keepScores ⟨2, 1⟩ st (.adding added none "words".toList) =
          search h "none" Ranking.keepScores ⟨2, 1⟩ st ⟨[tag], none, "words".toList⟩ := by
    intro added tag hbound h st
    have hquery : ∀ kind, (SearchQuery.adding added none "words".toList).tagsFor kind =
        SearchQuery.tagsFor ⟨[tag], none, "words".toList⟩ kind := hbound
    exact search_congr hquery rfl rfl h "none" Ranking.keepScores ⟨2, 1⟩ st
  simp only [hplain, hslashed, halone hplain, halone hslashed]
  refine ⟨fun a => by rw [hsites], ?_, exists_refreshes (w := ()) ?_⟩
  all_goals decide +kernel

end CodeIndex
