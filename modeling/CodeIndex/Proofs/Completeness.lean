import CodeIndex.Proofs.Retrieval
import CodeIndex.Proofs.Segments
import CodeIndex.Proofs.Transactions

namespace CodeIndex

/-- What a hit shows of a file. -/
structure Excerpt where
  path : Path
  content : Text
  firstLine : Nat
  lastLine : Nat
deriving DecidableEq

def Hit.excerpt (h : Hit) : Excerpt := ⟨h.path, h.content, h.firstLine, h.lastLine⟩

/-- One of the terms stands in the path or in the content. -/
def Excerpt.Answers (terms : List Text) (x : Excerpt) : Prop :=
  ∃ term ∈ terms, Text.Mentions x.path.toList term ∨ x.content.Mentions term

instance (terms : List Text) (x : Excerpt) : Decidable (x.Answers terms) :=
  inferInstanceAs (Decidable (∃ term ∈ terms, _ ∨ _))

/-- Filed under one of the tags and below the directory. -/
def Slot.InScope (tags : List Tag) (dir : Option Path) (slot : Slot) : Prop :=
  slot.tag ∈ tags.map Tag.key ∧ ∀ d ∈ dir, (Path.below d).toList <+: slot.path.toList

instance (tags : List Tag) (dir : Option Path) (slot : Slot) : Decidable (slot.InScope tags dir) :=
  inferInstanceAs (Decidable (_ ∧ ∀ d ∈ dir, _))

namespace Store

def excerpt? (st : Store) (e : Slot × Segment) : Option Excerpt :=
  (st.textAt? e.2.textId).map fun t => ⟨e.1.path, t.content, e.2.firstLine, e.2.lastLine⟩

/-- The segments in scope, with their texts. -/
def excerpts (st : Store) (tags : List Tag) (dir : Option Path) : List Excerpt :=
  (st.segments.filter fun e => e.1.InScope tags dir).filterMap st.excerpt?

end Store

namespace FullText

section
variable {st : Store} {tags : List Tag} {dir : Option Path}

theorem in_scope_iff {slot : Slot} :
    slot.InScope tags dir ↔ slot.tag ∈ tags.map Tag.key ∧ inDirectory dir slot.path := by
  rw [Slot.InScope, in_directory_iff]
  exact Iff.rfl

/-- The segment of a text is the one that points to it, if that is in scope. -/
theorem segment_of_text (hl : st.Linked) {e : Slot × Segment} (he : e ∈ st.segments) :
    segmentOf? st (tags.map Tag.key) dir e.2.textId =
      if e.1.InScope tags dir then some e else none := by
  rw [segmentOf?]
  split
  · rename_i hscope
    obtain ⟨hkey, hdir⟩ := in_scope_iff.mp hscope
    cases hfind : st.segments.find? _ with
    | none =>
      refine absurd ?_ (List.find?_eq_none.mp hfind e he)
      rw [← List.contains_iff_mem] at hkey
      simp only [hkey, hdir, Bool.and_true, decide_true]
    | some f =>
      have hwanted := List.find?_some hfind
      simp only [Bool.and_eq_true, decide_eq_true_eq] at hwanted
      rw [hl.same_slot (List.mem_of_find?_eq_some hfind) he hwanted.1.1]
  · rename_i hscope
    rw [List.find?_eq_none]
    intro f hf hwanted
    simp only [Bool.and_eq_true, decide_eq_true_eq, List.contains_iff_mem] at hwanted
    obtain ⟨⟨hid, hkey⟩, hdir⟩ := hwanted
    rw [hl.same_slot hf he hid] at hkey hdir
    exact hscope (in_scope_iff.mpr ⟨hkey, hdir⟩)

/-- One of the terms stands in the path or in the content of a text. -/
def found (terms : List Text) (t : StoredText) : Bool :=
  terms.any fun term => 0 < (Entry.ofText t).places term

theorem ranked_eq (terms : List Text) (texts : List StoredText) :
    ∃ score : StoredText → Float, ranked terms texts =
      (texts.filter (found terms)).map fun t => (t, score t) := by
  obtain ⟨average, weighted, hterms, hranked⟩ : ∃ average weighted,
      weighted.map Prod.fst = terms ∧ ranked terms texts =
        (texts.zip (texts.map Entry.ofText)).filterMap fun p =>
          if isMatch weighted p.2 then some (p.1, score average weighted p.2) else none :=
    ⟨_, _, by rw [List.map_map]; exact List.map_id' terms, rfl⟩
  have hzip : texts.zip (texts.map Entry.ofText) = texts.map fun t => (t, Entry.ofText t) := by
    simpa using List.zip_map' (f := id) (g := Entry.ofText) (l := texts)
  refine ⟨fun t => score average weighted (Entry.ofText t), ?_⟩
  rw [hranked, hzip, List.filterMap_map, ← List.filterMap_eq_map, List.filterMap_filter]
  apply List.filterMap_congr
  intro t _
  simp only [Function.comp_apply, isMatch, found, ← hterms, List.any_map]
  rfl

theorem found_iff {query : Text} {t : StoredText} (hquery : query.isAscii)
    (hpath : Text.isAscii t.path.toList) (hcontent : t.content.isAscii) :
    found ((Query.terms query).map Text.fold) t ↔ ∃ term ∈ Query.terms query,
      Text.Mentions t.path.toList term ∨ t.content.Mentions term := by
  simp only [found, List.any_map, List.any_eq_true, Function.comp_apply, decide_eq_true_eq]
  apply exists_congr
  intro term
  apply and_congr_right
  intro hterm
  have hascii := Query.ascii_of_term hquery hterm
  rw [← Text.occurrences_fold_iff hascii hpath, ← Text.occurrences_fold_iff hascii hcontent]
  simp only [Entry.places, Entry.ofText, pathWeight]
  omega

variable (tags dir) in
/-- All hits, before the best are taken. -/
theorem hits_excerpts (hl : st.Linked) {query : Text} (hquery : query.isAscii)
    (hascii : ∀ t ∈ st.texts, Text.isAscii t.path.toList ∧ t.content.isAscii) :
    ((ranked ((Query.terms query).map Text.fold) st.texts).filterMap fun (t, score) =>
        hit? st (tags.map Tag.key) dir t score).map (·.1.excerpt) =
      (st.excerpts tags dir).filter fun x => x.Answers (Query.terms query) := by
  obtain ⟨score, hranked⟩ := ranked_eq ((Query.terms query).map Text.fold) st.texts
  -- Both sides are read off the segments one by one.
  let shown : StoredText → Option Excerpt := fun t =>
    if found ((Query.terms query).map Text.fold) t then
      (segmentOf? st (tags.map Tag.key) dir t.id).map fun e =>
        ⟨e.1.path, t.content, e.2.firstLine, e.2.lastLine⟩
    else none
  have hshown : ∀ e ∈ st.segments, (st.textAt? e.2.textId).bind shown =
      if e.1.InScope tags dir then
        (st.excerpt? e).filter fun x => x.Answers (Query.terms query)
      else none := by
    intro e he
    obtain ⟨t, ht, hid⟩ := hl.has_text he
    have htext : st.textAt? e.2.textId = some t := hid ▸ hl.text_at ht
    obtain ⟨hpath, hcontent⟩ := hascii t ht
    have hfound : found ((Query.terms query).map Text.fold) t ↔
        Excerpt.Answers (Query.terms query) ⟨e.1.path, t.content, e.2.firstLine, e.2.lastLine⟩ := by
      rw [found_iff hquery hpath hcontent, hl.same_path ht he hid.symm]
      exact Iff.rfl
    simp only [Store.excerpt?, htext, Option.bind_some, Option.map_some, shown, hid,
      segment_of_text hl he]
    by_cases hscope : e.1.InScope tags dir
    · simp only [hscope, if_true, Option.map_some, Option.filter_some, hfound, decide_eq_true_eq]
    · simp [hscope]
  calc _ = st.texts.filterMap shown := by
        rw [hranked, List.filterMap_map, List.map_filterMap, List.filterMap_filter]
        apply List.filterMap_congr
        intro t _
        simp only [Function.comp_apply, hit?, Option.map_map, shown]
        rfl
    _ = (st.texts.map some).filterMap (·.bind shown) := by
        rw [List.filterMap_map]
        rfl
    _ = st.segments.filterMap fun e => (st.textAt? e.2.textId).bind shown := by
        rw [hl.texts_eq, List.filterMap_map]
        rfl
    _ = st.segments.filterMap fun e => if e.1.InScope tags dir then
          (st.excerpt? e).filter fun x => x.Answers (Query.terms query) else none :=
        List.filterMap_congr hshown
    _ = _ := by
        rw [Store.excerpts, List.filter_filterMap, List.filterMap_filter]
        simp only [decide_eq_true_eq]

variable (tags dir) in
theorem retrieve_excerpts (hl : st.Linked) {query : Text} {limit : Nat} (hquery : query.isAscii)
    (hascii : ∀ t ∈ st.texts, Text.isAscii t.path.toList ∧ t.content.isAscii)
    (hlimit : st.segments.length ≤ limit) (hbound : limit < limitBound) :
    ∃ hits, retrieve st tags dir query limit = .ok hits ∧ (hits.map Hit.excerpt).Perm
      ((st.excerpts tags dir).filter fun x => x.Answers (Query.terms query)) := by
  have hhits := hits_excerpts tags dir hl hquery hascii
  rw [retrieve]
  dsimp only
  split
  · -- Nothing is looked for, or nothing is stored.
    rename_i hnothing
    refine ⟨[], rfl, ?_⟩
    suffices hnone : (st.excerpts tags dir).filter (fun x => x.Answers (Query.terms query)) = [] by
      rw [hnone]
      exact .nil
    simp only [Bool.or_eq_true, List.isEmpty_iff, List.map_eq_nil_iff, decide_eq_true_eq]
      at hnothing
    rcases hnothing with (hterms | rfl) | rfl
    · simp [hterms, Excerpt.Answers]
    · simp [Store.excerpts, Slot.InScope]
    · simp [Store.excerpts, List.length_eq_zero_iff.mp (Nat.le_zero.mp hlimit)]
  · rw [if_neg (Nat.not_le.mpr hbound)]
    refine ⟨_, rfl, ?_⟩
    generalize hscored : List.filterMap _ _ = scored at hhits ⊢
    have hfew : scored.length ≤ limit := by
      calc scored.length = (scored.map (·.1.excerpt)).length := (List.length_map _).symm
        _ ≤ (st.excerpts tags dir).length := hhits ▸ List.length_filter_le ..
        _ ≤ st.segments.length :=
          (List.length_filterMap_le ..).trans (List.length_filter_le ..)
        _ ≤ limit := hlimit
    rw [List.take_of_length_le ((List.length_mergeSort scored).trans_le hfew), List.map_map,
      ← hhits]
    exact (List.mergeSort_perm ..).map _

end
end FullText

def Operation.IsAscii : Operation → Prop
  | .update _ _ _ e _ _ => Text.isAscii e.path.toList ∧ ∀ content ∈ e.content, content.isAscii
  | _ => True

def Shelf.IsAscii (shelf : Shelf) : Prop :=
  ∀ slot x, shelf slot = some x → Text.isAscii slot.path.toList ∧ x.content.isAscii

theorem Shelf.IsAscii.set {shelf : Shelf} (h : shelf.IsAscii) {slot : Slot} {x : Option Indexed}
    (hx : ∀ y ∈ x, Text.isAscii slot.path.toList ∧ y.content.isAscii) :
    (shelf.set slot x).IsAscii := by
  intro other y hy
  rw [Shelf.set] at hy
  split at hy
  · rename_i hother
    rw [hother]
    exact hx y hy
  · exact h other y hy

theorem Shelf.IsAscii.update {shelf : Shelf} (h : shelf.IsAscii) (s : Settings) {slot : Slot}
    {e : FileEntry} (change : Change) (hpath : Text.isAscii slot.path.toList)
    (hcontent : ∀ content ∈ e.content, content.isAscii) :
    (shelf.update s slot e change).IsAscii := by
  have hindexed : ∀ content, e.content = some content →
      (shelf.set slot (some ⟨s.segmentLines, content⟩)).IsAscii := by
    intro content hc
    apply h.set
    intro y hy
    cases hy
    exact ⟨hpath, hcontent content hc⟩
  unfold Shelf.update
  split
  · exact h.set (by simp)
  · rename_i hc
    exact hindexed _ hc
  · rename_i hc
    exact hindexed _ hc
  · exact h

theorem Shelf.IsAscii.clear {shelf : Shelf} (h : shelf.IsAscii) (key : String) :
    (shelf.clear key).IsAscii := by
  intro slot x hx
  rw [Shelf.clear] at hx
  split at hx
  · cases hx
  · exact h slot x hx

theorem Shelves.after_ascii {x : Shelves} {op : Operation} (hop : op.IsAscii)
    (hsaved : x.saved.IsAscii) (hcurrent : x.current.IsAscii) :
    (x.after op).saved.IsAscii ∧ (x.after op).current.IsAscii := by
  cases op with
  | update s kind tag e change embedded =>
    cases kind with
    | fullText => exact ⟨hsaved, hcurrent.update s change hop.1 hop.2⟩
    | metadata | chunk | embeddings => exact ⟨hsaved, hcurrent⟩
  | clear kind tag =>
    cases kind with
    | fullText => exact ⟨hsaved, hcurrent.clear tag.key⟩
    | metadata | chunk | embeddings => exact ⟨hsaved, hcurrent⟩
  | commit | forget => exact ⟨hsaved, hcurrent⟩
  | save => exact ⟨hcurrent, hcurrent⟩
  | rollback => exact ⟨hsaved, hsaved⟩

theorem shelves_ascii {ops : List Operation} (hops : ∀ op ∈ ops, op.IsAscii) :
    (shelves ops).saved.IsAscii ∧ (shelves ops).current.IsAscii := by
  induction ops using List.reverseRecOn with
  | nil =>
    have hempty : Shelf.IsAscii fun _ => none := by simp [Shelf.IsAscii]
    exact ⟨hempty, hempty⟩
  | append_singleton ops op ih =>
    obtain ⟨hsaved, hcurrent⟩ := ih fun o ho => hops o (List.mem_append_left _ ho)
    rw [shelves, List.foldl_append]
    exact Shelves.after_ascii (hops op (by simp)) hsaved hcurrent

namespace Store.Mirrors

variable {st : Store} {shelf : Shelf}

/-- A stored text is a window of a file. -/
theorem text_ascii (h : st.Mirrors shelf) (hshelf : shelf.IsAscii) {t : StoredText}
    (ht : t ∈ st.texts) : Text.isAscii t.path.toList ∧ t.content.isAscii := by
  obtain ⟨e, he, hid⟩ := h.linked.has_segment ht
  have hrow : st.fullTextRow e.2 ∈ shelf.rows e.1 := by
    rw [← h.rows]
    exact List.mem_map_of_mem (List.mem_map.mpr ⟨e, List.mem_filter.mpr ⟨he, by simp⟩, rfl⟩)
  obtain ⟨w, hw, hwindow⟩ := List.mem_map.mp hrow
  cases hx : shelf e.1 with
  | none => simp [hx] at hw
  | some x =>
    rw [hx] at hw
    obtain ⟨hpath, hcontent⟩ := hshelf e.1 x hx
    have htext := congrArg FullTextRow.text hwindow
    simp only [fullTextRow, hid, h.linked.text_at ht, FullTextRow.ofWindow, Option.map_some,
      Option.some.injEq, Prod.mk.injEq] at htext
    rw [h.linked.same_path ht he hid, ← htext.2]
    exact ⟨hpath, Window.ascii_of_content hcontent hw⟩

/-- A window of a file in scope is among the excerpts. -/
theorem window_excerpt (h : st.Mirrors shelf) {tags : List Tag} {dir : Option Path} {slot : Slot}
    (hscope : slot.InScope tags dir) {x : Indexed} (hx : shelf slot = some x) {w : Window}
    (hw : w ∈ x.windows) :
    ⟨slot.path, w.content, w.firstLine, w.lastLine⟩ ∈ st.excerpts tags dir := by
  have hrow : .ofWindow slot.path w ∈ st.fullTextRows slot := by
    rw [h.rows, Shelf.rows, hx]
    exact List.mem_map_of_mem hw
  obtain ⟨r, hr, hwindow⟩ := List.mem_map.mp hrow
  obtain ⟨e, he, rfl⟩ := List.mem_map.mp hr
  obtain ⟨hstored, hslot⟩ := List.mem_filter.mp he
  obtain rfl := of_decide_eq_true hslot
  refine List.mem_filterMap.mpr ⟨e, List.mem_filter.mpr ⟨hstored, decide_eq_true hscope⟩, ?_⟩
  obtain ⟨t, ht, hid⟩ := h.linked.has_text hstored
  simp only [fullTextRow, ← hid, h.linked.text_at ht, FullTextRow.ofWindow, Option.map_some,
    FullTextRow.mk.injEq, Option.some.injEq, Prod.mk.injEq] at hwindow
  obtain ⟨-, hfirst, hlast, -, hcontent⟩ := hwindow
  rw [excerpt?, ← hid, h.linked.text_at ht, Option.map_some, hfirst, hlast, hcontent]

end Store.Mirrors

namespace Database

/-- Where all files and the query are ASCII, a search with a limit that is not too low returns the
segments in scope whose path or content mentions a term, each once; and around every line with a
term in a file in scope there is a hit. -/
theorem search_misses_nothing {ops : List Operation} {d : Database} (h : Runs ops d)
    (hascii : ∀ op ∈ ops, op.IsAscii) (tags : List Tag) (dir : Option Path) (query : Text)
    (hquery : query.isAscii) (limit : Nat) (hlimit : d.saved.segments.length ≤ limit)
    (hbound : limit < FullText.limitBound) :
    ∃ hits, FullText.retrieve d.saved tags dir query limit = .ok hits ∧
      (hits.map Hit.excerpt).Perm
        ((d.saved.excerpts tags dir).filter fun x => x.Answers (Query.terms query)) ∧
      ∀ slot x n line, slot.InScope tags dir → (shelves ops).saved slot = some x →
        x.content.lines[n]? = some line → (∃ term ∈ Query.terms query, Text.Mentions line term) →
        ∃ hit ∈ hits, hit.path = slot.path ∧ hit.firstLine ≤ n + 1 ∧ n + 1 ≤ hit.lastLine ∧
          line <:+: hit.content := by
  have hmirrors := h.mirrors.1
  have hshelf := (shelves_ascii hascii).1
  obtain ⟨hits, hretrieve, hperm⟩ := FullText.retrieve_excerpts tags dir
    hmirrors.linked hquery (fun t ht => hmirrors.text_ascii hshelf ht) hlimit hbound
  refine ⟨hits, hretrieve, hperm, ?_⟩
  intro slot x n line hscope hx hline hterm
  obtain ⟨term, hterm, hmentions⟩ := hterm
  obtain ⟨w, hfirst, hlast, hinside, hshown⟩ := Window.exists_of_line x.lines hline
  have hline : Text.isAscii line := Text.isAscii_of_subset (hshelf slot x hx).2
    (Text.subset_of_lines (List.mem_of_getElem? hline))
  -- The window is not a blank one, for the line is not blank.
  have hshown : w ∈ x.windows := by
    apply hshown
    intro hblank
    refine Query.not_blank_of_mentions hquery hterm hline hmentions (List.all_eq_true.mpr ?_)
    exact fun c hc => List.all_eq_true.mp hblank c (hinside.subset hc)
  have hexcerpt := hperm.mem_iff.mpr (List.mem_filter.mpr
    ⟨hmirrors.window_excerpt hscope hx hshown, decide_eq_true
      ⟨term, hterm, Or.inr (hmentions.of_infix hinside)⟩⟩)
  obtain ⟨hit, hhit, heq⟩ := List.mem_map.mp hexcerpt
  simp only [Hit.excerpt, Excerpt.mk.injEq] at heq
  obtain ⟨hpath, hcontent, hfirst', hlast'⟩ := heq
  exact ⟨hit, hhit, hpath, hfirst' ▸ hfirst, hlast' ▸ hlast, hcontent ▸ hinside⟩

/-- Three lines, the second one blank. -/
def spaced : FileEntry := .ofBytes "/d/a.md" (Utf8.encode "one word\n\nOther words\n".toList)

/-- One line to a window. -/
def lineByLine : Settings := { Settings.standard with segmentLines := 1 }

theorem search_misses_nothing_spaced : ∃ ops d hits, Runs ops d ∧ (∀ op ∈ ops, op.IsAscii) ∧
    d.saved.segments.length = 2 ∧
    FullText.retrieve d.saved [⟨"main", "/d", "fts"⟩] (some "/d") "OTHER".toList 2 = .ok hits ∧
    hits.map Hit.excerpt = [⟨"/d/a.md", "Other words".toList, 3, 3⟩] ∧
    ∃ hit ∈ hits, hit.path = "/d/a.md" ∧ hit.firstLine ≤ 3 ∧ 3 ≤ hit.lastLine := by
  have hupdate : Store.empty.Updates lineByLine .fullText ⟨"main", "/d", "fts"⟩ spaced .added []
    _ := Store.update_updates rfl
  have hruns := (Runs.start.next (.update hupdate)).next .save
  have hascii : ∀ op ∈ [] ++ [Operation.update lineByLine .fullText ⟨"main", "/d", "fts"⟩ spaced
      .added []] ++ [.save], op.IsAscii := by
    simp only [List.nil_append, List.cons_append, List.forall_mem_cons, Operation.IsAscii,
      List.not_mem_nil, false_implies, implies_true, and_true]
    exact ⟨by decide +kernel, fun _ hc => by cases hc; decide +kernel⟩
  obtain ⟨hits, hretrieve, hperm, hlines⟩ := search_misses_nothing hruns hascii
    [⟨"main", "/d", "fts"⟩] (some "/d") "OTHER".toList (by decide) 2 (by decide +kernel) (by decide)
  have hone : hits.map Hit.excerpt = [⟨"/d/a.md", "Other words".toList, 3, 3⟩] := by
    refine List.perm_singleton.mp (hperm.trans (List.Perm.of_eq ?_))
    decide +kernel
  obtain ⟨hit, hhit, hpath, hfirst, hlast, -⟩ := hlines ⟨"/d::main::fts", "/d/a.md"⟩
    ⟨1, "one word\n\nOther words\n".toList⟩ 2 "Other words".toList (by decide +kernel)
    (by decide +kernel) (by decide +kernel) ⟨"other".toList, by decide +kernel⟩
  exact ⟨_, _, hits, hruns, hascii, by decide +kernel, hretrieve, hone, hit, hhit, hpath, hfirst,
    hlast⟩

end Database
end CodeIndex
