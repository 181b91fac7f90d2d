import CodeIndex.Chunk.File
import CodeIndex.Proofs.Mending
import CodeIndex.Proofs.Passages

namespace CodeIndex

theorem Text.lt_length_of_ink {t : Text} {i : Nat} (h : t.isInk i) : i < t.length := by
  by_contra hge
  simp [isInk, List.getElem?_eq_none (Nat.le_of_not_lt hge)] at h

/-- What is true of all members of a list is true in each of its parts. -/
theorem forall₂_with_members {R : α → List β → Prop} {Q : β → Prop} {as : List α}
    {parts : List (List β)} (h : List.Forall₂ R as parts) (hall : ∀ b ∈ parts.flatten, Q b) :
    List.Forall₂ (fun a part => R a part ∧ ∀ b ∈ part, Q b) as parts := by
  have hparts : ∀ part ∈ parts, ∀ b ∈ part, Q b := fun _ hpart b hb =>
    hall b (List.mem_flatten_of_mem hpart hb)
  have hboth := (List.forall₂_and_left _ _).mpr ⟨hparts, h.flip⟩
  exact hboth.flip.imp fun _ _ hr => And.symm hr

/-- A position inside a node. -/
def Node.Covers (source : Text) (n : Node) (i : Nat) : Prop :=
  n.range.start ≤ source.offsetAt i ∧ source.offsetAt i < n.range.stop

instance (source : Text) (n : Node) (i : Nat) : Decidable (n.Covers source i) :=
  inferInstanceAs (Decidable (_ ∧ _))

/-- The positions a passage holds. -/
def Passage.places (source : Text) (p : Passage) : List Nat :=
  source.inked (source.position p.range.start) (source.position p.range.stop)

/-- A passage of a tree: its nodes stand in the source, below nodes that enclose them. -/
structure Passage.Stands (source : Text) (root : Node) (p : Passage) : Prop where
  some_node : p.nodes ≠ []
  nodes : ∀ n ∈ p.nodes, n.Stands source
  ordered : p.range.start ≤ p.range.stop
  path : Leads root.children p.path
  inside : ∀ n ∈ p.path, n.range.start ≤ p.range.start ∧ p.range.stop ≤ n.range.stop

/-- Passages that a tree is cut into, one after another. -/
structure Passages (source : Text) (limits : Limits) (root : Node) (ps : List Passage) : Prop where
  groups : ∀ p ∈ ps, p.group source ∈ Group.ofTree source limits root
  stand : ∀ p ∈ ps, p.Stands source root
  ordered : ByteRange.InOrder root.range.start (ps.map Passage.range) root.range.stop
  apart : ps.Pairwise fun p q =>
    (∃ n ∈ p.path, n.range.stop ≤ q.range.start) ∨ p.path <+: q.path

/-- A chunk made of passages: it holds what they hold, from the line of the first one to the line of
the last one, and has the scope of the first one. A chunk that is too large is made of one. -/
structure Chunk.Joins (source : Text) (limits : Limits) (c : Chunk) (ps : List Passage) : Prop where
  scope : ∃ p rest, ps = p :: rest ∧ c.scope = scopeOf source p.path
  ink : c.code.ink.map some = (ps.flatMap (Passage.places source)).map (source[·]?)
  firstLine : c.firstLine =
    source.lineAt (source.position (ByteRange.span (ps.map Passage.range)).start)
  lastLine : c.lastLine =
    source.lineAt (source.position (ByteRange.span (ps.map Passage.range)).stop)
  filled : ∀ p ∈ ps, p.places source ≠ []
  whole : limits.max < c.size → ∃ p, ps = [p] ∧
    c.code = source.between (source.position p.range.start) (source.position p.range.stop)

/-- Where a chunk comes from: it is a window by lines, a piece cut from a passage, or made of a
passage and others that were joined to it. -/
inductive Origin where
  | window (places : List Nat)
  | piece (p : Passage) (places : List Nat)
  | joined (p : Passage) (rest : List Passage)

namespace Origin

def passages : Origin → List Passage
  | window _ => []
  | piece p _ => [p]
  | joined p rest => p :: rest

/-- The nodes that were opened to reach the first passage. -/
def path : Origin → List Node
  | window _ => []
  | piece p _ | joined p _ => p.path

/-- The passages that were joined to the first one. -/
def others : Origin → List Passage
  | window _ | piece _ _ => []
  | joined _ rest => rest

/-- The positions that the chunk holds. -/
def places (source : Text) : Origin → List Nat
  | window places | piece _ places => places
  | joined p rest => (p :: rest).flatMap (Passage.places source)

/-- The nodes of the path enclose all that the chunk holds. -/
def Truthful (source : Text) (o : Origin) : Prop :=
  ∀ n ∈ o.path, ∀ i ∈ o.places source, n.Covers source i

end Origin

/-- A chunk of a tree comes from there: from passages that the tree is cut into, and with the scope
of the first one. -/
structure Chunk.ComesFrom (source : Text) (limits : Limits) (root : Node) (c : Chunk)
    (o : Origin) : Prop where
  holds : c.Holds source (o.places source)
  scope : c.scope = scopeOf source o.path
  groups : ∀ p ∈ o.passages, p.group source ∈ Group.ofTree source limits root
  leads : ∀ p ∈ o.passages, Leads root.children p.path
  inside : ∀ p places, o = .piece p places → ∀ i ∈ places, i ∈ p.places source

section
variable {source : Text} {limits : Limits} {root : Node}

theorem Passage.Stands.ends {p : Passage} (h : p.Stands source root) :
    ∃ first last, p.nodes.head? = some first ∧ p.nodes.getLast? = some last ∧
      p.range = ⟨first.range.start, last.range.stop⟩ ∧
      first.Stands source ∧ last.Stands source := by
  have hhead := List.head?_eq_some_head h.some_node
  have hlast := List.getLast?_eq_some_getLast h.some_node
  refine ⟨_, _, hhead, hlast, ?_, h.nodes _ (List.head_mem _), h.nodes _ (List.getLast_mem _)⟩
  simp [range, ByteRange.span, hhead, hlast]

theorem Passage.Stands.mem_places {p : Passage} (h : p.Stands source root) {i : Nat} :
    i ∈ p.places source ↔
      (p.range.start ≤ source.offsetAt i ∧ source.offsetAt i < p.range.stop) ∧ source.isInk i := by
  obtain ⟨first, last, -, -, hrange, hfirst, hlast⟩ := h.ends
  rw [places, Text.mem_inked, hrange]
  refine and_congr_left fun hink => ?_
  have hi := Text.lt_length_of_ink hink
  rw [hfirst.start.position_le_iff hi, ← Nat.not_le, hlast.stop.position_le_iff hi, Nat.not_le]

theorem Passage.Stands.covered {p : Passage} (h : p.Stands source root) {n : Node}
    (hn : n ∈ p.path) {i : Nat} (hi : i ∈ p.places source) : n.Covers source i := by
  obtain ⟨hstart, hstop⟩ := h.inside n hn
  obtain ⟨⟨hlow, hhigh⟩, -⟩ := h.mem_places.mp hi
  exact ⟨Nat.le_trans hstart hlow, Nat.lt_of_lt_of_le hhigh hstop⟩

/-- A passage makes a chunk, unless it holds nothing. -/
theorem Passage.Stands.chunk {p : Passage} (h : p.Stands source root) (imports : Text) :
    (∃ c, (p.group source).chunk? source imports = some c ∧ c.Joins source limits [p]) ∨
      ((p.group source).chunk? source imports = none ∧ p.places source = []) := by
  obtain ⟨first, last, hhead, hend, hrange, hfirst, hlast⟩ := h.ends
  have hordered := h.ordered
  rw [hrange] at hordered
  have hcode := hfirst.start.slice_eq hordered
  have hink := Text.ink_between (a := source.position first.range.start)
    (source.position_le last.range.stop)
  have hplaces : p.places source = source.inked (source.position first.range.start)
      (source.position last.range.stop) := by
    rw [places, hrange]
  simp only [Group.chunk?, group, hhead, hend, hcode]
  split
  · rename_i hsize
    refine Or.inr ⟨rfl, ?_⟩
    rw [Text.size_eq_length_ink] at hsize
    rw [List.length_eq_zero_iff.mp hsize] at hink
    rw [hplaces]
    exact List.map_eq_nil_iff.mp hink.symm
  · rename_i hsize
    refine Or.inl ⟨_, rfl, ⟨p, [], rfl, rfl⟩, ?_, ?_, ?_, ?_, fun _ => ⟨p, rfl, ?_⟩⟩
    · simpa [hplaces] using hink
    · simp [ByteRange.span_singleton, hrange, hfirst.firstRow]
    · simp [ByteRange.span_singleton, hrange, hlast.lastRow]
    · intro q hq hnil
      rw [List.mem_singleton.mp hq, hplaces] at hnil
      rw [hnil, List.map_nil, List.map_eq_nil_iff] at hink
      exact hsize (by rw [Text.size_eq_length_ink, hink]; rfl)
    · rw [hrange]

theorem Passages.sublist {ps qs : List Passage} (h : Passages source limits root qs)
    (hsub : ps.Sublist qs) : Passages source limits root ps :=
  ⟨fun p hp => h.groups p (hsub.subset hp), fun p hp => h.stand p (hsub.subset hp),
    h.ordered.sublist (hsub.map _), h.apart.sublist hsub⟩

/-- The chunks of passages, of which those that hold nothing are left out. -/
theorem cuts_join (limits : Limits) {ps : List Passage} (hps : ∀ p ∈ ps, p.Stands source root)
    (imports : Text) :
    ∃ kept : List Passage, kept.Sublist ps ∧
      List.Forall₂ (Chunk.Joins source limits)
        ((ps.map (Passage.group source)).filterMap (·.chunk? source imports)) (kept.map ([·])) ∧
      kept.flatMap (Passage.places source) = ps.flatMap (Passage.places source) := by
  induction ps with
  | nil => exact ⟨[], .slnil, .nil, rfl⟩
  | cons p ps ih =>
    rw [List.forall_mem_cons] at hps
    obtain ⟨kept, hsub, hkept, hplaces⟩ := ih hps.2
    rw [List.map_cons, List.filterMap_cons, List.flatMap_cons, ← hplaces]
    rcases hps.1.chunk imports with ⟨c, hc, hjoins⟩ | ⟨hnone, hnil⟩
    · rw [hc]
      exact ⟨p :: kept, hsub.cons_cons p, .cons hjoins hkept, rfl⟩
    · rw [hnone, hnil]
      exact ⟨kept, hsub.cons p, hkept, rfl⟩

/-- Joined chunks are made of the passages of both. -/
theorem Chunk.Joins.join {a b : Chunk} {ps qs : List Passage} (ha : a.Joins source limits ps)
    (hb : b.Joins source limits qs) (hfits : a.size + b.size ≤ limits.max) :
    (Chunk.join a b).Joins source limits (ps ++ qs) := by
  obtain ⟨p, rest, rfl, hscope⟩ := ha.scope
  obtain ⟨q, others, rfl, -⟩ := hb.scope
  have hspan : ByteRange.span ((p :: rest ++ q :: others).map Passage.range) =
      ⟨(ByteRange.span ((p :: rest).map Passage.range)).start,
        (ByteRange.span ((q :: others).map Passage.range)).stop⟩ := by
    rw [List.map_append]
    exact ByteRange.span_append (by simp) (by simp)
  refine ⟨⟨p, _, rfl, hscope⟩, ?_, ?_, ?_, ?_, fun hlarge => ?_⟩
  · rw [ink_join, List.flatMap_append, List.map_append, List.map_append, ha.ink, hb.ink]
  · rw [hspan]
    exact ha.firstLine
  · rw [hspan]
    exact hb.lastLine
  · exact List.forall_mem_append.mpr ⟨ha.filled, hb.filled⟩
  · rw [size_join] at hlarge
    omega

/-- The small chunks of passages that are joined are made of them, but for those that hold
nothing. -/
theorem merged_join {ps : List Passage} (hps : ∀ p ∈ ps, p.Stands source root)
    (hle : limits.target ≤ limits.max) (imports : Text) :
    ∃ joined, List.Forall₂ (Chunk.Joins source limits) (Chunk.mergeSmall limits
        ((ps.map (Passage.group source)).filterMap (·.chunk? source imports))) joined ∧
      joined.flatten.Sublist ps ∧
      joined.flatten.flatMap (Passage.places source) = ps.flatMap (Passage.places source) := by
  obtain ⟨kept, hsub, hcuts, hplaces⟩ := cuts_join limits hps imports
  obtain ⟨joined, hjoined, hflat⟩ := Chunk.merge_small_from limits
    (fun ha hb hfits => ha.join hb (Nat.le_trans hfits hle)) hcuts
  have hkept : joined.flatten = kept := by
    rw [hflat, ← List.flatMap_def, List.flatMap_singleton']
  exact ⟨joined, hjoined, hkept ▸ hsub, hkept ▸ hplaces⟩

/-- A chunk made of passages in order holds their positions on its lines. -/
theorem Chunk.Joins.holds {c : Chunk} {ps : List Passage} (h : c.Joins source limits ps)
    (hps : Passages source limits root ps) :
    c.Holds source (ps.flatMap (Passage.places source)) := by
  refine ⟨h.ink, fun i hi => ?_⟩
  obtain ⟨p, hp, hi⟩ := List.mem_flatMap.mp hi
  obtain ⟨⟨hlow, hhigh⟩, -⟩ := Text.mem_inked.mp hi
  have hordered := hps.ordered
  rw [← List.append_nil (ps.map _)] at hordered
  obtain ⟨hstart, hstop⟩ := hordered.mem_span (List.mem_map_of_mem hp)
  rw [h.firstLine, h.lastLine]
  exact ⟨source.lineAt_mono (Nat.le_trans (source.position_mono hstart) hlow),
    source.lineAt_mono (Nat.le_trans (Nat.le_of_lt hhigh) (source.position_mono hstop))⟩

/-- What a part of a source holds, the source holds where the part begins. -/
theorem Chunk.Holds.shift {whole piece : Chunk} {places : List Nat} {a b : Nat}
    (hline : whole.firstLine = source.lineAt a) (h : piece.Holds (source.between a b) places)
    (hplaces : ∀ i ∈ places, i < b - a) :
    (asPieceOf whole piece).Holds source (places.map (a + ·)) := by
  refine ⟨?_, List.forall_mem_map.mpr fun i hi => ?_⟩
  · rw [List.map_map]
    refine h.ink.trans (List.map_congr_left fun i hi => ?_)
    exact Text.getElem?_between (hplaces i hi)
  · obtain ⟨hlow, hhigh⟩ := h.lines i hi
    rw [Text.lineAt_between (Nat.le_of_lt (hplaces i hi)), ← hline]
    exact ⟨Nat.add_le_add_right hlow _, Nat.add_le_add_right hhigh _⟩

/-- The pieces of a chunk that is cut from one passage hold what the passage holds. -/
theorem pieces_hold (limits : Limits) {c : Chunk} {a b : Nat} (hb : b ≤ source.length)
    (hline : c.firstLine = source.lineAt a) (hcode : c.code = source.between a b) :
    ∃ places, List.Forall₂ (Chunk.Holds source)
        ((chunkLines limits c.code).map c.asPieceOf) places ∧
      places.flatten = source.inked a b := by
  obtain ⟨places, hholds, hflat⟩ := chunk_lines_hold limits c.code
  rw [hcode, Text.length_between hb] at hflat
  have hbound : ∀ i ∈ places.flatten, i < b - a := by
    intro i hi
    exact (Text.mem_inked.mp (hflat ▸ hi)).1.2
  refine ⟨places.map (List.map (a + ·)), ?_, ?_⟩
  · rw [List.forall₂_map_left_iff, List.forall₂_map_right_iff]
    refine (forall₂_with_members hholds hbound).imp fun d is h => ?_
    exact Chunk.Holds.shift hline (hcode ▸ h.1) h.2
  · rw [← List.map_flatten, hflat, Text.inked_between]

/-- The scope of joined passages is true of all of them exactly if each one lies below the nodes
that were opened to reach the first. -/
theorem joined_truthful_iff {p : Passage} {rest : List Passage}
    (hps : Passages source limits root (p :: rest)) (hfilled : ∀ q ∈ rest, q.places source ≠ []) :
    (Origin.joined p rest).Truthful source ↔ ∀ q ∈ rest, p.path <+: q.path := by
  have hstand := List.forall_mem_cons.mp hps.stand
  constructor
  · -- A node of the path that ends before `q` cannot enclose what `q` holds.
    intro htrue q hq
    rcases (List.pairwise_cons.mp hps.apart).1 q hq with ⟨n, hn, hleft⟩ | hbelow
    · obtain ⟨i, hi⟩ := List.exists_mem_of_ne_nil _ (hfilled q hq)
      have hcovers := htrue n hn i
        (List.mem_flatMap.mpr ⟨q, List.mem_cons_of_mem _ hq, hi⟩)
      have hbeyond := ((hstand.2 q hq).mem_places.mp hi).1.1
      exact absurd (Nat.lt_of_lt_of_le hcovers.2 hleft) (Nat.not_lt.mpr hbeyond)
    · exact hbelow
  · intro hbelow n hn i hi
    obtain ⟨q, hq, hi⟩ := List.mem_flatMap.mp hi
    rcases List.mem_cons.mp hq with heq | hq
    · rw [heq] at hi
      exact hstand.1.covered hn hi
    · exact (hstand.2 q hq).covered ((hbelow q hq).subset hn) hi

/-- A chunk comes from there, and its scope is true exactly if all of its passages lie below the
nodes that the scope names. -/
def Traced (source : Text) (limits : Limits) (root : Node) (c : Chunk) (o : Origin) : Prop :=
  c.ComesFrom source limits root o ∧ (o.Truthful source ↔ ∀ q ∈ o.others, o.path <+: q.path)

theorem window_traced {c : Chunk} {places : List Nat} (hholds : c.Holds source places)
    (hscope : c.scope = []) : Traced source limits root c (.window places) := by
  refine ⟨⟨hholds, hscope, ?_, ?_, ?_⟩, ?_⟩
  all_goals simp [Origin.passages, Origin.Truthful, Origin.path, Origin.others]

theorem piece_traced {p : Passage} (hp : Passages source limits root [p]) {c : Chunk}
    {places : List Nat} (hholds : c.Holds source places) (hscope : c.scope = scopeOf source p.path)
    (hplaces : ∀ i ∈ places, i ∈ p.places source) :
    Traced source limits root c (.piece p places) := by
  have hstand := hp.stand p List.mem_cons_self
  refine ⟨⟨hholds, hscope, hp.groups, fun q hq => (hp.stand q hq).path, ?_⟩, ?_⟩
  · rintro _ _ ⟨⟩
    exact hplaces
  · exact iff_of_true (fun n hn i hi => hstand.covered hn (hplaces i hi)) (by simp [Origin.others])

theorem Chunk.Joins.traced {c : Chunk} {p : Passage} {rest : List Passage}
    (h : c.Joins source limits (p :: rest)) (hps : Passages source limits root (p :: rest)) :
    Traced source limits root c (.joined p rest) := by
  obtain ⟨_, _, heq, hscope⟩ := h.scope
  cases heq
  exact ⟨⟨h.holds hps, hscope, hps.groups, fun q hq => (hps.stand q hq).path, by simp⟩,
    joined_truthful_iff hps (List.forall_mem_cons.mp h.filled).2⟩

/-- A chunk made of passages comes from them, also if it is cut. -/
theorem Chunk.Joins.split {c : Chunk} {ps : List Passage} (h : c.Joins source limits ps)
    (hps : Passages source limits root ps) :
    ∃ origins, List.Forall₂ (Traced source limits root) (splitOversized limits [c]) origins ∧
      origins.flatMap (Origin.places source) = ps.flatMap (Passage.places source) := by
  obtain ⟨p, rest, rfl, hscope⟩ := h.scope
  rw [splitOversized, List.flatMap_singleton]
  split
  · exact ⟨[_], .cons (h.traced hps) .nil, List.flatMap_singleton _ _⟩
  · rename_i hlarge
    obtain ⟨_, heq, hcode⟩ := h.whole (Nat.lt_of_not_le hlarge)
    cases heq
    obtain ⟨places, hholds, hflat⟩ :=
      pieces_hold limits (source.position_le p.range.stop) h.firstLine hcode
    have hplaces : places.flatten = p.places source := hflat
    have hpieces := forall₂_with_members (List.forall₂_map_left_iff.mp hholds)
      fun i hi => hplaces ▸ hi
    refine ⟨places.map (Origin.piece p), ?_, ?_⟩
    · rw [List.forall₂_map_left_iff, List.forall₂_map_right_iff]
      refine hpieces.imp fun d is hd => ?_
      exact piece_traced hps hd.1 hscope hd.2
    · rw [List.flatMap_map, List.flatMap_singleton, ← hplaces]
      exact List.flatMap_id'

theorem split_traced {cs : List Chunk} {joined : List (List Passage)}
    (h : List.Forall₂ (Chunk.Joins source limits) cs joined)
    (hps : Passages source limits root joined.flatten) :
    ∃ origins, List.Forall₂ (Traced source limits root) (Chunk.splitOversized limits cs) origins ∧
      origins.flatMap (Origin.places source) = joined.flatten.flatMap (Passage.places source) := by
  induction h with
  | nil => exact ⟨[], .nil, rfl⟩
  | @cons c ps cs joined hc _ ih =>
    rw [List.flatten_cons] at hps ⊢
    obtain ⟨first, hfirst, hplaces⟩ := hc.split (hps.sublist (List.sublist_append_left _ _))
    obtain ⟨rest, hrest, hothers⟩ := ih (hps.sublist (List.sublist_append_right _ _))
    refine ⟨first ++ rest, ?_, by rw [List.flatMap_append, List.flatMap_append, hplaces, hothers]⟩
    have : Chunk.splitOversized limits (c :: cs) =
        Chunk.splitOversized limits [c] ++ Chunk.splitOversized limits cs := by
      simp [Chunk.splitOversized]
    rw [this]
    exact List.rel_append hfirst hrest

/-- The groups of a tree are passages of it; if there are any, every leaf lies inside one. -/
theorem tree_passages (limits : Limits) (hroot : root.Within source) :
    ∃ ps, Group.ofTree source limits root = ps.map (Passage.group source) ∧
      Passages source limits root ps ∧
      (ps ≠ [] → ∀ m ∈ root.family, m.children = [] →
        ∃ p ∈ ps, p.range.start ≤ m.range.start ∧ m.range.stop ≤ p.range.stop) := by
  obtain ⟨ps, hgathers, hgroups⟩ : ∃ ps, Gathers source limits [] root.children ps ∧
      Group.ofTree source limits root = ps.map (Passage.group source) :=
    gather_gathers [] [] (by simp) 0 root.children
  have haligned := hroot.aligned
  have hordered := hgathers.in_order haligned
  refine ⟨ps, hgroups, ⟨fun p hp => ?_, fun p hp => ?_, hordered,
    hgathers.left_or_under haligned⟩, ?_⟩
  · rw [hgroups]
    exact List.mem_map_of_mem hp
  · obtain ⟨hnodes, hwithin⟩ := hgathers.nodes_within haligned.within p hp
    obtain ⟨opened, hpath, hleads, hinside⟩ := hgathers.under_path haligned p hp
    rw [List.nil_append] at hpath
    exact ⟨hnodes, fun n hn => (hwithin n hn).self, (hordered.mem (List.mem_map_of_mem hp)).2.1,
      hpath ▸ hleads, hpath ▸ hinside⟩
  · intro hsome m hm hleaf
    rcases Node.mem_family.mp hm with rfl | ⟨n, hn, hm⟩
    · rw [Group.ofTree, hleaf] at hgroups
      simp [Group.gather, Group.ofBatch] at hgroups
      exact absurd hgroups hsome
    · exact hgathers.covers_leaf haligned hn hm hleaf

/-- Passages one after another hold ascending positions. -/
theorem places_ascend {low high : Nat} {ps : List Passage}
    (h : ByteRange.InOrder low (ps.map Passage.range) high) :
    (ps.flatMap (Passage.places source)).Pairwise (· < ·) ∧
      ∀ i ∈ ps.flatMap (Passage.places source), source.position low ≤ i := by
  induction ps generalizing low with
  | nil => exact ⟨.nil, by simp⟩
  | cons p ps ih =>
    obtain ⟨hascends, hbeyond⟩ := ih h.2.2
    rw [List.flatMap_cons, List.forall_mem_append]
    refine ⟨List.pairwise_append.mpr ⟨source.inked_ascends _ _, hascends, ?_⟩, ?_, ?_⟩
    · intro i hi j hj
      exact Nat.lt_of_lt_of_le (Text.mem_inked.mp hi).1.2 (hbeyond j hj)
    · intro i hi
      exact Nat.le_trans (source.position_mono h.1) (Text.mem_inked.mp hi).1.1
    · intro i hi
      exact Nat.le_trans (source.position_mono (Nat.le_trans h.1 h.2.1)) (hbeyond i hi)

theorem windows_traced (root : Node) (limits : Limits) (source : Text) :
    ∃ origins, List.Forall₂ (Traced source limits root) (chunkLines limits source) origins ∧
      origins.flatMap (Origin.places source) = source.inked 0 source.length := by
  obtain ⟨places, hholds, hflat⟩ := chunk_lines_hold limits source
  have hboth := (List.forall₂_and_left _ _).mpr ⟨chunk_lines_scope limits source, hholds⟩
  refine ⟨places.map Origin.window, ?_, ?_⟩
  · rw [List.forall₂_map_right_iff]
    exact hboth.imp fun c is h => window_traced h.2 h.1
  · rw [List.flatMap_map, ← hflat]
    exact List.flatMap_id'

/-- Every chunk of a tree can be followed back into it. Together they hold ascending positions, and
among them all that a leaf holds. -/
theorem chunk_tree_traced (hroot : root.Within source) (hle : limits.target ≤ limits.max)
    (l : Language) :
    ∃ origins, List.Forall₂ (Traced source limits root) (chunkTree source l limits root) origins ∧
      (origins.flatMap (Origin.places source)).Pairwise (· < ·) ∧
      ∀ m ∈ root.family, m.children = [] → ∀ i, m.Covers source i → source.isInk i →
        i ∈ origins.flatMap (Origin.places source) := by
  obtain ⟨ps, hgroups, hps, hleaves⟩ := tree_passages limits hroot
  obtain ⟨joined, hjoined, hsub, hplaces⟩ :=
    merged_join hps.stand hle (importsOf source l root)
  unfold chunkTree
  dsimp only
  rw [hgroups]
  split
  · -- No passage holds anything, and the windows hold all there is.
    obtain ⟨origins, htraced, hall⟩ := windows_traced root limits source
    refine ⟨origins, htraced, hall ▸ source.inked_ascends _ _, fun m _ _ i _ hink => ?_⟩
    rw [hall, Text.mem_inked]
    exact ⟨⟨Nat.zero_le _, Text.lt_length_of_ink hink⟩, hink⟩
  · rename_i hsome
    obtain ⟨origins, htraced, hall⟩ := split_traced hjoined (hps.sublist hsub)
    rw [hplaces] at hall
    refine ⟨origins, htraced, hall ▸ (places_ascend hps.ordered).1, fun m hm hleaf i hi hink => ?_⟩
    have hne : ps ≠ [] := by
      rintro rfl
      simp [Chunk.mergeSmall] at hsome
    obtain ⟨p, hp, hlow, hhigh⟩ := hleaves hne m hm hleaf
    rw [hall]
    refine List.mem_flatMap.mpr ⟨p, hp, (hps.stand p hp).mem_places.mpr ⟨⟨?_, ?_⟩, hink⟩⟩
    · exact Nat.le_trans hlow hi.1
    · exact Nat.lt_of_lt_of_le hi.2 hhigh

end
end CodeIndex
