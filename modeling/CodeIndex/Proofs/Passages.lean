import CodeIndex.Chunk.Group
import CodeIndex.Proofs.Positions

namespace CodeIndex

namespace ByteRange

/-- Ranges one after another between two offsets. -/
def InOrder : Nat → List ByteRange → Nat → Prop
  | low, [], high => low ≤ high
  | low, r :: rs, high => low ≤ r.start ∧ r.start ≤ r.stop ∧ InOrder r.stop rs high

instance decidableInOrder : ∀ low rs high, Decidable (InOrder low rs high)
  | low, [], high => inferInstanceAs (Decidable (low ≤ high))
  | low, r :: rs, high =>
    have := decidableInOrder r.stop rs high
    inferInstanceAs (Decidable (low ≤ r.start ∧ r.start ≤ r.stop ∧ InOrder r.stop rs high))

/-- From the start of the first range to the end of the last one. -/
def span (rs : List ByteRange) : ByteRange :=
  ⟨(rs.head?.map start).getD 0, (rs.getLast?.map stop).getD 0⟩

theorem span_singleton (r : ByteRange) : span [r] = r := rfl

theorem span_cons (r : ByteRange) {rs : List ByteRange} (hrs : rs ≠ []) :
    span (r :: rs) = ⟨r.start, (span rs).stop⟩ := by
  simp [span, List.getLast?_cons_of_ne_nil hrs]

theorem span_append {rs ss : List ByteRange} (hrs : rs ≠ []) (hss : ss ≠ []) :
    span (rs ++ ss) = ⟨(span rs).start, (span ss).stop⟩ := by
  simp [span, List.head?_append_of_ne_nil _ hrs, List.getLast?_append_of_ne_nil _ hss]

theorem InOrder.le {low high : Nat} {rs : List ByteRange} (h : InOrder low rs high) :
    low ≤ high := by
  induction rs generalizing low with
  | nil => exact h
  | cons r rs ih => exact Nat.le_trans h.1 (Nat.le_trans h.2.1 (ih h.2.2))

theorem InOrder.lower {low low' high : Nat} {rs : List ByteRange} (h : InOrder low rs high)
    (hlow : low' ≤ low) : InOrder low' rs high := by
  cases rs with
  | nil => exact Nat.le_trans hlow h
  | cons r rs => exact ⟨Nat.le_trans hlow h.1, h.2⟩

theorem InOrder.append {low mid high : Nat} {rs ss : List ByteRange} (h : InOrder low rs mid)
    (g : InOrder mid ss high) : InOrder low (rs ++ ss) high := by
  induction rs generalizing low with
  | nil => exact g.lower h
  | cons r rs ih => exact ⟨h.1, h.2.1, ih h.2.2⟩

theorem InOrder.mem {low high : Nat} {rs : List ByteRange} (h : InOrder low rs high)
    {r : ByteRange} (hr : r ∈ rs) : low ≤ r.start ∧ r.start ≤ r.stop ∧ r.stop ≤ high := by
  induction rs generalizing low with
  | nil => simp at hr
  | cons s rs ih =>
    rcases List.mem_cons.mp hr with rfl | hr
    · exact ⟨h.1, h.2.1, h.2.2.le⟩
    · obtain ⟨hlow, hrange, hhigh⟩ := ih h.2.2 hr
      exact ⟨Nat.le_trans h.1 (Nat.le_trans h.2.1 hlow), hrange, hhigh⟩

theorem InOrder.sublist {low high : Nat} {rs ss : List ByteRange} (h : InOrder low ss high)
    (hsub : rs.Sublist ss) : InOrder low rs high := by
  induction hsub generalizing low with
  | slnil => exact h
  | cons s _ ih => exact (ih h.2.2).lower (Nat.le_trans h.1 h.2.1)
  | cons_cons s _ ih => exact ⟨h.1, h.2.1, ih h.2.2⟩

/-- Neighbours in order may be taken as one range. -/
theorem InOrder.join {low high : Nat} {rs ss : List ByteRange} (hrs : rs ≠ [])
    (h : InOrder low (rs ++ ss) high) : InOrder low (span rs :: ss) high := by
  induction rs generalizing low with
  | nil => exact absurd rfl hrs
  | cons r rs ih =>
    by_cases hnil : rs = []
    · subst hnil
      exact h
    · obtain ⟨hstart, hrange, hrest⟩ := h
      obtain ⟨hlow, hspan, hss⟩ := ih hnil hrest
      rw [span_cons r hnil]
      exact ⟨hstart, Nat.le_trans hrange (Nat.le_trans hlow hspan), hss⟩

theorem InOrder.mem_span {low high : Nat} {rs ss : List ByteRange}
    (h : InOrder low (rs ++ ss) high) {r : ByteRange} (hr : r ∈ rs) :
    (span rs).start ≤ r.start ∧ r.stop ≤ (span rs).stop := by
  have hends : InOrder (span rs).start rs (span rs).stop := by
    clear hr
    induction rs generalizing low with
    | nil => exact Nat.le_refl _
    | cons s rs ih =>
      by_cases hnil : rs = []
      · subst hnil
        exact ⟨Nat.le_refl _, h.2.1, Nat.le_refl _⟩
      · rw [span_cons s hnil]
        exact ⟨Nat.le_refl _, h.2.1, (ih h.2.2).lower (h.2.2.join hnil).1⟩
  obtain ⟨hlow, -, hhigh⟩ := hends.mem hr
  exact ⟨hlow, hhigh⟩

end ByteRange

namespace Node

mutual

/-- A node with all nodes below it. -/
def family : Node → List Node
  | ⟨kind, range, firstRow, lastRow, name, type, children⟩ =>
    ⟨kind, range, firstRow, lastRow, name, type, children⟩ :: families children

def families : List Node → List Node
  | [] => []
  | n :: ns => family n ++ families ns

end

theorem mem_families {m : Node} {ns : List Node} : m ∈ families ns ↔ ∃ n ∈ ns, m ∈ n.family := by
  induction ns with
  | nil => simp [families]
  | cons n ns ih => simp [families, ih]

theorem mem_family {m n : Node} : m ∈ n.family ↔ m = n ∨ ∃ c ∈ n.children, m ∈ c.family := by
  cases n
  simp [family, mem_families]

theorem self_mem_family (n : Node) : n ∈ n.family := mem_family.mpr (Or.inl rfl)

theorem family_of_leaf {m n : Node} (hn : n.children = []) (hm : m ∈ n.family) : m = n := by
  rw [mem_family, hn] at hm
  simpa using hm

/-- A node stands between two characters of a source, on the rows of its ends, and its children
stand inside it one after another. -/
structure Stands (source : Text) (n : Node) : Prop where
  start : source.IsBoundary n.range.start
  stop : source.IsBoundary n.range.stop
  ordered : n.range.start ≤ n.range.stop
  firstRow : n.firstRow + 1 = source.lineAt (source.position n.range.start)
  lastRow : n.lastRow + 1 = source.lineAt (source.position n.range.stop)
  children : ByteRange.InOrder n.range.start (n.children.map range) n.range.stop

instance (source : Text) (n : Node) : Decidable (n.Stands source) :=
  decidable_of_iff
    (source.IsBoundary n.range.start ∧ source.IsBoundary n.range.stop ∧
      n.range.start ≤ n.range.stop ∧
      n.firstRow + 1 = source.lineAt (source.position n.range.start) ∧
      n.lastRow + 1 = source.lineAt (source.position n.range.stop) ∧
      ByteRange.InOrder n.range.start (n.children.map range) n.range.stop)
    ⟨fun ⟨h₁, h₂, h₃, h₄, h₅, h₆⟩ => ⟨h₁, h₂, h₃, h₄, h₅, h₆⟩,
      fun ⟨h₁, h₂, h₃, h₄, h₅, h₆⟩ => ⟨h₁, h₂, h₃, h₄, h₅, h₆⟩⟩

/-- A tree as parsers place it in the source. -/
def Within (source : Text) (root : Node) : Prop := ∀ n ∈ root.family, n.Stands source

instance (source : Text) (root : Node) : Decidable (root.Within source) :=
  inferInstanceAs (Decidable (∀ n ∈ root.family, n.Stands source))

theorem Within.self {source : Text} {n : Node} (h : n.Within source) : n.Stands source :=
  h n n.self_mem_family

theorem Within.child {source : Text} {n c : Node} (h : n.Within source) (hc : c ∈ n.children) :
    c.Within source := fun m hm => h m (mem_family.mpr (Or.inr ⟨c, hc, hm⟩))

/-- What is below a node lies inside it. -/
theorem Within.inside {source : Text} {m n : Node} (h : n.Within source) (hm : m ∈ n.family) :
    n.range.start ≤ m.range.start ∧ m.range.stop ≤ n.range.stop := by
  rcases mem_family.mp hm with rfl | ⟨c, hc, hm⟩
  · exact ⟨Nat.le_refl _, Nat.le_refl _⟩
  · obtain ⟨hstart, -, hstop⟩ := h.self.children.mem (List.mem_map_of_mem hc)
    obtain ⟨hlow, hhigh⟩ := (h.child hc).inside hm
    exact ⟨Nat.le_trans hstart hlow, Nat.le_trans hhigh hstop⟩
termination_by sizeOf n
decreasing_by
  cases n
  have := List.sizeOf_lt_of_mem hc
  simp_all
  omega

end Node

/-- Neighbouring nodes, with the nodes that were opened to reach them from the outermost inwards. -/
structure Passage where
  path : List Node
  nodes : List Node

/-- The names of the nodes of a path, one inside another. -/
def scopeOf (source : Text) (path : List Node) : Text := path.foldl (Group.scopeWithin source) []

namespace Passage

def group (source : Text) (p : Passage) : Group := ⟨scopeOf source p.path, p.nodes⟩

def range (p : Passage) : ByteRange := ByteRange.span (p.nodes.map Node.range)

end Passage

/-- How passages are gathered from siblings below an opened path: a node that is too large is
opened, and what lies between two such nodes is cut into batches. -/
inductive Gathers (source : Text) (limits : Limits) :
    List Node → List Node → List Passage → Prop where
  | done (path : List Node) : Gathers source limits path [] []
  | batch {path ns batch : List Node} {ps : List Passage} (hbatch : batch ≠ [])
      (hfits : ∀ n ∈ batch, (n.text source).size ≤ limits.max)
      (rest : Gathers source limits path ns ps) :
      Gathers source limits path (batch ++ ns) (⟨path, batch⟩ :: ps)
  | leaf {path ns : List Node} {n : Node} {ps : List Passage}
      (hlarge : limits.max < (n.text source).size) (hleaf : n.children = [])
      (rest : Gathers source limits path ns ps) :
      Gathers source limits path (n :: ns) (⟨path ++ [n], [n]⟩ :: ps)
  | opened {path ns : List Node} {n : Node} {ps qs : List Passage}
      (hlarge : limits.max < (n.text source).size) (hinner : n.children ≠ [])
      (inner : Gathers source limits (path ++ [n]) n.children qs)
      (rest : Gathers source limits path ns ps) :
      Gathers source limits path (n :: ns) (qs ++ ps)

section
variable {source : Text} {limits : Limits}

theorem scope_within_path (path : List Node) (n : Node) :
    Group.scopeWithin source (scopeOf source path) n = scopeOf source (path ++ [n]) := by
  simp [scopeOf]

/-- An open batch becomes a passage of its own, if there is anything in it. -/
theorem Gathers.after_batch {path ns batch : List Node} {ps : List Passage}
    (hfits : ∀ n ∈ batch, (n.text source).size ≤ limits.max)
    (rest : Gathers source limits path ns ps) :
    ∃ qs, Gathers source limits path (batch ++ ns) qs ∧
      Group.ofBatch (scopeOf source path) batch ++ ps.map (Passage.group source) =
        qs.map (Passage.group source) := by
  by_cases hbatch : batch = []
  · subst hbatch
    exact ⟨ps, rest, by simp [Group.ofBatch]⟩
  · exact ⟨_, .batch hbatch hfits rest, by simp [Group.ofBatch, hbatch, Passage.group]⟩

-- The node that is opened is the last one on the path of its children, so both theorems are over
-- all paths and follow the recursion of the groups.
mutual

theorem opened_gathers (path : List Node) (n : Node)
    (hlarge : limits.max < (n.text source).size) :
    ∃ qs, Group.opened source limits (scopeOf source path) n = qs.map (Passage.group source) ∧
      ∀ {ns ps}, Gathers source limits path ns ps →
        Gathers source limits path (n :: ns) (qs ++ ps) := by
  match n with
  | ⟨kind, range, firstRow, lastRow, name, type, children⟩ =>
    unfold Group.opened
    dsimp only
    rw [scope_within_path]
    split
    · rename_i hleaf
      exact ⟨[⟨_, _⟩], rfl, .leaf hlarge (List.isEmpty_iff.mp hleaf)⟩
    · rename_i hinner
      obtain ⟨qs, hqs, heq⟩ := gather_gathers (path ++ [_]) [] (by simp) 0 children
      exact ⟨qs, heq, .opened hlarge (by simpa using hinner) hqs⟩

/-- The groups of siblings are their passages. -/
theorem gather_gathers (path batch : List Node)
    (hfits : ∀ n ∈ batch, (n.text source).size ≤ limits.max) (filled : Nat) (ns : List Node) :
    ∃ ps, Gathers source limits path (batch ++ ns) ps ∧
      Group.gather source limits (scopeOf source path) batch filled ns =
        ps.map (Passage.group source) := by
  match ns with
  | [] =>
    unfold Group.gather
    simpa using Gathers.after_batch hfits (.done path)
  | n :: ns =>
    unfold Group.gather
    dsimp only
    split
    · rename_i hlarge
      obtain ⟨qs, hopened, hextend⟩ := opened_gathers path n hlarge
      obtain ⟨ps, hps, hrest⟩ := gather_gathers path [] (by simp) 0 ns
      obtain ⟨all, hall, heq⟩ := Gathers.after_batch hfits (hextend hps)
      exact ⟨all, hall, by rw [← heq, hopened, hrest, List.map_append, List.append_assoc]⟩
    · rename_i hfit
      have hn : (n.text source).size ≤ limits.max := Nat.le_of_not_lt hfit
      split
      · obtain ⟨ps, hps, hrest⟩ :=
          gather_gathers path [n] (by simpa using hn) (n.text source).size ns
        obtain ⟨all, hall, heq⟩ := Gathers.after_batch hfits hps
        exact ⟨all, hall, by rw [← heq, hrest]⟩
      · obtain ⟨ps, hps, hrest⟩ := gather_gathers path (batch ++ [n])
          (fun m hm => by
            rcases List.mem_append.mp hm with hm | hm
            · exact hfits m hm
            · rw [List.mem_singleton.mp hm]
              exact hn)
          (filled + (n.text source).size) ns
        exact ⟨ps, by simpa using hps, hrest⟩

end

/-- Siblings that stand in a source one after another between two offsets. -/
structure Aligned (source : Text) (low : Nat) (ns : List Node) (high : Nat) : Prop where
  within : ∀ n ∈ ns, n.Within source
  ordered : ByteRange.InOrder low (ns.map Node.range) high

theorem Node.Within.aligned {n : Node} (h : n.Within source) :
    Aligned source n.range.start n.children n.range.stop :=
  ⟨fun _ hc => h.child hc, h.self.children⟩

theorem Aligned.tail {low high : Nat} {n : Node} {ns : List Node}
    (h : Aligned source low (n :: ns) high) : Aligned source n.range.stop ns high :=
  ⟨fun m hm => h.within m (List.mem_cons_of_mem _ hm), h.ordered.2.2⟩

theorem Aligned.span {low high : Nat} {batch ns : List Node} (hbatch : batch ≠ [])
    (h : Aligned source low (batch ++ ns) high) :
    ByteRange.InOrder low (ByteRange.span (batch.map Node.range) :: ns.map Node.range) high := by
  have hordered := h.ordered
  rw [List.map_append] at hordered
  exact hordered.join (by simpa using hbatch)

theorem Aligned.after {low high : Nat} {batch ns : List Node} (hbatch : batch ≠ [])
    (h : Aligned source low (batch ++ ns) high) :
    Aligned source (ByteRange.span (batch.map Node.range)).stop ns high :=
  ⟨fun m hm => h.within m (List.mem_append_right _ hm), (h.span hbatch).2.2⟩

/-- Passages come one after another. -/
theorem Gathers.in_order {path ns : List Node} {ps : List Passage} {low high : Nat}
    (h : Gathers source limits path ns ps) (ha : Aligned source low ns high) :
    ByteRange.InOrder low (ps.map Passage.range) high := by
  induction h generalizing low high with
  | done => exact ha.ordered
  | batch hbatch _ _ ih =>
    obtain ⟨hlow, hspan, -⟩ := ha.span hbatch
    exact ⟨hlow, hspan, ih (ha.after hbatch)⟩
  | leaf _ _ _ ih => exact ⟨ha.ordered.1, ha.ordered.2.1, ih ha.tail⟩
  | opened _ _ _ _ ihinner ihrest =>
    have hinner := ihinner (ha.within _ List.mem_cons_self).aligned
    rw [List.map_append]
    exact (hinner.append (ihrest ha.tail)).lower ha.ordered.1

theorem Gathers.nodes_within {path ns : List Node} {ps : List Passage}
    (h : Gathers source limits path ns ps) (hns : ∀ n ∈ ns, n.Within source) :
    ∀ p ∈ ps, p.nodes ≠ [] ∧ ∀ n ∈ p.nodes, n.Within source := by
  induction h with
  | done => simp
  | batch hbatch _ _ ih =>
    rw [List.forall_mem_cons]
    exact ⟨⟨hbatch, fun n hn => hns n (List.mem_append_left _ hn)⟩,
      ih fun n hn => hns n (List.mem_append_right _ hn)⟩
  | leaf _ _ _ ih =>
    rw [List.forall_mem_cons] at hns ⊢
    exact ⟨⟨by simp, by simpa using hns.1⟩, ih hns.2⟩
  | opened _ _ _ _ ihinner ihrest =>
    rw [List.forall_mem_cons] at hns
    rw [List.forall_mem_append]
    exact ⟨ihinner fun c hc => hns.1.child hc, ihrest hns.2⟩

/-- Every leaf lies inside a passage. -/
theorem Gathers.covers_leaf {path ns : List Node} {ps : List Passage} {low high : Nat}
    (h : Gathers source limits path ns ps) (ha : Aligned source low ns high) {m n : Node}
    (hn : n ∈ ns) (hm : m ∈ n.family) (hleaf : m.children = []) :
    ∃ p ∈ ps, p.range.start ≤ m.range.start ∧ m.range.stop ≤ p.range.stop := by
  induction h generalizing low high n with
  | done => simp at hn
  | batch hbatch _ _ ih =>
    obtain ⟨hlow, hhigh⟩ := (ha.within n hn).inside hm
    have hordered := ha.ordered
    rw [List.map_append] at hordered
    rcases List.mem_append.mp hn with hn | hn
    · obtain ⟨hstart, hstop⟩ := hordered.mem_span (List.mem_map_of_mem hn)
      exact ⟨_, List.mem_cons_self, Nat.le_trans hstart hlow, Nat.le_trans hhigh hstop⟩
    · obtain ⟨p, hp, hinside⟩ := ih (ha.after hbatch) hn hm
      exact ⟨p, List.mem_cons_of_mem _ hp, hinside⟩
  | leaf _ hnleaf _ ih =>
    rcases List.mem_cons.mp hn with rfl | hn
    · rw [Node.family_of_leaf hnleaf hm]
      exact ⟨_, List.mem_cons_self, Nat.le_refl _, Nat.le_refl _⟩
    · obtain ⟨p, hp, hinside⟩ := ih ha.tail hn hm
      exact ⟨p, List.mem_cons_of_mem _ hp, hinside⟩
  | opened _ hinner _ _ ihinner ihrest =>
    rcases List.mem_cons.mp hn with rfl | hn
    · rcases Node.mem_family.mp hm with rfl | ⟨c, hc, hm⟩
      · exact absurd hleaf hinner
      · obtain ⟨p, hp, hinside⟩ :=
          ihinner (ha.within _ List.mem_cons_self).aligned hc hm
        exact ⟨p, List.mem_append_left _ hp, hinside⟩
    · obtain ⟨p, hp, hinside⟩ := ihrest ha.tail hn hm
      exact ⟨p, List.mem_append_right _ hp, hinside⟩

/-- The steps from siblings down to a node. -/
inductive Leads : List Node → List Node → Prop where
  | here (ns : List Node) : Leads ns []
  | step {ns path : List Node} {n : Node} (hn : n ∈ ns) (below : Leads n.children path) :
      Leads ns (n :: path)

theorem Leads.mono {ms ns path : List Node} (h : Leads ms path) (hmem : ∀ n ∈ ms, n ∈ ns) :
    Leads ns path := by
  cases h with
  | here => exact .here ns
  | step hn below => exact .step (hmem _ hn) below

/-- A passage lies inside the nodes that were opened to reach it. -/
theorem Gathers.under_path {path ns : List Node} {ps : List Passage} {low high : Nat}
    (h : Gathers source limits path ns ps) (ha : Aligned source low ns high) :
    ∀ p ∈ ps, ∃ opened, p.path = path ++ opened ∧ Leads ns opened ∧
      ∀ n ∈ opened, n.range.start ≤ p.range.start ∧ p.range.stop ≤ n.range.stop := by
  induction h generalizing low high with
  | done => simp
  | batch hbatch _ _ ih =>
    rw [List.forall_mem_cons]
    refine ⟨⟨[], by simp, .here _, by simp⟩, fun p hp => ?_⟩
    obtain ⟨opened, hpath, hleads, hinside⟩ := ih (ha.after hbatch) p hp
    exact ⟨opened, hpath, hleads.mono fun n hn => List.mem_append_right _ hn, hinside⟩
  | @leaf path ns n _ _ _ _ ih =>
    rw [List.forall_mem_cons]
    refine ⟨⟨[n], rfl, .step List.mem_cons_self (.here _), ?_⟩, fun p hp => ?_⟩
    · intro m hm
      rw [List.mem_singleton.mp hm]
      exact ⟨Nat.le_refl _, Nat.le_refl _⟩
    · obtain ⟨opened, hpath, hleads, hinside⟩ := ih ha.tail p hp
      exact ⟨opened, hpath, hleads.mono fun m hm => List.mem_cons_of_mem _ hm, hinside⟩
  | @opened path ns n _ _ _ _ inner _ ihinner ihrest =>
    have haligned := (ha.within n List.mem_cons_self).aligned
    rw [List.forall_mem_append]
    constructor
    · intro p hp
      obtain ⟨opened, hpath, hleads, hinside⟩ := ihinner haligned p hp
      obtain ⟨hlow, -, hhigh⟩ := (inner.in_order haligned).mem (List.mem_map_of_mem hp)
      refine ⟨n :: opened, by simp [hpath], .step List.mem_cons_self hleads, ?_⟩
      rw [List.forall_mem_cons]
      exact ⟨⟨hlow, hhigh⟩, hinside⟩
    · intro p hp
      obtain ⟨opened, hpath, hleads, hinside⟩ := ihrest ha.tail p hp
      exact ⟨opened, hpath, hleads.mono fun m hm => List.mem_cons_of_mem _ hm, hinside⟩

/-- Of two passages, the nodes opened for the first one end before the second one starts, unless
the second one is reached through all of them. -/
theorem Gathers.left_or_under {path ns : List Node} {ps : List Passage} {low high : Nat}
    (h : Gathers source limits path ns ps) (ha : Aligned source low ns high) :
    ps.Pairwise fun p q =>
      (∃ n ∈ p.path, n.range.stop ≤ q.range.start) ∨ p.path <+: q.path := by
  induction h generalizing low high with
  | done => exact .nil
  | batch hbatch _ rest ih =>
    refine .cons (fun q hq => Or.inr ?_) (ih (ha.after hbatch))
    obtain ⟨opened, hpath, -⟩ := rest.under_path (ha.after hbatch) q hq
    exact ⟨opened, hpath.symm⟩
  | leaf _ _ rest ih =>
    refine .cons (fun q hq => Or.inl ⟨_, List.mem_append_right _ List.mem_cons_self, ?_⟩)
      (ih ha.tail)
    exact ((rest.in_order ha.tail).mem (List.mem_map_of_mem hq)).1
  | @opened path ns n _ _ _ _ inner rest ihinner ihrest =>
    -- Of a passage inside `n` and one behind it, `n` itself is on the path of the first only.
    have haligned := (ha.within n List.mem_cons_self).aligned
    refine List.pairwise_append.mpr ⟨ihinner haligned, ihrest ha.tail, ?_⟩
    intro p hp q hq
    obtain ⟨opened, hpath, -⟩ := inner.under_path haligned p hp
    refine Or.inl ⟨n, by simp [hpath], ?_⟩
    exact ((rest.in_order ha.tail).mem (List.mem_map_of_mem hq)).1

end

end CodeIndex
