import CodeIndex.Proofs.Origins

namespace CodeIndex

namespace TwoFunctions

def source : Text :=
  "fn f() \x7b\n    let a = 1111111111;\n    let b = 2;\n\x7d\nfn g() \x7b\x7d\n".toList

def leaf (kind : String) (start stop row : Nat) : Node :=
  ⟨kind, ⟨start, stop⟩, row, row, none, none, []⟩

def first : Node :=
  ⟨"function_item", ⟨0, 49⟩, 0, 3, some ⟨3, 4⟩, none,
    [leaf "identifier" 3 4 0, leaf "parameters" 4 6 0,
      ⟨"block", ⟨7, 49⟩, 0, 3, none, none,
        [⟨"let_declaration", ⟨13, 32⟩, 1, 1, none, none,
            [leaf "identifier" 17 18 1, leaf "integer_literal" 21 31 1]⟩,
          ⟨"let_declaration", ⟨37, 47⟩, 2, 2, none, none,
            [leaf "identifier" 41 42 2, leaf "integer_literal" 45 46 2]⟩]⟩]⟩

def second : Node :=
  ⟨"function_item", ⟨50, 59⟩, 4, 4, some ⟨53, 54⟩, none,
    [leaf "identifier" 53 54 4, leaf "parameters" 54 56 4, leaf "block" 57 59 4]⟩

def tree : Node := ⟨"source_file", ⟨0, 60⟩, 0, 5, none, none, [first, second]⟩

def parser : Parser := fun _ _ => some tree

def limits : Limits := ⟨16, 16, 8⟩

theorem tree_within : tree.Within source := by decide +kernel

end TwoFunctions

theorem chunk_file_of_tree {parser : Parser} {source : Text} {l : Language} {limits : Limits}
    {root : Node} (hkinds : l.entityKinds ≠ []) (hparse : parser l source = some root) :
    chunkFile parser source (some l) limits = .ok (chunkTree source l limits root) := by
  simp [chunkFile, hkinds, hparse]

theorem chunk_tree_fit {limits : Limits} (hmax : 1 ≤ limits.max)
    (hle : limits.target ≤ limits.max) (source : Text) (l : Language) (root : Node) :
    ∀ c ∈ chunkTree source l limits root, c.Fits limits.max := by
  unfold chunkTree
  dsimp only
  split
  · exact chunk_lines_fit hmax hle source
  · refine Chunk.split_oversized_fit hmax hle (Chunk.merge_small_mem ?_ ?_)
    · intro a b ha _ _
      rw [Chunk.size_join]
      exact ⟨Nat.le_add_right_of_le ha.1, rfl⟩
    · intro c hc
      obtain ⟨g, -, hg⟩ := List.mem_filterMap.mp hc
      exact Group.chunk_sized hg

theorem chunk_tree_ne_nil {limits : Limits} {source : Text} (hsource : source.size ≠ 0)
    (l : Language) (root : Node) : chunkTree source l limits root ≠ [] := by
  unfold chunkTree
  dsimp only
  split
  · exact chunk_lines_ne_nil hsource
  · rename_i hsome
    exact Chunk.split_oversized_ne_nil (by simpa using hsome)

/-- A file is cut unless it needs a tree that the parser does not give. Every chunk holds something
and fits the maximum, and there is a chunk if there is anything to hold. -/
theorem chunks_bounded {parser : Parser} {source : Text} {language : Option Language}
    {limits : Limits} (htarget : 1 ≤ limits.target) (hle : limits.target ≤ limits.max)
    (hparses : ∀ l, language = some l → l.entityKinds ≠ [] → (parser l source).isSome) :
    ∃ chunks, chunkFile parser source language limits = .ok chunks ∧
      (∀ c ∈ chunks, 1 ≤ c.size ∧ c.size ≤ limits.max ∧ c.hash = hashText c.code) ∧
      (source.size ≠ 0 → chunks ≠ []) := by
  have hmax : 1 ≤ limits.max := Nat.le_trans htarget hle
  obtain ⟨chunks, hrun, hfit, hsome⟩ : ∃ chunks,
      chunkFile parser source language limits = .ok chunks ∧
        (∀ c ∈ chunks, c.Fits limits.max) ∧ (source.size ≠ 0 → chunks ≠ []) := by
    cases language with
    | none => exact ⟨_, rfl, chunk_lines_fit hmax hle source, chunk_lines_ne_nil⟩
    | some l =>
      by_cases hkinds : l.entityKinds = []
      · exact ⟨_, by simp [chunkFile, hkinds], chunk_lines_fit hmax hle source, chunk_lines_ne_nil⟩
      · obtain ⟨root, hroot⟩ := Option.isSome_iff_exists.mp (hparses l rfl hkinds)
        exact ⟨_, chunk_file_of_tree hkinds hroot, chunk_tree_fit hmax hle source l root,
          fun hsource => chunk_tree_ne_nil hsource l root⟩
  exact ⟨chunks, hrun, fun c hc => ⟨(hfit c hc).some, (hfit c hc).most, (hfit c hc).hash⟩, hsome⟩

theorem two_functions_bounded : TwoFunctions.source.size = 37 ∧
    ∃ chunks, chunkFile TwoFunctions.parser TwoFunctions.source (some .rust) TwoFunctions.limits =
        .ok chunks ∧
      (∀ c ∈ chunks, 1 ≤ c.size ∧ c.size ≤ 16 ∧ c.hash = hashText c.code) ∧
      (TwoFunctions.source.size ≠ 0 → chunks ≠ []) :=
  ⟨by decide, chunks_bounded (by decide) (by decide) fun _ _ _ => rfl⟩

section
variable {parser : Parser} {source : Text} {l : Language} {limits : Limits} {root : Node}

/-- Written one after another, the chunks of a tree hold characters of the source at ascending
positions, each on a line of its chunk, and among them all that a leaf holds. -/
theorem tree_chunks_hold (hkinds : l.entityKinds ≠ []) (hparse : parser l source = some root)
    (hroot : root.Within source) (hle : limits.target ≤ limits.max) :
    ∃ chunks places, chunkFile parser source (some l) limits = .ok chunks ∧
      List.Forall₂ (Chunk.Holds source) chunks places ∧
      places.flatten.Pairwise (· < ·) ∧
      ∀ n ∈ root.family, n.children = [] → ∀ i, n.Covers source i → source.isInk i →
        i ∈ places.flatten := by
  obtain ⟨origins, htraced, hascend, hleaves⟩ := chunk_tree_traced hroot hle l
  refine ⟨_, origins.map (Origin.places source), chunk_file_of_tree hkinds hparse, ?_, ?_⟩
  · rw [List.forall₂_map_right_iff]
    exact htraced.imp fun _ _ h => h.1.holds
  · rw [← List.flatMap_def]
    exact ⟨hascend, hleaves⟩

theorem two_functions_hold :
    ∃ chunks places, chunkFile TwoFunctions.parser TwoFunctions.source (some .rust)
        TwoFunctions.limits = .ok chunks ∧
      List.Forall₂ (Chunk.Holds TwoFunctions.source) chunks places ∧
      places.flatten.Pairwise (· < ·) ∧
      ∀ n ∈ TwoFunctions.tree.family, n.children = [] → ∀ i, n.Covers TwoFunctions.source i →
        TwoFunctions.source.isInk i → i ∈ places.flatten :=
  tree_chunks_hold (by decide) rfl TwoFunctions.tree_within (by decide)

/-- Every chunk of a tree has the scope of the nodes that were opened to reach its first passage.
They enclose all that the chunk holds exactly if each passage joined to the first one lies below
them. -/
theorem scope_true_iff (hkinds : l.entityKinds ≠ []) (hparse : parser l source = some root)
    (hroot : root.Within source) (hle : limits.target ≤ limits.max) :
    ∃ chunks origins, chunkFile parser source (some l) limits = .ok chunks ∧
      List.Forall₂ (Chunk.ComesFrom source limits root) chunks origins ∧
      ∀ o ∈ origins, (∀ n ∈ o.path, ∀ i ∈ o.places source, n.Covers source i) ↔
        ∀ q ∈ o.others, o.path <+: q.path := by
  obtain ⟨origins, htraced, -, -⟩ := chunk_tree_traced hroot hle l
  obtain ⟨htrue, hcomes⟩ :=
    (List.forall₂_and_left _ _).mp (htraced.flip.imp fun _ _ h => And.symm h)
  exact ⟨_, origins, chunk_file_of_tree hkinds hparse, hcomes.flip, htrue⟩

theorem two_functions_scope_true_iff :
    ∃ chunks origins, chunkFile TwoFunctions.parser TwoFunctions.source (some .rust)
        TwoFunctions.limits = .ok chunks ∧
      List.Forall₂ (Chunk.ComesFrom TwoFunctions.source TwoFunctions.limits TwoFunctions.tree)
        chunks origins ∧
      ∀ o ∈ origins,
        (∀ n ∈ o.path, ∀ i ∈ o.places TwoFunctions.source, n.Covers TwoFunctions.source i) ↔
          ∀ q ∈ o.others, o.path <+: q.path :=
  scope_true_iff (by decide) rfl TwoFunctions.tree_within (by decide)

/-- A scope begins with the name of the outermost node. -/
theorem name_scopeOf (source : Text) (n : Node) (path : List Node) :
    (n.entity? source).getD n.kind.toList <+: scopeOf source (n :: path) := by
  have hgrows : ∀ scope, scope <+: path.foldl (Group.scopeWithin source) scope := by
    induction path with
    | nil => exact List.prefix_refl
    | cons m path ih =>
      intro scope
      refine List.IsPrefix.trans ?_ (ih _)
      unfold Group.scopeWithin
      split
      · rename_i hnil
        rw [List.isEmpty_iff.mp hnil]
        exact List.nil_prefix
      · rw [List.append_assoc]
        exact List.prefix_append _ _
  exact hgrows _

/-- The second function is joined to the last statement of the first one, and told to be inside the
block of the first one, which does not enclose it. -/
theorem two_functions_scope_untrue :
    ∃ c ∈ chunkTree TwoFunctions.source .rust TwoFunctions.limits TwoFunctions.tree,
      ∀ path places, Leads TwoFunctions.tree.children path →
        c.scope = scopeOf TwoFunctions.source path → c.Holds TwoFunctions.source places →
        ¬ ∀ n ∈ path, ∀ i ∈ places, n.Covers TwoFunctions.source i := by
  have hany : (chunkTree TwoFunctions.source .rust TwoFunctions.limits TwoFunctions.tree).any
      (fun c => c.code == "let b = 2;\nfn g() \x7b\x7d".toList &&
        c.scope == "f > block".toList) := by
    decide +kernel
  obtain ⟨c, hc, hfound⟩ := List.any_eq_true.mp hany
  simp only [Bool.and_eq_true, beq_iff_eq] at hfound
  obtain ⟨hcode, hscope⟩ := hfound
  refine ⟨c, hc, fun path places hleads hpath hholds htrue => ?_⟩
  rw [hscope] at hpath
  -- The chunk holds the name of the second function.
  have hname : some 'g' ∈ places.map (TwoFunctions.source[·]?) := by
    rw [← hholds.ink, hcode]
    decide
  obtain ⟨i, hi, hg⟩ := List.mem_map.mp hname
  have hplace : ∀ i < TwoFunctions.source.length, TwoFunctions.source[i]? = some 'g' → i = 53 := by
    decide
  cases hleads with
  | here => cases hpath
  | @step _ path n hn below =>
    have houtermost := hpath ▸ name_scopeOf TwoFunctions.source n path
    have hcovers := htrue n List.mem_cons_self i hi
    rw [hplace i (List.getElem?_eq_some_iff.mp hg).1 hg] at hcovers
    rcases List.mem_cons.mp hn with rfl | hn
    · exact absurd hcovers (by decide)
    · rw [List.mem_singleton.mp hn] at houtermost
      exact absurd houtermost (by decide)

end
end CodeIndex
