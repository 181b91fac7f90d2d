import CodeIndex.Proofs.RawPaths
import CodeIndex.Search.FullText
import Mathlib.Data.List.Chain

namespace CodeIndex

/-- The pieces of a text, each after a slash, are the text after a slash. -/
theorem Text.flatMap_splitAt (t : Text) :
    (Text.splitAt (· == '/') t).flatMap ('/' :: ·) = '/' :: t := by
  induction t with
  | nil => rfl
  | cons c t ih =>
    rw [splitAt_cons]
    cases hpieces : splitAt (· == '/') t with
    | nil => exact absurd hpieces (splitAt_ne_nil _ t)
    | cons first rest =>
      rw [hpieces, List.flatMap_cons, List.cons_append, List.cons.injEq] at ih
      split
      · rename_i hc
        rw [eq_of_beq hc, List.flatMap_cons, List.flatMap_cons, List.cons_append, List.cons_append,
          ih.2]
        rfl
      · rw [onFirst, List.flatMap_cons, List.cons_append, List.cons_append, ih.2]

/-- Without two slashes in a row and a slash at the end no piece is empty. -/
theorem Text.empty_not_mem {t : Text} (hsingle : ('/' :: t).IsChain fun a b => a = '/' → b ≠ '/')
    (hclosed : ('/' :: t).getLast? ≠ some '/') : [] ∉ Text.splitAt (· == '/') t := by
  intro h
  obtain ⟨before, after, hpieces⟩ := List.append_of_mem h
  rw [← flatMap_splitAt t, hpieces, List.flatMap_append, List.flatMap_cons] at hsingle hclosed
  cases after with
  | nil => exact hclosed List.getLast?_concat
  | cons piece after =>
    rw [List.flatMap_cons] at hsingle
    exact (List.isChain_cons_cons.mp hsingle.right_of_append).1 rfl rfl

namespace Path

/-- The spelling of a path without anything that does not count: no two slashes in a row, no slash
at the end and no dots. It is absolute. -/
structure Normal (p : Path) : Prop where
  absolute : isAbsolute p
  single : p.toList.IsChain fun a b => a = '/' → b ≠ '/'
  closed : p ≠ "/" → p.toList.getLast? ≠ some '/'
  plain : ['.'] ∉ Text.splitAt (· == '/') p.toList

instance : DecidablePred Normal := fun p =>
  decidable_of_iff (isAbsolute p ∧ (p.toList.IsChain fun a b => a = '/' → b ≠ '/') ∧
      (p ≠ "/" → p.toList.getLast? ≠ some '/') ∧ ['.'] ∉ Text.splitAt (· == '/') p.toList)
    ⟨fun h => ⟨h.1, h.2.1, h.2.2.1, h.2.2.2⟩, fun h => ⟨h.1, h.2, h.3, h.4⟩⟩

/-- The components of a text after a slash. -/
def further (t : Text) : List Component := (Text.splitAt (· == '/') t).filterMap (component? false)

theorem components_root (t : Text) :
    components (String.ofList ('/' :: t)) = .root :: further t := by
  simp [components, isAbsolute, further, Text.splitAt_cons, component?]

theorem components_slash {s : Text} (hs : s ≠ []) (t : Text) :
    components (String.ofList (s ++ '/' :: t)) = components (String.ofList s) ++ further t := by
  have habsolute : isAbsolute (String.ofList (s ++ '/' :: t)) = isAbsolute (String.ofList s) := by
    obtain ⟨c, rest, rfl⟩ := List.exists_cons_of_ne_nil hs
    simp [isAbsolute]
  simp only [components, habsolute, String.toList_ofList, further]
  rw [Text.splitAt_append rfl]
  cases hpieces : Text.splitAt (· == '/') s with
  | nil => exact absurd hpieces (Text.splitAt_ne_nil _ s)
  | cons first rest => simp

theorem is_below_iff {d p : Path} : isBelow d p ↔ (below d).toList <+: p.toList := by
  rw [List.prefix_iff_eq_take]
  exact beq_iff_eq.trans eq_comm

/-- What begins as paths below a directory do lies in it. -/
theorem within_of_below {d p : Path} (h : (below d).toList <+: p.toList) : within d p := by
  obtain ⟨t, ht⟩ := h
  obtain rfl : p = String.ofList ((below d).toList ++ t) := by rw [ht, String.ofList_toList]
  rw [within, List.isPrefixOf_iff_prefix]
  unfold below
  -- The components of the text up to the slash are those of the directory, unless it is the root or
  -- has no text at all.
  split
  · rename_i hend
    obtain ⟨s, hs⟩ := List.getLast?_eq_some_iff.mp hend
    obtain rfl : d = String.ofList (s ++ ['/']) := by rw [← hs, String.ofList_toList]
    rw [String.toList_ofList, List.append_assoc, List.singleton_append]
    rcases eq_or_ne s [] with rfl | hs
    · rw [List.nil_append, List.nil_append, components_root, components_root]
      exact List.cons_prefix_cons.mpr ⟨rfl, List.nil_prefix⟩
    · rw [components_slash hs, components_slash hs, show further [] = [] from rfl, List.append_nil]
      exact List.prefix_append _ _
  · rw [String.toList_append, List.append_assoc]
    rcases eq_or_ne d "" with rfl | hd
    · exact List.nil_prefix
    · have hs : d.toList ≠ [] := by simpa using hd
      have hcomponents := components_slash hs t
      rw [String.ofList_toList] at hcomponents
      rw [show d.toList ++ ("/".toList ++ t) = d.toList ++ '/' :: t from rfl, hcomponents]
      exact List.prefix_append _ _

/-- What a piece that counts stands for, when it is not the first one. -/
def Component.ofPiece (piece : Text) : Component :=
  if piece = ['.', '.'] then .up else .name (String.ofList piece)

theorem Component.of_piece_inj {a b : Text} (h : ofPiece a = ofPiece b) : a = b := by
  unfold ofPiece at h
  split at h <;> split at h
  · simp_all
  · cases h
  · cases h
  · rw [Component.name.injEq] at h
    exact String.ofList_injective h

theorem component_of_piece {piece : Text} (hsome : piece ≠ []) (hdot : piece ≠ ['.']) :
    component? false piece = some (Component.ofPiece piece) := by
  unfold component? Component.ofPiece
  rw [if_neg hsome, if_neg hdot]
  split <;> rfl

theorem Normal.eq_root_or {p : Path} (h : Normal p) : p = "/" ∨ ∃ t, p = String.ofList ('/' :: t) ∧
    ('/' :: t).getLast? ≠ some '/' ∧
    ∀ piece ∈ Text.splitAt (· == '/') t, piece ≠ [] ∧ piece ≠ ['.'] := by
  obtain ⟨t, ht⟩ := List.head?_eq_some_iff.mp (eq_of_beq h.absolute)
  rcases eq_or_ne p "/" with hroot | hroot
  · exact Or.inl hroot
  · have hclosed := h.closed hroot
    have hsingle := h.single
    have hplain := h.plain
    rw [ht] at hclosed hsingle hplain
    refine Or.inr ⟨t, by rw [← ht, String.ofList_toList], hclosed, fun piece hpiece => ⟨?_, ?_⟩⟩
    · rintro rfl
      exact Text.empty_not_mem hsingle hclosed hpiece
    · rintro rfl
      exact hplain (List.mem_cons_of_mem _ hpiece)

/-- A path in normal form is its names, each after a slash; the components after the root are these
names, too. -/
theorem Normal.exists_names {p : Path} (h : Normal p) : ∃ names : List Text,
    components p = .root :: names.map Component.ofPiece ∧
    (below p).toList = names.flatMap ('/' :: ·) ++ ['/'] ∧
    (p ≠ "/" → p.toList = names.flatMap ('/' :: ·)) := by
  rcases h.eq_root_or with rfl | ⟨t, rfl, hclosed, hpieces⟩
  · exact ⟨[], components_root [], rfl, fun hne => absurd rfl hne⟩
  · have hcomponents : further t = (Text.splitAt (· == '/') t).map Component.ofPiece := by
      rw [further, ← List.filterMap_eq_map]
      refine List.filterMap_congr fun piece hpiece => ?_
      exact component_of_piece (hpieces piece hpiece).1 (hpieces piece hpiece).2
    refine ⟨Text.splitAt (· == '/') t, by rw [components_root, hcomponents], ?_, fun _ => ?_⟩
    · rw [below, String.toList_ofList, if_neg hclosed, Text.flatMap_splitAt, String.toList_append,
        String.toList_ofList]
      rfl
    · rw [Text.flatMap_splitAt, String.toList_ofList]

/-- A directory is searched by text as it is by components, if it and the paths are Unicode texts:
what begins with its text and a slash lies in it, and between paths in normal form only that lies
properly in it. -/
theorem below_exact (d p : Path) :
    (FullText.inDirectory (some d) p ↔ (below d).toList <+: p.toList) ∧
    ((below d).toList <+: p.toList → (RawPath.ofText d).within (RawPath.ofText p)) ∧
    (Normal d → Normal p → p ≠ "/" → ((below d).toList <+: p.toList ↔
      (RawPath.ofText d).within (RawPath.ofText p) ∧
        ¬ (RawPath.ofText d).same (RawPath.ofText p))) := by
  rw [RawPath.within_of_text, RawPath.same_of_text]
  refine ⟨is_below_iff, within_of_below, fun hd hp hroot => ?_⟩
  obtain ⟨names, hcomponents, hbelow, -⟩ := hd.exists_names
  obtain ⟨names', hcomponents', -, htext⟩ := hp.exists_names
  have hinj : Function.Injective (List.map Component.ofPiece) :=
    List.map_injective_iff.mpr fun _ _ => Component.of_piece_inj
  constructor
  · intro h
    refine ⟨within_of_below h, fun hsame => ?_⟩
    have hsame := eq_of_beq hsame
    rw [hcomponents, hcomponents', List.cons.injEq] at hsame
    rw [hbelow, htext hroot, ← hinj hsame.2] at h
    have hlength := h.length_le
    rw [List.length_append, List.length_singleton] at hlength
    omega
  · rintro ⟨hwithin, hother⟩
    rw [within, List.isPrefixOf_iff_prefix, hcomponents, hcomponents', List.cons_prefix_cons,
      List.prefix_map_iff] at hwithin
    obtain ⟨-, started, ⟨rest, rfl⟩, hstarted⟩ := hwithin
    obtain rfl := hinj hstarted
    rw [hbelow, htext hroot, List.flatMap_append]
    refine (List.prefix_append_right_inj _).mpr ?_
    cases rest with
    | nil =>
      refine absurd ?_ hother
      rw [same, hcomponents, hcomponents', List.append_nil]
      exact beq_self_eq_true _
    | cons name rest => exact List.cons_prefix_cons.mpr ⟨rfl, List.nil_prefix⟩

/-- A file lies in its directory, one whose name only begins alike does not. -/
theorem below_exact_siblings :
    (Normal "/ä" ∧ Normal "/ä/../b.rs" ∧ Normal "/äb.rs") ∧
      (below "/ä").toList <+: "/ä/../b.rs".toList ∧ ¬ (below "/ä").toList <+: "/äb.rs".toList := by
  have hnormal : Normal "/ä" ∧ Normal "/ä/../b.rs" ∧ Normal "/äb.rs" := by decide
  have hfile := (below_exact "/ä" "/ä/../b.rs").2.2 hnormal.1 hnormal.2.1 (by decide)
  have hsibling := (below_exact "/ä" "/äb.rs").2.2 hnormal.1 hnormal.2.2 (by decide)
  have hinside : within "/ä" "/ä/../b.rs" ∧ ¬ same "/ä" "/ä/../b.rs" := by decide
  have houtside : ¬ within "/ä" "/äb.rs" := by decide
  rw [RawPath.within_of_text, RawPath.same_of_text] at hfile hsibling
  exact ⟨hnormal, hfile.mpr hinside, fun h => houtside (hsibling.mp h).1⟩

/-- Two names that are no texts look the same: what lies in the one directory is taken to lie in the
other one. -/
theorem below_misleads :
    let d : RawPath := ⟨[47, 100, 0xFE]⟩
    let p : RawPath := ⟨[47, 100, 0xFF, 47, 120, 46, 114, 115]⟩
    (below d.text).toList <+: p.text.toList ∧ FullText.inDirectory (some d.text) p.text ∧
      ¬ d.within p := by
  decide +kernel

end Path
end CodeIndex
