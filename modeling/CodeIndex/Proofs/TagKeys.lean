import CodeIndex.Store.Table
import CodeIndex.Tag

namespace CodeIndex

/-- What the keys of a scope's tags have in common. -/
def Scope.stem (s : Scope) : String := s.directory ++ "::" ++ s.branch

theorem Scope.key_tag_for (s : Scope) (k : ArtifactKind) :
    (s.tagFor k).key = s.stem ++ ("::" ++ k.id) := by
  simp [Scope.tagFor, Scope.tag, Tag.key, Scope.stem, String.append_assoc]

/-- The ids of two artifacts differ in their last two letters, so neither ends with the other. -/
theorem ArtifactKind.eq_of_ending {k l : ArtifactKind}
    (h : k.id.toList.reverse.take 2 = l.id.toList.reverse.take 2) : k = l := by
  cases k <;> cases l <;> first | rfl | (revert h; decide)

theorem ArtifactKind.two_le_length_id (k : ArtifactKind) : 2 ≤ k.id.toList.length := by
  cases k <;> decide

theorem Scope.key_eq_iff {s t : Scope} {k l : ArtifactKind} :
    (s.tagFor k).key = (t.tagFor l).key ↔ s.stem = t.stem ∧ k = l := by
  rw [Scope.key_tag_for, Scope.key_tag_for]
  constructor
  · intro h
    have hl := congrArg String.toList h
    simp only [String.toList_append] at hl
    have hk : k = l := by
      apply ArtifactKind.eq_of_ending
      have hr := congrArg (fun cs => cs.reverse.take 2) hl
      have hlen := ArtifactKind.two_le_length_id
      simpa [List.take_append_of_le_length, hlen] using hr
    subst hk
    exact ⟨String.toList_inj.mp (List.append_cancel_right hl), rfl⟩
  · rintro ⟨hs, rfl⟩
    rw [hs]

theorem ArtifactKind.mem_all (k : ArtifactKind) : k ∈ ArtifactKind.all := by
  cases k <;> decide

/-- Where the rows of one artifact of a file are filed. -/
def Scope.slot (s : Scope) (k : ArtifactKind) (p : Path) : Slot := ⟨(s.tagFor k).key, p⟩

theorem Scope.slot_eq_iff {s t : Scope} {k l : ArtifactKind} {p q : Path} :
    s.slot k p = t.slot l q ↔ (s.stem = t.stem ∧ p = q) ∧ k = l := by
  rw [Scope.slot, Scope.slot, Slot.mk.injEq, Scope.key_eq_iff]
  exact and_right_comm

/-- Where a file is filed, once for each artifact. -/
def Scope.slots (s : Scope) (p : Path) : List Slot := ArtifactKind.all.map fun k => s.slot k p

theorem Scope.mem_slots {s : Scope} {p : Path} {slot : Slot} :
    slot ∈ s.slots p ↔ ∃ k, slot = s.slot k p := by
  simp [Scope.slots, ArtifactKind.mem_all, eq_comm]

/-- A list is split in one way only by the last of its separators. -/
theorem parts_of_last_separator {as as' bs bs' : List α} {a : α} (hbs : a ∉ bs) (hbs' : a ∉ bs')
    (h : as ++ a :: bs = as' ++ a :: bs') : as = as' ∧ bs = bs' := by
  -- If one side were longer before its separator, the other would have one more after its own.
  rcases List.append_eq_append_iff.mp h with ⟨more, rfl, hrest⟩ | ⟨more, rfl, hrest⟩
  all_goals
    cases more with
    | nil =>
      obtain ⟨-, rfl⟩ := List.cons.inj hrest
      simp
    | cons b more =>
      obtain ⟨-, rfl⟩ := List.cons.inj hrest
      simp at hbs hbs'

/-- What stands before the last two colons may have colons of its own, also at its end. -/
theorem parts_of_last_colons {x x' y y' : String} (hy : ':' ∉ y.toList) (hy' : ':' ∉ y'.toList)
    (h : x ++ "::" ++ y = x' ++ "::" ++ y') : x = x' ∧ y = y' := by
  have hsplit : (x.toList ++ [':']) ++ ':' :: y.toList =
      (x'.toList ++ [':']) ++ ':' :: y'.toList := by
    simpa [String.toList_append] using congrArg String.toList h
  obtain ⟨hx, hy⟩ := parts_of_last_separator hy hy' hsplit
  exact ⟨String.toList_inj.mp (List.append_cancel_right hx), String.toList_inj.mp hy⟩

theorem Scope.eq_of_stem_eq {s t : Scope} (hs : ':' ∉ s.branch.toList) (ht : ':' ∉ t.branch.toList)
    (h : s.stem = t.stem) : s = t := by
  obtain ⟨hdirectory, hbranch⟩ := parts_of_last_colons hs ht h
  cases s
  cases t
  cases hdirectory
  cases hbranch
  rfl

/-- Neither the branch nor the artifact of a tag holds a colon. Its directory may hold any. -/
structure Tag.Separable (t : Tag) : Prop where
  branch : ':' ∉ t.branch.toList
  artifact : ':' ∉ t.artifact.toList

/-- Tags whose branches and artifacts hold no colon have one key only if they have the same branch,
the same artifact and the same directory as it is written. So a row that is filed under one of them
is filed under no other. -/
theorem keys_separate_tags {s t : Tag} (hs : s.Separable) (ht : t.Separable) :
    (s.key = t.key →
        s.branch = t.branch ∧ s.artifact = t.artifact ∧ s.directory = t.directory) ∧
      (s ≠ t → ∀ {α : Type} (table : Table α), ∀ row ∈ table.underTag s.key,
        row ∉ table.underTag t.key) := by
  have hparts : s.key = t.key →
      s.branch = t.branch ∧ s.artifact = t.artifact ∧ s.directory = t.directory := by
    intro hkey
    obtain ⟨hstem, hartifact⟩ := parts_of_last_colons hs.artifact ht.artifact hkey
    have hscope := Scope.eq_of_stem_eq (s := ⟨s.branch, s.directory⟩)
      (t := ⟨t.branch, t.directory⟩) hs.branch ht.branch hstem
    exact ⟨congrArg Scope.branch hscope, hartifact, congrArg Scope.directory hscope⟩
  refine ⟨hparts, ?_⟩
  intro hne α table row hrow hother
  have hkey : s.key = t.key := by
    have hs := (List.mem_filter.mp hrow).2
    have ht := (List.mem_filter.mp hother).2
    rw [← of_decide_eq_true hs, of_decide_eq_true ht]
  obtain ⟨hbranch, hartifact, hdirectory⟩ := hparts hkey
  apply hne
  cases s
  cases t
  cases hbranch
  cases hartifact
  cases hdirectory
  rfl

/-- Two directories of one branch, of which one is called as the other with a colon at its end: a
row of the first is no row of the second. -/
theorem keys_separate_tags_colons :
    let s : Tag := ⟨"main", "/a::b:", "chunks"⟩
    let t : Tag := ⟨"main", "/a::b", "chunks"⟩
    let row : Slot × Nat := (⟨s.key, "/a::b:/c.md"⟩, 0)
    s.Separable ∧ t.Separable ∧ s.key ≠ t.key ∧ row ∉ Table.underTag t.key [row] := by
  intro s t row
  have hs : s.Separable := ⟨by decide, by decide⟩
  have ht : t.Separable := ⟨by decide, by decide⟩
  obtain ⟨hparts, hrows⟩ := keys_separate_tags hs ht
  have hdirectory : s.directory ≠ t.directory := by decide
  have hne : s ≠ t := fun h => hdirectory (congrArg Tag.directory h)
  exact ⟨hs, ht, fun hkey => hdirectory (hparts hkey).2.2,
    hrows hne [row] row (List.mem_filter.mpr ⟨List.mem_singleton_self row, by simp [row]⟩)⟩

end CodeIndex
