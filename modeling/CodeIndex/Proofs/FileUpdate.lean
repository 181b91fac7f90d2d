import CodeIndex.Proofs.Holdings

namespace CodeIndex
namespace Store

def updateAll (s : Settings) (scope : Scope) (e : FileEntry) (change : Change)
    (embedded : List Embedded) : List ArtifactKind → Nat → Store → Except IndexError (Store × Nat)
  | [], failed, st => .ok (st, failed)
  | kind :: kinds, failed, st =>
    match st.update s kind (scope.tagFor kind) e change embedded with
    | .error err => .error err
    | .ok (st, outcome) => updateAll s scope e change embedded kinds (failed + outcome.failed) st

/-- All that indexing a file does to the store, once the file is read and embedded. -/
def updateFile (s : Settings) (scope : Scope) (e : FileEntry) (change : Change)
    (embedded : List Embedded) (st : Store) : Except IndexError (Store × Nat) :=
  match st.updateAll s scope e change embedded ArtifactKind.all 0 with
  | .error err => .error err
  | .ok (st, failed) => .ok (if failed = 0 then st.commit scope e change else st, failed)

/-- An update succeeds in every artifact and leaves the rows that are told. -/
def Writes (s : Settings) (scope : Scope) (e : FileEntry) (change : Change)
    (embedded : List Embedded) (new : ArtifactKind → Rows) (lost : ArtifactKind → Nat) : Prop :=
  ∀ kind {st : Store}, st.Linked → ∃ st' out,
    st.update s kind (scope.tagFor kind) e change embedded = .ok (st', out) ∧
      out.failed = lost kind ∧
      st.Brings (fun k slot => k = kind ∧ slot = scope.slot k e.path) new st'

section
variable {s : Settings} {scope : Scope} {e : FileEntry} {change : Change}
  {embedded : List Embedded}

theorem writes_content {content : Text} {cs : List Chunk}
    (hchange : change = .added ∨ change = .updated) (hcontent : e.content = some content)
    (hc : s.chunks e content = .ok cs) :
    Writes s scope e change embedded (.ofFile s e content cs embedded) (lost embedded) := by
  intro kind st hl
  obtain ⟨st', out, hu, hfailed, hb⟩ :=
    update_content hl hchange hcontent hc kind (scope.tagFor kind) embedded
  refine ⟨st', out, hu, hfailed, hb.congr ?_⟩
  intro k slot
  exact and_congr_right fun hk => hk ▸ Iff.rfl

theorem writes_removed : Writes s scope e .removed embedded .empty fun _ => 0 := by
  intro kind st hl
  refine ⟨_, _, rfl, rfl, ?_⟩
  apply (remove_brings hl kind _).congr
  intro k slot
  exact and_congr_right fun hk => hk ▸ Iff.rfl

/-- What several artifacts lost of a file. -/
def lostBy (lost : ArtifactKind → Nat) (kinds : List ArtifactKind) : Nat :=
  kinds.foldr (fun kind n => lost kind + n) 0

theorem Writes.update_all {new : ArtifactKind → Rows} {lost : ArtifactKind → Nat}
    (h : Writes s scope e change embedded new lost) (kinds : List ArtifactKind) (n : Nat)
    {st : Store} (hl : st.Linked) : ∃ st',
      st.updateAll s scope e change embedded kinds n = .ok (st', n + lostBy lost kinds) ∧
        st.Brings (fun k slot => k ∈ kinds ∧ slot = scope.slot k e.path) new st' := by
  induction kinds generalizing n st with
  | nil =>
    refine ⟨st, rfl, (Brings.refl hl new).congr ?_⟩
    intro k slot
    simp
  | cons kind kinds ih =>
    obtain ⟨st₁, out, hu, hfailed, hb⟩ := h kind hl
    obtain ⟨st₂, hall, hbs⟩ := ih (n + out.failed) hb.linked
    refine ⟨st₂, ?_, (hb.trans hbs).congr ?_⟩
    · rw [updateAll, hu, lostBy, List.foldr_cons, ← lostBy, ← hfailed, ← Nat.add_assoc]
      exact hall
    · intro k slot
      rw [List.mem_cons, or_and_right]

end

/-- What is recorded of a file under each of its tags. -/
def recordOf (e : FileEntry) (change : Change) : List String :=
  if change = .removed then [] else [e.hash]

theorem commit_eq (scope : Scope) (e : FileEntry) (change : Change) (st : Store) :
    st.commit scope e change = { st with
      catalog := ArtifactKind.all.foldl
        (fun c kind => c.put (scope.slot kind e.path) (recordOf e change)) st.catalog } := by
  unfold commit recordOf
  generalize ArtifactKind.all = kinds
  induction kinds generalizing st with
  | nil => rfl
  | cons kind kinds ih =>
    rw [List.foldl_cons, List.foldl_cons, ih]
    split
    · simp [forget, Table.put, Scope.slot]
    · rfl

theorem put_all_rows (scope : Scope) (p : Path) (recorded : List String)
    (kinds : List ArtifactKind) (c : Table String) (slot : Slot) :
    Table.rows slot (kinds.foldl (fun c kind => c.put (scope.slot kind p) recorded) c) =
      if slot ∈ kinds.map (scope.slot · p) then recorded else c.rows slot := by
  induction kinds generalizing c with
  | nil => simp
  | cons kind kinds ih =>
    rw [List.foldl_cons, ih, Table.rows_put]
    simp only [List.map_cons, List.mem_cons]
    by_cases hslot : slot = scope.slot kind p <;> simp [hslot]

/-- The store after a file went through all artifacts: the rows that these have left, and new
records of the file if nothing is lost. -/
theorem update_file_view {s : Settings} {scope : Scope} {e : FileEntry} {change : Change}
    {embedded : List Embedded} {here : ArtifactKind → Slot → Prop} {new : ArtifactKind → Rows}
    {lost : Nat} {st st₁ : Store}
    (hall : st.updateAll s scope e change embedded ArtifactKind.all 0 = .ok (st₁, lost))
    (hb : st.Brings here new st₁) : ∃ st',
      st.updateFile s scope e change embedded = .ok (st', lost) ∧ st'.Linked ∧
        (∀ k slot, st'.rowsOf k slot = st₁.rowsOf k slot) ∧
        (∀ slot, st'.catalog.rows slot =
          if lost = 0 ∧ slot ∈ scope.slots e.path then recordOf e change
          else st.catalog.rows slot) ∧
        (lost ≠ 0 → st'.catalog = st.catalog) := by
  rw [updateFile, hall]
  refine ⟨_, rfl, ?_⟩
  split
  · rename_i hlost
    rw [commit_eq]
    refine ⟨⟨hb.linked.paired, hb.linked.distinct⟩, ?_, ?_, fun hne => absurd hlost hne⟩
    · intro k slot
      cases k <;> rfl
    · intro slot
      rw [put_all_rows, hb.catalog]
      simp only [hlost, true_and, Scope.slots]
  · rename_i hlost
    refine ⟨hb.linked, fun _ _ => rfl, ?_, fun _ => hb.catalog⟩
    intro slot
    rw [hb.catalog, if_neg fun hk => hlost hk.1]

/-- New rows for one file of a scope in all artifacts, and new records of it if nothing is lost. -/
structure Replaces (st : Store) (scope : Scope) (p : Path) (new : ArtifactKind → Rows)
    (lost : Nat) (recorded : List String) (st' : Store) : Prop where
  linked : st'.Linked
  rows : ∀ (k : ArtifactKind) (t : Scope) (q : Path), st'.rowsOf k (t.slot k q) =
    if t.stem = scope.stem ∧ q = p then new k else st.rowsOf k (t.slot k q)
  records : ∀ (k : ArtifactKind) (t : Scope) (q : Path), st'.catalog.rows (t.slot k q) =
    if lost = 0 ∧ t.stem = scope.stem ∧ q = p then recorded else st.catalog.rows (t.slot k q)

theorem Writes.update_file {s : Settings} {scope : Scope} {e : FileEntry} {change : Change}
    {embedded : List Embedded} {new : ArtifactKind → Rows} {lost : ArtifactKind → Nat}
    (h : Writes s scope e change embedded new lost) {st : Store} (hl : st.Linked) : ∃ st',
      st.updateFile s scope e change embedded = .ok (st', lostBy lost ArtifactKind.all) ∧
        st.Replaces scope e.path new (lostBy lost ArtifactKind.all) (recordOf e change) st' := by
  obtain ⟨st₁, hall, hb⟩ := h.update_all ArtifactKind.all 0 hl
  rw [Nat.zero_add] at hall
  obtain ⟨st', hu, hlinked, hrows, hrecords, -⟩ := update_file_view hall hb
  have hslot : ∀ (k : ArtifactKind) (t : Scope) (q : Path),
      t.slot k q = scope.slot k e.path ↔ t.stem = scope.stem ∧ q = e.path := by
    intro k t q
    rw [Scope.slot_eq_iff, and_iff_left rfl]
  refine ⟨st', hu, hlinked, ?_, ?_⟩
  · intro k t q
    rw [hrows]
    split
    · rename_i hs
      exact hb.inside ⟨ArtifactKind.mem_all k, (hslot k t q).mpr hs⟩
    · rename_i hs
      exact hb.outside fun hin => hs ((hslot k t q).mp hin.2)
  · intro k t q
    have hsame : t.slot k q ∈ scope.slots e.path ↔ t.stem = scope.stem ∧ q = e.path := by
      simp [Scope.mem_slots, Scope.slot_eq_iff]
    rw [hrecords]
    simp only [hsame]

end Store
end CodeIndex
