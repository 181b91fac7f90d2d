import CodeIndex.Proofs.Lines
import CodeIndex.Search.FullText
import Mathlib.Data.List.Infix

namespace CodeIndex
namespace Text

def isAscii (t : Text) : Bool := t.all (·.toNat < 128)

/-- A term stands somewhere in a text; the case of ASCII letters does not count. -/
def Mentions (t term : Text) : Prop := term.map Char.toLower <:+: t.map Char.toLower

instance (t term : Text) : Decidable (t.Mentions term) :=
  inferInstanceAs (Decidable (_ <:+: _))

theorem isAscii_iff {t : Text} : t.isAscii ↔ ∀ c ∈ t, c.toNat < 128 := by
  simp [isAscii]

theorem isAscii_of_subset {s t : Text} (h : t.isAscii) (hs : s ⊆ t) : s.isAscii :=
  isAscii_iff.mpr fun c hc => isAscii_iff.mp h c (hs hc)

/-- A part of a text mentions no more than the text does. -/
theorem Mentions.of_infix {s t term : Text} (h : s.Mentions term) (hs : s <:+: t) :
    t.Mentions term := h.trans (hs.map _)

theorem of_ascii {p : Char → Prop} (h : ∀ n < 128, p (Char.ofNat n)) {c : Char}
    (hc : c.toNat < 128) : p c := by
  have hn := h c.toNat hc
  rwa [Char.ofNat_toNat] at hn

/-- Of ascending shifts that begin with one of ASCII letters, no other one moves such a letter. -/
theorem shifted_ascii {s : Shift} {rest : List Shift} (hrest : ∀ r ∈ rest, 128 ≤ r.first) {n : Nat}
    (hn : n < 128) : shifted (s :: rest) n = shifted [s] n := by
  have hnone : rest.find? (·.covers n) = none := by
    rw [List.find?_eq_none]
    intro r hr hcovers
    simp only [Shift.covers, Bool.and_eq_true, decide_eq_true_eq] at hcovers
    have := hrest r hr
    omega
  rw [shifted, shifted, List.find?_cons, List.find?_singleton, hnone]
  cases s.covers n <;> rfl

theorem foldChar_ascii {c : Char} (hc : c.toNat < 128) : foldChar c = c.toLower := by
  have hshift : shifted foldShifts c.toNat = shifted [⟨0x41, 0x5A, 1, 32⟩] c.toNat :=
    shifted_ascii (by decide +kernel) hc
  rw [foldChar, hshift]
  exact of_ascii (p := fun c => Char.ofNat (shifted [⟨0x41, 0x5A, 1, 32⟩] c.toNat) = c.toLower)
    (by decide) hc

theorem lowercaseChar_ascii {c : Char} (hc : c.toNat < 128) : lowercaseChar c = [c.toLower] := by
  have hshift : shifted lowercaseShifts c.toNat = shifted [⟨0x41, 0x5A, 1, 32⟩] c.toNat :=
    shifted_ascii (by decide +kernel) hc
  rw [lowercaseChar, if_neg (by omega), hshift]
  exact of_ascii (p := fun c => [Char.ofNat (shifted [⟨0x41, 0x5A, 1, 32⟩] c.toNat)] = [c.toLower])
    (by decide) hc

theorem toLower_ascii {c : Char} (hc : c.toNat < 128) : c.toLower.toNat < 128 :=
  of_ascii (p := fun c => c.toLower.toNat < 128) (by decide) hc

theorem toLower_toLower {c : Char} (hc : c.toNat < 128) : c.toLower.toLower = c.toLower :=
  of_ascii (p := fun c => c.toLower.toLower = c.toLower) (by decide) hc

theorem toLower_of_blank {c : Char} (hc : c.toNat < 128) (hblank : isBlank c) : c.toLower = c :=
  of_ascii (p := fun c => isBlank c → c.toLower = c) (by decide) hc hblank

theorem not_blank_of_word {c : Char} (hc : c.toNat < 128) (hword : isWordChar c) :
    ¬ isBlank c.toLower :=
  of_ascii (p := fun c => isWordChar c → ¬ isBlank c.toLower) (by decide) hc hword

theorem fold_ascii {t : Text} (ht : t.isAscii) : fold t = t.map Char.toLower :=
  List.map_congr_left fun c hc => foldChar_ascii (isAscii_iff.mp ht c hc)

theorem lowercaseAfter_ascii (seen : Text) {t : Text} (ht : t.isAscii) :
    lowercaseAfter seen t = t.map Char.toLower := by
  induction t generalizing seen with
  | nil => rfl
  | cons c t ih =>
    rw [isAscii, List.all_cons, Bool.and_eq_true, decide_eq_true_eq] at ht
    have hsigma : c ≠ '\u03A3' := by
      intro h
      rw [h] at ht
      exact absurd ht.1 (by decide)
    rw [lowercaseAfter, if_neg hsigma, lowercaseChar_ascii ht.1, ih _ ht.2]
    rfl

theorem lowercase_ascii {t : Text} (ht : t.isAscii) : lowercase t = t.map Char.toLower :=
  lowercaseAfter_ascii [] ht

theorem map_toLower_ascii {t : Text} (ht : t.isAscii) : isAscii (t.map Char.toLower) := by
  rw [isAscii_iff]
  intro c hc
  obtain ⟨d, hd, rfl⟩ := List.mem_map.mp hc
  exact toLower_ascii (isAscii_iff.mp ht d hd)

theorem occurrences_pos_iff {part t : Text} : 0 < occurrences part t ↔ part <:+: t := by
  induction t with
  | nil => cases part <;> simp [occurrences]
  | cons c t ih =>
    rw [List.infix_cons_iff, ← ih, ← List.isPrefixOf_iff_prefix, occurrences]
    split
    · rename_i hstarts
      simp only [hstarts, true_or, iff_true]
      omega
    · rename_i hstarts
      simp [hstarts]

/-- Matching ignores the case of ASCII letters and nothing else. -/
theorem occurrences_fold_iff {term t : Text} (hterm : term.isAscii) (ht : t.isAscii) :
    0 < occurrences (fold term) (fold t) ↔ t.Mentions term := by
  rw [occurrences_pos_iff, fold_ascii hterm, fold_ascii ht, Mentions]

theorem subset_of_splitAt {isSeparator : Char → Bool} {t p : Text}
    (hp : p ∈ splitAt isSeparator t) : p ⊆ t := by
  induction t generalizing p with
  | nil =>
    rw [List.mem_singleton.mp hp]
    exact List.nil_subset _
  | cons c t ih =>
    rw [splitAt_cons] at hp
    split at hp
    · rcases List.mem_cons.mp hp with rfl | hp
      · exact List.nil_subset _
      · exact List.subset_cons_of_subset c (ih hp)
    · cases hpieces : splitAt isSeparator t with
      | nil => exact absurd hpieces (splitAt_ne_nil _ _)
      | cons q qs =>
        rw [hpieces] at hp ih
        rcases List.mem_cons.mp hp with rfl | hp
        · exact List.cons_subset_cons c (ih List.mem_cons_self)
        · exact List.subset_cons_of_subset c (ih (List.mem_cons_of_mem q hp))

theorem not_separator_of_splitAt {isSeparator : Char → Bool} {t p : Text}
    (hp : p ∈ splitAt isSeparator t) : ∀ c ∈ p, ¬ isSeparator c := by
  induction t generalizing p with
  | nil =>
    rw [List.mem_singleton.mp hp]
    simp
  | cons d t ih =>
    rw [splitAt_cons] at hp
    split at hp
    · rcases List.mem_cons.mp hp with rfl | hp
      · simp
      · exact ih hp
    · rename_i hd
      cases hpieces : splitAt isSeparator t with
      | nil => exact absurd hpieces (splitAt_ne_nil _ _)
      | cons q qs =>
        rw [hpieces] at hp ih
        rcases List.mem_cons.mp hp with rfl | hp
        · rw [List.forall_mem_cons]
          exact ⟨hd, ih List.mem_cons_self⟩
        · exact ih (List.mem_cons_of_mem q hp)

/-- A line is a piece between newlines, at most without the return at its end. -/
theorem exists_piece_of_line {t line : Text} (hline : line ∈ t.lines) :
    ∃ p ∈ splitAt (· == '\n') t, line ⊆ p := by
  unfold lines at hline
  generalize splitAt (· == '\n') t = pieces at hline ⊢
  fun_induction endLines pieces with
  | case1 => cases hline
  | case2 last hlast => cases hline
  | case3 last hlast => exact ⟨line, hline, List.Subset.refl line⟩
  | case4 p ps hps ih =>
    rcases List.mem_cons.mp hline with rfl | hline
    · refine ⟨p, List.mem_cons_self, ?_⟩
      rw [dropReturn]
      split
      · exact List.dropLast_subset p
      · exact List.Subset.refl p
    · obtain ⟨q, hq, hsub⟩ := ih hline
      exact ⟨q, List.mem_cons_of_mem p hq, hsub⟩

theorem subset_of_lines {t line : Text} (hline : line ∈ t.lines) : line ⊆ t := by
  obtain ⟨p, hp, hsub⟩ := exists_piece_of_line hline
  exact List.Subset.trans hsub (subset_of_splitAt hp)

end Text

namespace Query

theorem mem_of_distinct {α : Type} [DecidableEq α] {as : List α} {a : α} (h : a ∈ distinct as) :
    a ∈ as := by
  induction as with
  | nil => exact h
  | cons b as ih =>
    rcases List.mem_cons.mp h with rfl | h
    · exact List.mem_cons_self
    · exact List.mem_cons_of_mem b (ih (List.mem_of_mem_filter h))

/-- A term of an ASCII query is one of its words in lower case. -/
theorem word_of_term {query term : Text} (hquery : query.isAscii) (hterm : term ∈ terms query) :
    ∃ word : Text, word.isAscii ∧ (∀ c ∈ word, Text.isWordChar c) ∧ shortestTerm ≤ word.length ∧
      term = word.map Char.toLower := by
  obtain ⟨word, hword, rfl⟩ := List.mem_map.mp (mem_of_distinct (List.mem_of_mem_take hterm))
  obtain ⟨hword, hlong⟩ := List.mem_filter.mp hword
  have hascii : word.isAscii := Text.isAscii_of_subset hquery (Text.subset_of_splitAt hword)
  refine ⟨word, hascii, ?_, of_decide_eq_true hlong, Text.lowercase_ascii hascii⟩
  intro c hc
  have hletter := Text.not_separator_of_splitAt hword c hc
  simpa using hletter

theorem ascii_of_term {query term : Text} (hquery : query.isAscii) (hterm : term ∈ terms query) :
    term.isAscii := by
  obtain ⟨word, hascii, -, -, rfl⟩ := word_of_term hquery hterm
  exact Text.map_toLower_ascii hascii

/-- A text that mentions a term is not blank. -/
theorem not_blank_of_mentions {query term t : Text} (hquery : query.isAscii)
    (hterm : term ∈ terms query) (ht : t.isAscii) (hmentions : t.Mentions term) :
    ¬ t.allBlank := by
  obtain ⟨word, hascii, hletters, hlong, rfl⟩ := word_of_term hquery hterm
  have hpos : 0 < word.length := Nat.lt_of_lt_of_le (by decide) hlong
  obtain ⟨c, hc⟩ : ∃ c, c ∈ word := List.exists_mem_of_length_pos hpos
  have hlower : c.toLower ∈ (word.map Char.toLower).map Char.toLower := by
    rw [List.map_map]
    exact List.mem_map.mpr ⟨c, hc, Text.toLower_toLower (Text.isAscii_iff.mp hascii c hc)⟩
  obtain ⟨d, hd, hcd⟩ := List.mem_map.mp (hmentions.subset hlower)
  intro hblank
  have hblank : Text.isBlank d := List.all_eq_true.mp hblank d hd
  rw [Text.toLower_of_blank (Text.isAscii_iff.mp ht d hd) hblank] at hcd
  exact Text.not_blank_of_word (Text.isAscii_iff.mp hascii c hc) (hletters c hc) (hcd ▸ hblank)

end Query
end CodeIndex
