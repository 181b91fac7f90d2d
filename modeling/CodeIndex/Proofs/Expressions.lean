import CodeIndex.Proofs.Words
import Mathlib.Data.List.SplitBy
import Mathlib.Data.List.TakeWhile

namespace CodeIndex

namespace Text

def sameKind (c d : Char) : Bool := isWordChar c == isWordChar d

/-- The words of a text, each as long as it can be. -/
def runs (t : Text) : List Text := (t.splitBy sameKind).filter (·.all isWordChar)

theorem splitBy_run {word : Bool} {p rest : Text} (hp : p ≠ [])
    (hkind : ∀ c ∈ p, isWordChar c = word) (hrest : ∀ c ∈ rest.head?, isWordChar c = !word) :
    (p ++ rest).splitBy sameKind = p :: rest.splitBy sameKind := by
  have hchain : p.IsChain fun c d => sameKind c d :=
    (List.pairwise_of_forall_mem_list fun c hc d hd => by
      simp [sameKind, hkind c hc, hkind d hd]).isChain
  rw [List.splitBy_append, List.splitBy_of_isChain hp hchain, List.singleton_append]
  intro c hc d hd
  rw [sameKind, hkind c (List.mem_of_mem_getLast? hc), hrest d hd]
  cases word <;> rfl

/-- Induction on a text from run to run, by turns of characters of words and of others. -/
theorem byRuns {motive : Text → Prop} (nil : motive [])
    (run : ∀ (word : Bool) (p rest : Text), p ≠ [] → (∀ c ∈ p, isWordChar c = word) →
      (∀ c ∈ rest.head?, isWordChar c = !word) → motive rest → motive (p ++ rest))
    (t : Text) : motive t := by
  cases t with
  | nil => exact nil
  | cons c t =>
    let word := isWordChar c
    let p := t.takeWhile (isWordChar · == word)
    let rest := t.dropWhile (isWordChar · == word)
    have hlength : rest.length ≤ t.length := (List.dropWhile_sublist _).length_le
    have hsplit : c :: t = (c :: p) ++ rest := by
      rw [List.cons_append, List.takeWhile_append_dropWhile]
    rw [hsplit]
    apply run word (c :: p) rest (by simp)
    · intro d hd
      rcases List.mem_cons.mp hd with rfl | hd
      · rfl
      · simpa using List.mem_takeWhile_imp hd
    · intro d hd
      rw [← List.find?_not_eq_head?_dropWhile] at hd
      have hother := List.find?_some hd
      cases h : word <;> simpa [h] using hother
    · exact byRuns nil run rest
termination_by t.length
decreasing_by exact Nat.lt_succ_of_le hlength

/-- The pieces between the characters that are not of words are the words, and nothing else. -/
theorem filter_splitAt_eq_runs (t : Text) :
    (splitAt (fun c => !isWordChar c) t).filter (· ≠ []) = t.runs := by
  induction t using byRuns with
  | nil => rfl
  | run word p rest hp hkind hrest ih =>
    rw [runs, splitBy_run hp hkind hrest, List.filter_cons]
    cases word with
    | true =>
      have hword : ∀ c ∈ p, ¬ (!isWordChar c) := fun c hc => by simp [hkind c hc]
      rw [if_pos (List.all_eq_true.mpr hkind), ← runs, ← ih]
      cases rest with
      | nil =>
        rw [List.append_nil, splitAt_of_none hword]
        simp [splitAt, hp]
      | cons d rest =>
        have hd : (!isWordChar d) = true := by simpa using hrest d rfl
        rw [splitAt_append hd, splitAt_of_none hword, splitAt_cons, if_pos hd]
        simp [hp]
    | false =>
      obtain ⟨c, hc⟩ := List.exists_mem_of_ne_nil p hp
      rw [if_neg fun hall => by simpa [hkind c hc] using List.all_eq_true.mp hall c hc,
        ← runs, ← ih]
      clear hp hc ih
      induction p with
      | nil => rfl
      | cons c p ihp =>
        obtain ⟨hc, hkind⟩ := List.forall_mem_cons.mp hkind
        rw [List.cons_append, splitAt_cons, if_pos (by simp [hc]), ← ihp hkind]
        rfl

theorem shifted_ne {shifts : List Shift} {m n : Nat}
    (hshifts : ∀ s ∈ shifts, (m : Int) < s.first + s.offset) (hn : n ≠ m) :
    shifted shifts n ≠ m := by
  unfold shifted
  cases hfind : shifts.find? (·.covers n) with
  | none => exact hn
  | some s =>
    have hcovers := List.find?_some hfind
    have hbelow := hshifts s (List.mem_of_find?_eq_some hfind)
    simp only [Shift.covers, Bool.and_eq_true, decide_eq_true_eq] at hcovers
    show (n + s.offset).toNat ≠ m
    omega

/-- A number that is no code point stands for the character zero. -/
theorem code_of_ofNat {n : Nat} {c : Char} (hc : 0 < c.toNat) (h : Char.ofNat n = c) :
    n = c.toNat := by
  by_cases hn : n.isValidChar
  · rw [Char.ofNat, dif_pos hn] at h
    exact congrArg Char.toNat h
  · rw [Char.ofNat, dif_neg hn] at h
    exact absurd (congrArg Char.toNat h) (Nat.ne_of_lt hc)

theorem quote_not_mem_lowercaseChar {c : Char} (hc : c ≠ '"') : '"' ∉ lowercaseChar c := by
  have hquote : c.toNat ≠ 0x22 := fun h => hc (Char.toNat_inj.mp h)
  unfold lowercaseChar
  split
  · decide
  · rw [List.mem_singleton]
    intro h
    exact shifted_ne (by decide +kernel) hquote (code_of_ofNat (by decide) h.symm)

theorem quote_not_mem_lowercase {t : Text} (ht : '"' ∉ t) : '"' ∉ lowercase t := by
  unfold lowercase
  generalize [] = seen
  induction t generalizing seen with
  | nil => exact ht
  | cons c t ih =>
    obtain ⟨hc, ht⟩ := not_or.mp (List.mem_cons.not.mp ht)
    rw [lowercaseAfter, List.mem_append, not_or]
    refine ⟨?_, ih ht _⟩
    split
    · split <;> decide
    · exact quote_not_mem_lowercaseChar (Ne.symm hc)

theorem length_le_lowercase (t : Text) : t.length ≤ (lowercase t).length := by
  unfold lowercase
  generalize [] = seen
  induction t generalizing seen with
  | nil => exact Nat.zero_le _
  | cons c t ih =>
    have hchar : 1 ≤ (lowercaseChar c).length := by
      unfold lowercaseChar
      split <;> simp
    have hrest := ih (c :: seen)
    rw [lowercaseAfter, List.length_append, List.length_cons]
    split
    · rw [List.length_singleton]
      omega
    · omega

end Text

namespace MatchExpression

/-- A string stands in quotes; a word is what stands without; all else that means something is a
mark. -/
inductive Token where
  | string (t : Text)
  | word (t : Text)
  | mark (c : Char)
deriving DecidableEq, Repr

def isSpace (c : Char) : Bool := c == ' ' || c == '\t' || c == '\n' || c == '\r'

def isMark (c : Char) : Bool := "()\x7b\x7d:,+*-^".toList.contains c

/-- Characters that need no quotes. -/
def isBare (c : Char) : Bool :=
  128 ≤ c.toNat || c.isAlphanum || c == '_' || c == '\x1A'

/-- The rest of a string and what stands after it. A quote that is doubled is one of the string. -/
def string? : Text → Option (Text × Text)
  | [] => none
  | '"' :: '"' :: t => (string? t).map fun (s, rest) => ('"' :: s, rest)
  | '"' :: t => some ([], t)
  | c :: t => (string? t).map fun (s, rest) => (c :: s, rest)

theorem length_string {t s rest : Text} (h : string? t = some (s, rest)) :
    rest.length < t.length := by
  fun_induction string? t generalizing s with
  | case1 => cases h
  | case2 t ih =>
    obtain ⟨⟨s', rest'⟩, hs, heq⟩ := Option.map_eq_some_iff.mp h
    cases heq
    have := ih hs
    simp only [List.length_cons]
    omega
  | case3 t =>
    cases h
    exact Nat.lt_succ_self _
  | case4 c t _ _ ih =>
    obtain ⟨⟨s', rest'⟩, hs, heq⟩ := Option.map_eq_some_iff.mp h
    cases heq
    exact Nat.lt_succ_of_lt (ih hs)

/-- The tokens of an expression; `none` if it is malformed. -/
def tokens? (t : Text) : Option (List Token) :=
  match t with
  | [] => some []
  | c :: t =>
    if isSpace c then tokens? t
    else if c = '"' then
      match h : string? t with
      | none => none
      | some (s, rest) =>
        have := length_string h
        (tokens? rest).map (.string s :: ·)
    else if isBare c then
      have := (List.dropWhile_sublist isBare (l := t)).length_le
      (tokens? (t.dropWhile isBare)).map (.word (c :: t.takeWhile isBare) :: ·)
    else if isMark c then (tokens? t).map (.mark c :: ·)
    else none
termination_by t.length

/-- The strings of an expression that is matched by any of them; `none` if it says anything else. -/
def anyOf? : List Token → Option (List Text)
  | [.string s] => some [s]
  | .string s :: .word ['O', 'R'] :: ts => (anyOf? ts).map (s :: ·)
  | _ => none

def alternatives? (t : Text) : Option (List Text) := (tokens? t).bind anyOf?

/-- Strings in quotes, any of which may match. -/
def any (ws : List Text) : Text :=
  Text.joinWith " OR ".toList (ws.map fun w => '"' :: w ++ ['"'])

theorem string_quoted {w rest : Text} (hw : '"' ∉ w) (hrest : ∀ c ∈ rest.head?, c ≠ '"') :
    string? (w ++ '"' :: rest) = some (w, rest) := by
  induction w with
  | nil =>
    cases rest with
    | nil => rfl
    | cons d rest =>
      have hd : d ≠ '"' := hrest d rfl
      rw [List.nil_append, string?]
      · rintro t heq
        exact hd (List.cons.inj heq).1
  | cons c w ih =>
    obtain ⟨hc, hw⟩ := not_or.mp (List.mem_cons.not.mp hw)
    rw [List.cons_append, string?, ih hw]
    · rfl
    · rintro t rfl -
      exact hc rfl
    · rintro rfl
      exact hc rfl

theorem tokens_string {w rest : Text} (hw : '"' ∉ w) (hrest : ∀ c ∈ rest.head?, c ≠ '"') :
    tokens? ('"' :: w ++ '"' :: rest) = (tokens? rest).map (.string w :: ·) := by
  rw [List.cons_append, tokens?, if_neg (by decide), if_pos rfl]
  split
  · rename_i h
    rw [string_quoted hw hrest] at h
    cases h
  · rename_i s rest' h
    rw [string_quoted hw hrest] at h
    cases h
    rfl

theorem tokens_or (t : Text) :
    tokens? (" OR ".toList ++ t) = (tokens? t).map (.word ['O', 'R'] :: ·) := by
  have hspace : tokens? (' ' :: t) = tokens? t := by rw [tokens?, if_pos (by decide)]
  have hword : tokens? ('O' :: 'R' :: ' ' :: t) =
      (tokens? (' ' :: t)).map (.word ['O', 'R'] :: ·) := by
    rw [tokens?, if_neg (by decide), if_neg (by decide), if_pos (by decide)]
    have hbare : isBare 'R' = true ∧ isBare ' ' = false := by decide
    simp [hbare]
  show tokens? (' ' :: 'O' :: 'R' :: ' ' :: t) = _
  rw [tokens?, if_pos (by decide), hword, hspace]

theorem tokens_any {w : Text} {ws : List Text} (hws : ∀ v ∈ w :: ws, '"' ∉ v) :
    tokens? (any (w :: ws)) =
      some (.string w :: ws.flatMap fun v => [.word ['O', 'R'], .string v]) := by
  induction ws generalizing w with
  | nil =>
    have hw := hws w List.mem_cons_self
    have hstring : tokens? ('"' :: w ++ ['"']) = (tokens? []).map (.string w :: ·) :=
      tokens_string hw (by simp)
    rw [tokens?] at hstring
    exact hstring
  | cons v ws ih =>
    obtain ⟨hw, hws⟩ := List.forall_mem_cons.mp hws
    have hnext : any (w :: v :: ws) = '"' :: w ++ '"' :: (" OR ".toList ++ any (v :: ws)) := by
      simp [any, Text.joinWith]
    rw [hnext, tokens_string hw (by simp), tokens_or, ih hws]
    rfl

/-- Strings without quotes are read back from the expression that any of them matches. -/
theorem alternatives_any {ws : List Text} (hsome : ws ≠ []) (hws : ∀ w ∈ ws, '"' ∉ w) :
    alternatives? (any ws) = some ws := by
  obtain ⟨w, ws, rfl⟩ := List.exists_cons_of_ne_nil hsome
  rw [alternatives?, tokens_any hws, Option.bind_some]
  clear hws hsome
  induction ws generalizing w with
  | nil => rfl
  | cons v ws ih =>
    rw [List.flatMap_cons]
    simp [anyOf?, ih]

theorem alternatives_nil : alternatives? (any []) = none := by
  rw [alternatives?, show any [] = [] from rfl, tokens?]
  rfl

end MatchExpression

namespace Query

theorem distinct_filter [DecidableEq α] (p : α → Bool) (as : List α) :
    distinct (as.filter p) = (distinct as).filter p := by
  induction as with
  | nil => rfl
  | cons a as ih =>
    rw [distinct, List.filter_cons, List.filter_cons]
    split
    · rw [distinct, ih, List.filter_comm]
    · rename_i ha
      rw [ih, List.filter_filter]
      apply List.filter_congr
      intro b _
      by_cases hb : b = a
      · simp [hb, ha]
      · simp [hb]

theorem distinct_eq_eraseDups [DecidableEq α] [BEq α] [LawfulBEq α] (as : List α) :
    distinct as = as.eraseDups := by
  cases as with
  | nil => rfl
  | cons a as =>
    have hrest := distinct_eq_eraseDups (as.filter fun b => !b == a)
    rw [distinct, List.eraseDups_cons, ← hrest, distinct_filter]
    congr 2
    funext b
    rw [Bool.eq_iff_iff]
    simp
termination_by as.length
decreasing_by exact Nat.lt_succ_of_le (List.length_filter_le _ _)

/-- The words of at least three characters in lower case, thirty-two at most, each where it stands
first. -/
def keywords (t : Text) : List Text :=
  ((t.runs.filter (3 ≤ ·.length)).map Text.lowercase).eraseDups.take 32

theorem terms_eq_keywords (t : Text) : terms t = keywords t := by
  have hlong : (words t).filter (fun w => shortestTerm ≤ w.length) =
      t.runs.filter (3 ≤ ·.length) := by
    rw [← Text.filter_splitAt_eq_runs, List.filter_filter, words]
    apply List.filter_congr
    intro w _
    cases w <;> simp [shortestTerm]
  rw [terms, hlong, distinct_eq_eraseDups]
  rfl

theorem keyword_plain {t w : Text} (hw : w ∈ keywords t) : '"' ∉ w ∧ 3 ≤ w.length := by
  obtain ⟨r, hr, rfl⟩ := List.mem_map.mp (List.mem_eraseDups.mp (List.mem_of_mem_take hw))
  obtain ⟨hrun, hlong⟩ := List.mem_filter.mp hr
  have hletters : ∀ c ∈ r, Text.isWordChar c := List.all_eq_true.mp (List.mem_filter.mp hrun).2
  have hquote : '"' ∉ r := fun h => absurd (hletters _ h) (by decide +kernel)
  exact ⟨Text.quote_not_mem_lowercase hquote,
    Nat.le_trans (of_decide_eq_true hlong) (Text.length_le_lowercase r)⟩

theorem expression_eq (t : Text) :
    expression? t = if keywords t = [] then none else some (MatchExpression.any (keywords t)) := by
  rw [expression?, terms_eq_keywords]
  simp only [List.isEmpty_iff]
  rfl

theorem expression_none_iff {t : Text} : expression? t = none ↔ keywords t = [] := by
  rw [expression_eq]
  split <;> rename_i h <;> simp [h]

theorem expression_some {t e : Text} (he : expression? t = some e) :
    e = MatchExpression.any (keywords t) ∧
      MatchExpression.alternatives? e = some (keywords t) := by
  rw [expression_eq] at he
  split at he
  · cases he
  · rename_i hsome
    cases he
    exact ⟨rfl, MatchExpression.alternatives_any hsome fun w hw => (keyword_plain hw).1⟩

/-- The expression of a text is read as its keywords and as nothing else. -/
theorem expression_says_keywords (t : Text) :
    (expression? t = none ↔ keywords t = []) ∧
    (∀ e, expression? t = some e →
      e = MatchExpression.any (keywords t) ∧
      (∀ w ∈ keywords t, '"' ∉ w ∧ 3 ≤ w.length) ∧
      MatchExpression.alternatives? e = some (keywords t) ∧
      ∀ ws, (∀ w ∈ ws, '"' ∉ w) → e = MatchExpression.any ws → ws = keywords t) ∧
    ∀ s, expression? s = expression? t ↔ keywords s = keywords t := by
  refine ⟨expression_none_iff, ?_, ?_⟩
  · intro e he
    obtain ⟨hspelled, hread⟩ := expression_some he
    refine ⟨hspelled, fun w hw => keyword_plain hw, hread, ?_⟩
    rintro ws hws rfl
    by_cases hempty : ws = []
    · rw [hempty, MatchExpression.alternatives_nil] at hread
      cases hread
    · rw [MatchExpression.alternatives_any hempty hws] at hread
      exact Option.some.inj hread
  · intro s
    constructor
    · intro heq
      cases hs : expression? s with
      | none => rw [expression_none_iff.mp hs, expression_none_iff.mp (heq ▸ hs)]
      | some e =>
        have hreads := (expression_some hs).2
        rw [(expression_some (heq ▸ hs)).2] at hreads
        exact (Option.some.inj hreads).symm
    · intro heq
      rw [expression_eq, expression_eq, heq]

end Query
end CodeIndex
