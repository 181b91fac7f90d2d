import CodeIndex.Provider.OpenAi
import Mathlib.Data.List.Perm.Subperm

namespace CodeIndex.OpenAi

theorem length_inOrder (es : List Entry) : (inOrder es).length = es.length := by
  simp [inOrder]

/-- Entries whose indexes ascend already stay as they are. -/
theorem inOrder_ascending {es : List Entry} (h : es.Pairwise fun a b => a.index ≤ b.index) :
    inOrder es = es.map Entry.vector := by
  have hsorted : es.Pairwise fun a b => decide (a.index ≤ b.index) = true := by simpa using h
  rw [inOrder, List.mergeSort_of_pairwise hsorted]

theorem inOrder_unlabelled {es : List Entry} (h : ∀ e ∈ es, e.label = none) :
    inOrder es = es.map Entry.vector := by
  have hindex (e : Entry) (he : e ∈ es) : e.index = 0 := by rw [Entry.index, h e he]; rfl
  exact inOrder_ascending (List.pairwise_of_forall_mem_list fun a ha b hb =>
    Nat.le_of_eq ((hindex a ha).trans (hindex b hb).symm))

theorem exists_sorted (es : List Entry) : ∃ sorted : List Entry, sorted.Perm es ∧
    (sorted.Pairwise fun a b => a.index ≤ b.index) ∧ inOrder es = sorted.map Entry.vector := by
  refine ⟨_, List.mergeSort_perm es fun a b => decide (a.index ≤ b.index), ?_, rfl⟩
  refine (List.pairwise_mergeSort ?_ ?_ es).imp (by simp)
  · intro a b c hab hbc
    simp only [decide_eq_true_eq] at hab hbc ⊢
    exact Nat.le_trans hab hbc
  · intro a b
    simpa using Nat.le_total a.index b.index

/-- If the indexes name each place once, each vector is in the place that is named. -/
theorem inOrder_places {es : List Entry} (h : (es.map Entry.index).Perm (List.range es.length))
    {e : Entry} (he : e ∈ es) : (inOrder es)[e.index]? = some e.vector := by
  obtain ⟨sorted, hperm, hascending, hinOrder⟩ := exists_sorted es
  -- Two ascending lists of the same numbers are one list, so index and place are the same.
  have hplaces : sorted.map Entry.index = List.range es.length :=
    List.Perm.eq_of_pairwise (fun _ _ _ _ => Nat.le_antisymm)
      (List.pairwise_map.mpr hascending) List.pairwise_le_range ((hperm.map _).trans h)
  obtain ⟨i, hi, rfl⟩ := List.getElem_of_mem (hperm.mem_iff.mpr he)
  have hindex : sorted[i].index = i := by
    have hget := congrArg (fun places => places[i]?) hplaces
    have hlt : i < es.length := hperm.length_eq ▸ hi
    simpa [hi, hlt] using hget
  rw [hindex, hinOrder, List.getElem?_map, List.getElem?_eq_getElem hi]
  rfl

/-- What comes of the response to a request for `count` vectors. A body that breaks off counts
before the status, the status before the form of the body, and that before the number of its
entries. -/
structure Yields (decode : Decoder) (count : Nat) (r : Response)
    (result : Except ProviderError (List Embedding)) : Prop where
  broken : r.text = none → result = .error .http
  limited : ∀ body, r.text = some body → r.status = 429 → result = .error .rateLimited
  refused : ∀ body, r.text = some body → r.status ≠ 429 → ¬ r.isSuccess → result = .error (.other
    ("embedding request failed (status " ++ toString r.status ++ " " ++ r.reason ++ ")"))
  garbled : ∀ body, r.text = some body → r.isSuccess → decode body = none → result = .error .json
  miscounted : ∀ body es, r.text = some body → r.isSuccess → decode body = some es →
    es.length ≠ count → result = .error (.batchMismatch providerName count es.length)
  placed : ∀ body es, r.text = some body → r.isSuccess → decode body = some es →
    es.length = count → ∃ vectors, result = .ok vectors ∧ vectors.length = count ∧
      ((es.map Entry.index).Perm (List.range count) →
        ∀ e ∈ es, vectors[e.index]? = some e.vector) ∧
      ((∀ e ∈ es, e.label = none) → vectors = es.map Entry.vector)

theorem not_limited_of_success {r : Response} (h : r.isSuccess) : r.status ≠ 429 := by
  intro hlimited
  simp [Response.isSuccess, hlimited] at h

theorem readResponse_decoded {decode : Decoder} {count : Nat} {r : Response} {body : Text}
    {es : List Entry} (hbody : r.text = some body) (h : r.isSuccess)
    (hes : decode body = some es) :
    readResponse count r decode = checkBatch providerName count (inOrder es) := by
  simp only [readResponse, hbody, if_neg (not_limited_of_success h), h, Bool.not_true,
    Bool.false_eq_true, if_false, hes]

theorem readResponse_yields (decode : Decoder) (count : Nat) (r : Response) :
    Yields decode count r (readResponse count r decode) where
  broken hbody := by simp only [readResponse, hbody]
  limited body hbody h := by simp only [readResponse, hbody, if_pos h]
  refused body hbody hlimited hfailed := by
    simp only [readResponse, hbody, if_neg hlimited, hfailed, Bool.not_false, if_true]
  garbled body hbody h hnone := by
    simp only [readResponse, hbody, if_neg (not_limited_of_success h), h, Bool.not_true,
      Bool.false_eq_true, if_false, hnone]
  miscounted body es hbody h hes hcount := by
    rw [readResponse_decoded hbody h hes, checkBatch, length_inOrder, if_neg hcount]
  placed body es hbody h hes hcount := by
    refine ⟨inOrder es, ?_, by rw [length_inOrder, hcount], ?_, inOrder_unlabelled⟩
    · rw [readResponse_decoded hbody h hes, checkBatch, length_inOrder, if_pos hcount]
    · exact fun hperm e he => inOrder_places (hcount ▸ hperm) he

section
variable {p : OpenAi} {send : Transport} {texts : List Text} {request : Request}
  {response : Response}

theorem embedBatch_answered (htexts : texts ≠ []) (hrequest : p.request? texts = some request)
    (hsend : send request = some response) (decode : Decoder) :
    p.embedBatch send texts decode = ([request], readResponse texts.length response decode) := by
  rw [embedBatch, if_neg (by simpa using htexts), hrequest]
  simp only [hsend]

end

/-- Vectors come back in the order of the texts, however the body of an answer is decoded. No texts
need no request; an answered request ends as the answer says, and if the answer has an entry for
each text, each vector is in the place that its label names, or in the place it was sent in if there
are no labels. -/
theorem vectors_in_order (p : OpenAi) (send : Transport) (decode : Decoder) :
    p.embedBatch send [] decode = ([], .ok []) ∧
    ∀ texts request response, texts ≠ [] → p.request? texts = some request →
      send request = some response →
      ∃ result, p.embedBatch send texts decode = ([request], result) ∧
        Yields decode texts.length response result := by
  refine ⟨rfl, ?_⟩
  intro texts request response htexts hrequest hsend
  exact ⟨_, embedBatch_answered htexts hrequest hsend decode,
    readResponse_yields decode texts.length response⟩

/-- A server on this machine, two texts, and the answers that it may have for them. -/
def sample : OpenAi := .ofBaseUrl none "http://localhost" "m"

def sampleTexts : List Text := [['a'], ['b']]

def sampleAnswer (first second : String) : Response where
  status := 200
  body := ("\x7b\"data\":[\x7b\"index\":" ++ first ++ ",\"embedding\":[1]\x7d,\x7b\"index\":" ++
    second ++ ",\"embedding\":[2]\x7d]\x7d").toList

def two : Binary32 := ⟨0x40000000⟩

def swapped : Response := sampleAnswer "1" "0"

def repeated : Response := sampleAnswer "0" "0"

theorem sample_text (first second : String) :
    (sampleAnswer first second).text = some (sampleAnswer first second).body := rfl

theorem sample_entries :
    (sample.request? sampleTexts).isSome ∧
    entries? swapped.body = some [⟨some 1, [.one]⟩, ⟨some 0, [two]⟩] ∧
    entries? repeated.body = some [⟨some 0, [.one]⟩, ⟨some 0, [two]⟩] := by
  decide +kernel

theorem vectors_in_order_swapped :
    ∃ request vectors, sample.request? sampleTexts = some request ∧
      sample.embedBatch (fun _ => some swapped) sampleTexts = ([request], .ok vectors) ∧
      vectors.length = 2 ∧ vectors[0]? = some [two] ∧ vectors[1]? = some [.one] := by
  obtain ⟨hsome, hes, -⟩ := sample_entries
  obtain ⟨request, hrequest⟩ := Option.isSome_iff_exists.mp hsome
  obtain ⟨-, hanswered⟩ := vectors_in_order sample (fun _ => some swapped) entries?
  obtain ⟨_, hbatch, hyields⟩ := hanswered sampleTexts request swapped (by decide) hrequest rfl
  obtain ⟨vectors, rfl, hlength, hplaced, -⟩ := hyields.placed _ _ (sample_text "1" "0") rfl hes rfl
  have hperm : List.Perm [1, 0] (List.range 2) := by decide
  exact ⟨request, vectors, hrequest, hbatch, hlength,
    hplaced hperm ⟨some 0, [two]⟩ (by simp), hplaced hperm ⟨some 1, [.one]⟩ (by simp)⟩

/-- Each vector is that of an entry which is labelled with its place. -/
def Matches (es : List Entry) (vectors : List Embedding) : Prop :=
  ∀ i < vectors.length, ∃ e ∈ es, e.label = some i ∧ vectors[i]? = some e.vector

theorem matches_iff {es : List Entry} (hlabels : ∀ e ∈ es, e.label.isSome) :
    Matches es (inOrder es) ↔ (es.map Entry.index).Perm (List.range es.length) := by
  unfold Matches
  rw [length_inOrder]
  constructor
  · intro hmatches
    -- As many entries as places, and each place is named: so each is named once.
    have hsubset : List.range es.length ⊆ es.map Entry.index := by
      intro i hi
      obtain ⟨e, he, hlabel, -⟩ := hmatches i (List.mem_range.mp hi)
      exact List.mem_map.mpr ⟨e, he, by rw [Entry.index, hlabel, Option.getD_some]⟩
    exact ((List.subperm_of_subset List.nodup_range hsubset).perm_of_length_le (by simp)).symm
  · intro hperm i hi
    obtain ⟨e, he, rfl⟩ := List.mem_map.mp (hperm.mem_iff.mpr (List.mem_range.mpr hi))
    obtain ⟨label, hlabel⟩ := Option.isSome_iff_exists.mp (hlabels e he)
    exact ⟨e, he, by rw [Entry.index, hlabel, Option.getD_some], inOrder_places hperm he⟩

/-- An answer with labels is accepted just if it has an entry for each text. So what is accepted
matches its labels exactly if they name each place once. -/
theorem labels_obeyed_iff (p : OpenAi) (send : Transport) (decode : Decoder) {texts : List Text}
    {request : Request} {response : Response} {body : Text} {es : List Entry} (htexts : texts ≠ [])
    (hrequest : p.request? texts = some request) (hsend : send request = some response)
    (hbody : response.text = some body) (hsuccess : response.isSuccess)
    (hes : decode body = some es) (hlabels : ∀ e ∈ es, e.label.isSome) :
    ((∃ vectors, (p.embedBatch send texts decode).2 = .ok vectors) ↔
      es.length = texts.length) ∧
    ((∀ vectors, (p.embedBatch send texts decode).2 = .ok vectors → Matches es vectors) ↔
      (es.length = texts.length → (es.map Entry.index).Perm (List.range texts.length))) := by
  rw [embedBatch_answered htexts hrequest hsend]
  dsimp only
  rw [readResponse_decoded hbody hsuccess hes, checkBatch, length_inOrder]
  by_cases hcount : es.length = texts.length
  · rw [if_pos hcount, ← hcount]
    refine ⟨by simp, ?_⟩
    rw [← matches_iff hlabels]
    simp
  · rw [if_neg hcount]
    simp [hcount]

theorem labels_obeyed_iff_swapped : ∃ vectors,
    (sample.embedBatch (fun _ => some swapped) sampleTexts).2 = .ok vectors ∧
      Matches [⟨some 1, [.one]⟩, ⟨some 0, [two]⟩] vectors := by
  obtain ⟨hsome, hes, -⟩ := sample_entries
  obtain ⟨request, hrequest⟩ := Option.isSome_iff_exists.mp hsome
  obtain ⟨haccepted, hmatches⟩ := labels_obeyed_iff sample (fun _ => some swapped)
    entries? (by decide) hrequest rfl (sample_text "1" "0") rfl hes (by decide)
  obtain ⟨vectors, hvectors⟩ := haccepted.mpr rfl
  exact ⟨vectors, hvectors, hmatches.mpr (fun _ => by decide) vectors hvectors⟩

/-- Two entries for the first place are accepted, and the second text gets one of them. -/
theorem repeated_label_accepted :
    repeated.text = some repeated.body ∧
    entries? repeated.body = some [⟨some 0, [.one]⟩, ⟨some 0, [two]⟩] ∧
    (sample.embedBatch (fun _ => some repeated) sampleTexts).2 = .ok [[.one], [two]] ∧
    ¬ Matches [⟨some 0, [.one]⟩, ⟨some 0, [two]⟩] [[.one], [two]] := by
  obtain ⟨hsome, -, hes⟩ := sample_entries
  obtain ⟨request, hrequest⟩ := Option.isSome_iff_exists.mp hsome
  have hbody : repeated.text = some repeated.body := sample_text "0" "0"
  refine ⟨hbody, hes, ?_, fun hmatches => ?_⟩
  · rw [embedBatch_answered (by decide) hrequest rfl, readResponse_decoded hbody rfl hes,
      inOrder_ascending (by decide)]
    rfl
  · exact absurd (hmatches 1 (by decide)) (by decide)

end CodeIndex.OpenAi
