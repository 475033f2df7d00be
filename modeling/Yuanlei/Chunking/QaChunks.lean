import Yuanlei.Chunking.HardSplit
import Yuanlei.Chunking.Patterns
import Yuanlei.Lib.Packing
import Yuanlei.Lib.PyFind
import Yuanlei.Lib.PySplit
import Yuanlei.Lib.TextReplace

/-!
# Chunks of question and answer

`_to_qa_chunk` and `_split_long_qa_chunks` of `parsers/qa.py`: a pair is written as one
text, and a text that is too long is taken apart again at the marker of the answer, so that every
piece of the answer gets the question in front of it.

Main results:

- `toQaChunk`: the text of a pair.
- `splitLongQaChunks`: the chunks below a limit.
-/

namespace Yuanlei.Chunking.Qa

open PosixPath (Text)
open PyText (isSpace stripChars splitLines splitMax find)

/-! ## Labels -/

/-- The labels that are taken away from questions and answers. -/
def labels : List Text :=
  ["问题", "答案", "回答", "user", "assistant", "Q", "A", "Question", "Answer", "问", "答"].map
    String.toList

def startsWithLabel : Text → Text → Bool
  | [], _ => true
  | _ :: _, [] => false
  | p :: label, c :: t => matchesLetter p c && startsWithLabel label t

/-- A character of `[\t:： ]`. -/
def isLabelEnd (c : Char) : Bool :=
  c == '\t' || c == ':' || c == '：' || c == ' '

def rmPrefix (text : Text) : Text :=
  let t := stripChars text
  match labels.find? fun label =>
      startsWithLabel label t && (t.drop label.length).head?.any isLabelEnd with
  | some label => (t.drop label.length).dropWhile isLabelEnd
  | none => t

/-! ## The text of a pair -/

def questionLabel (eng : Bool) : Text :=
  if eng then "Question: ".toList else "问题：".toList

def answerLabel (eng : Bool) : Text :=
  if eng then "Answer: ".toList else "回答：".toList

def toQaChunk (eng : Bool) (question answer : Text) : Text :=
  ['\t'].intercalate [questionLabel eng ++ rmPrefix question, answerLabel eng ++ rmPrefix answer]

/-! ## Cutting answers -/

def hardSplitText (text : Text) (maxChars : Nat) : List Text :=
  (Packing.cutEvery maxChars text.length text).filter (stripChars · ≠ [])

def splitAnswerByLines (answer : Text) (maxChars : Nat) : List Text :=
  let lines := (splitLines answer).filter (stripChars · ≠ [])
  if lines = [] then (if stripChars answer = [] then [] else [answer])
  else Packing.pack ['\n'] (hardSplitText · maxChars) maxChars lines []

def splitAnswerByParagraphs (answer : Text) (maxChars : Nat) : List Text :=
  let paragraphs := (splitMax ['\n', '\n'] answer.length answer).flatMap cleanedChunk
  if paragraphs = [] then (if stripChars answer = [] then [] else [answer])
  else Packing.pack ['\n', '\n'] (splitAnswerByLines · maxChars) maxChars paragraphs []

/-! ## Long chunks -/

def qaQuestionPrefixes : List Text :=
  [questionLabel false, questionLabel true]

def qaAnswerPrefixes : List Text :=
  [answerLabel false, answerLabel true]

def splitQaPrefix (text : Text) (prefixes : List Text) : Text × Text :=
  match prefixes.find? (· <+: text) with
  | some label => (label, stripChars (text.drop label.length))
  | none => ([], stripChars text)

/-- The marker in front of the answer, in the language of the question. -/
def markerOf (text : Text) : Option Text :=
  if questionLabel false <+: text then some ('\t' :: answerLabel false)
  else if questionLabel true <+: text then some ('\t' :: answerLabel true)
  else none

/-- The round of `_split_long_qa_chunks` for one chunk. -/
def splitLongQaChunk (maxChars : Nat) (chunk : Text) : List Text :=
  let text := stripChars chunk
  if text = [] then []
  else if text.length ≤ maxChars then [text]
  else
    match (markerOf text).bind fun marker => find marker text 0 with
    | none => hardSplitText text maxChars
    | some sepPos =>
      let (qPrefix, qBody) := splitQaPrefix (text.take sepPos) qaQuestionPrefixes
      let (aPrefix, aBody) := splitQaPrefix (text.drop (sepPos + 1)) qaAnswerPrefixes
      if qBody = [] ∨ aBody = [] then hardSplitText text maxChars
      else if maxChars ≤ qPrefix.length + qBody.length + aPrefix.length + 1 then
        hardSplitText text maxChars
      else
        let maxAnswerChars := maxChars - qPrefix.length - qBody.length - aPrefix.length - 1
        (splitAnswerByParagraphs aBody maxAnswerChars).map fun subAnswer =>
          qPrefix ++ qBody ++ '\t' :: (aPrefix ++ subAnswer)

def splitLongQaChunks (chunks : List Text) (maxChars : Int) : List Text :=
  if maxChars ≤ 0 then chunks.flatMap cleanedChunk
  else chunks.flatMap (splitLongQaChunk maxChars.toNat)

/-! ## The pieces of an answer -/

theorem nonspace_filter_not_blank (ts : List Text) :
    (ts.filter (stripChars · ≠ [])).flatMap nonspace = ts.flatMap nonspace := by
  induction ts with
  | nil => rfl
  | cons t ts ih =>
    by_cases hblank : stripChars t = []
    · rw [List.filter_cons_of_neg (by simpa using hblank), ih, List.flatMap_cons,
        nonspace_eq_nil_iff.mpr hblank, List.nil_append]
    · rw [List.filter_cons_of_pos (by simpa using hblank), List.flatMap_cons, List.flatMap_cons, ih]

variable {maxChars : Nat}

theorem hardSplitText_nonspace (hmax : 0 < maxChars) (text : Text) :
    (hardSplitText text maxChars).flatMap nonspace = nonspace text := by
  rw [hardSplitText, nonspace_filter_not_blank]
  conv_rhs => rw [← Packing.cutEvery_flatten hmax text.length text (le_refl _)]
  rw [nonspace, List.filter_flatten]
  rfl

variable {piece : Text}

theorem hardSplitText_length_le {text : Text}
    (h : piece ∈ hardSplitText text maxChars) : piece.length ≤ maxChars :=
  Packing.length_le_of_mem_cutEvery (List.mem_of_mem_filter h)

variable {c : Char}

theorem isSpace_of_isLineBreak (h : PyText.isLineBreak c = true) : isSpace c = true := by
  simp only [PyText.isLineBreak, Bool.or_eq_true, Bool.and_eq_true, decide_eq_true_eq,
    beq_iff_eq] at h
  simp only [isSpace, Bool.or_eq_true, Bool.and_eq_true, decide_eq_true_eq, beq_iff_eq]
  omega

theorem nonspace_cons_space (h : isSpace c = true) (t : Text) :
    nonspace (c :: t) = nonspace t := by
  simp [nonspace, h]

theorem splitLinesFrom_nonspace (line t : Text) :
    (PyText.splitLinesFrom line t).flatMap nonspace = nonspace line.reverse ++ nonspace t := by
  fun_induction PyText.splitLinesFrom line t with
  | case1 => rfl
  | case2 line hline => simp
  | case3 line t ih =>
    rw [List.flatMap_cons, ih]
    rfl
  | case4 line c t _ hbreak ih =>
    rw [List.flatMap_cons, ih, nonspace_cons_space (isSpace_of_isLineBreak hbreak)]
    rfl
  | case5 line c t _ hbreak ih =>
    rw [ih, List.reverse_cons, nonspace_append, List.append_assoc, ← nonspace_append]
    rfl

theorem splitLines_nonspace (t : Text) : (splitLines t).flatMap nonspace = nonspace t :=
  splitLinesFrom_nonspace [] t

/-- The parts between blank separators hold all of a text but white space. -/
theorem splitMax_nonspace {sep : Text} (hsep : sep ≠ []) (hblank : stripChars sep = []) (n : Nat)
    (t : Text) : (splitMax sep n t).flatMap nonspace = nonspace t := by
  induction n generalizing t with
  | zero => simp [splitMax]
  | succ n ih =>
    rw [splitMax]
    cases hcut : PyText.partition sep t with
    | none => simp
    | some p =>
      have hsplit := ((PyText.partition_eq_some_iff hsep).mp hcut).1
      rw [List.flatMap_cons, ih, hsplit, nonspace_append, nonspace_append,
        nonspace_eq_nil_iff.mpr hblank, List.nil_append]

theorem lines_nonspace (answer : Text) :
    ((splitLines answer).filter (stripChars · ≠ [])).flatMap nonspace = nonspace answer := by
  rw [nonspace_filter_not_blank, splitLines_nonspace]

theorem paragraphs_nonspace (answer : Text) :
    ((splitMax ['\n', '\n'] answer.length answer).flatMap cleanedChunk).flatMap nonspace
      = nonspace answer := by
  rw [List.flatMap_assoc]
  simp only [cleanedChunk_nonspace]
  exact splitMax_nonspace (by simp) rfl _ _

variable {answer : Text}

theorem blank_of_no_units {units : List Text}
    (h : units.flatMap nonspace = nonspace answer) (hnone : units = []) :
    stripChars answer = [] := by
  rw [hnone] at h
  exact nonspace_eq_nil_iff.mp h.symm

theorem splitAnswerByLines_nonspace (hmax : 0 < maxChars) (answer : Text) :
    (splitAnswerByLines answer maxChars).flatMap nonspace = nonspace answer := by
  have hlines := lines_nonspace answer
  rw [splitAnswerByLines]
  split
  · rename_i hnone
    have hblank := blank_of_no_units hlines hnone
    rw [if_pos hblank, nonspace_eq_nil_iff.mpr hblank]
    rfl
  · refine (Packing.pack_filter _ rfl _ ?_ []).trans hlines
    intro line _ _
    exact hardSplitText_nonspace hmax line

theorem splitAnswerByParagraphs_nonspace (hmax : 0 < maxChars) (answer : Text) :
    (splitAnswerByParagraphs answer maxChars).flatMap nonspace = nonspace answer := by
  have hparts := paragraphs_nonspace answer
  rw [splitAnswerByParagraphs]
  split
  · rename_i hnone
    have hblank := blank_of_no_units hparts hnone
    rw [if_pos hblank, nonspace_eq_nil_iff.mpr hblank]
    rfl
  · refine (Packing.pack_filter _ rfl _ ?_ []).trans hparts
    intro paragraph _ _
    exact splitAnswerByLines_nonspace hmax paragraph

theorem splitAnswerByLines_length_le (hpiece : piece ∈ splitAnswerByLines answer maxChars) : piece.length ≤ maxChars := by
  rw [splitAnswerByLines] at hpiece
  split at hpiece
  · rename_i hnone
    rw [if_pos (blank_of_no_units (lines_nonspace answer) hnone)] at hpiece
    cases hpiece
  · exact Packing.pack_length_le _ (fun _ _ _ h => hardSplitText_length_le h) (Nat.zero_le _)
      piece hpiece

theorem splitAnswerByParagraphs_length_le {answer piece : Text} {maxChars : Nat}
    (hpiece : piece ∈ splitAnswerByParagraphs answer maxChars) : piece.length ≤ maxChars := by
  rw [splitAnswerByParagraphs] at hpiece
  split at hpiece
  · rename_i hnone
    rw [if_pos (blank_of_no_units (paragraphs_nonspace answer) hnone)] at hpiece
    cases hpiece
  · exact Packing.pack_length_le _ (fun _ _ _ h => splitAnswerByLines_length_le h) (Nat.zero_le _)
      piece hpiece

/-! ## The size of the chunks -/

theorem splitLongQaChunk_length_le {chunk : Text} (h : piece ∈ splitLongQaChunk maxChars chunk) :
    piece.length ≤ maxChars := by
  unfold splitLongQaChunk at h
  simp only at h
  split at h
  · cases h
  · split at h
    · rename_i hfits
      rw [List.mem_singleton.mp h]
      exact hfits
    · split at h
      · exact hardSplitText_length_le h
      · split at h
        · exact hardSplitText_length_le h
        · split at h
          · exact hardSplitText_length_le h
          · rename_i hroom
            obtain ⟨subAnswer, hsub, rfl⟩ := List.mem_map.mp h
            have hlength := splitAnswerByParagraphs_length_le hsub
            simp only [List.length_append, List.length_cons]
            omega

/-! ## Taking a text apart -/

/-- The marker in front of an answer. -/
def marker (eng : Bool) : Text :=
  '\t' :: answerLabel eng

variable (eng : Bool)

theorem splitQaPrefix_question (u : Text) :
    splitQaPrefix (questionLabel eng ++ u) qaQuestionPrefixes
      = (questionLabel eng, stripChars u) := by
  cases eng <;> simp [splitQaPrefix, qaQuestionPrefixes, questionLabel]

theorem splitQaPrefix_answer (v : Text) :
    splitQaPrefix (answerLabel eng ++ v) qaAnswerPrefixes = (answerLabel eng, stripChars v) := by
  cases eng <;> simp [splitQaPrefix, qaAnswerPrefixes, answerLabel]

theorem markerOf_question (u : Text) :
    markerOf (questionLabel eng ++ u) = some (marker eng) := by
  cases eng <;> simp [markerOf, questionLabel, marker]

theorem tab_not_mem_labels : '\t' ∉ questionLabel eng ∧ '\t' ∉ answerLabel eng := by
  cases eng <;> decide

variable {u : Text}

theorem marker_not_within_label {eng : Bool} (h : ¬ marker eng <:+: u) :
    ¬ marker eng <:+: questionLabel eng ++ u := by
  have hstart : ∀ x z, marker eng = x ++ z → x ≠ [] → ¬ x <:+: questionLabel eng := by
    intro x z hx hne hoccurs
    cases x with
    | nil => exact hne rfl
    | cons c x =>
      obtain ⟨rfl, -⟩ := List.cons.inj hx
      exact (tab_not_mem_labels eng).1 (hoccurs.subset (List.mem_cons_self ..))
  intro hoccurs
  rcases TextReplace.infix_append_cases hoccurs with hq | hu | ⟨x, z, hxz, hx, -, hq, -⟩
  · exact hstart (marker eng) [] (by simp) (List.cons_ne_nil _ _) hq
  · exact h hu
  · exact hstart x z hxz hx hq.isInfix

theorem splitLongQaChunk_at_marker {v : Text} (hu : ¬ marker eng <:+: u)
    (hstrip : stripChars (questionLabel eng ++ (u ++ (marker eng ++ v)))
      = questionLabel eng ++ (u ++ (marker eng ++ v)))
    (hlong : maxChars < (questionLabel eng ++ (u ++ (marker eng ++ v))).length) :
    splitLongQaChunk maxChars (questionLabel eng ++ (u ++ (marker eng ++ v))) =
      if stripChars u = [] ∨ stripChars v = [] ∨
          maxChars ≤ (questionLabel eng).length + (stripChars u).length
            + (answerLabel eng).length + 1 then
        hardSplitText (questionLabel eng ++ (u ++ (marker eng ++ v))) maxChars
      else
        (splitAnswerByParagraphs (stripChars v) (maxChars - (questionLabel eng).length
          - (stripChars u).length - (answerLabel eng).length - 1)).map fun subAnswer =>
            questionLabel eng ++ stripChars u ++ '\t' :: (answerLabel eng ++ subAnswer) := by
  have hfind : find (marker eng) (questionLabel eng ++ (u ++ (marker eng ++ v))) 0
      = some (questionLabel eng ++ u).length := by
    rw [← List.append_assoc]
    exact PyText.find_append (tab_not_mem_labels eng).2 (marker_not_within_label hu) v
  have htake : (questionLabel eng ++ (u ++ (marker eng ++ v))).take (questionLabel eng ++ u).length
      = questionLabel eng ++ u := by
    rw [← List.append_assoc, List.take_left]
  have hdrop : (questionLabel eng ++ (u ++ (marker eng ++ v))).drop
      ((questionLabel eng ++ u).length + 1) = answerLabel eng ++ v := by
    rw [← List.append_assoc, ← List.drop_drop, List.drop_left]
    rfl
  have hne : questionLabel eng ++ (u ++ (marker eng ++ v)) ≠ [] := by
    cases eng <;> simp [questionLabel]
  unfold splitLongQaChunk
  simp only [hstrip]
  rw [if_neg hne, if_neg (Nat.not_le_of_lt hlong), markerOf_question, Option.bind_some, hfind]
  simp only [htake, hdrop, splitQaPrefix_question, splitQaPrefix_answer]
  by_cases hblank : stripChars u = [] ∨ stripChars v = []
  · rw [if_pos hblank, if_pos (hblank.imp_right Or.inl)]
  · rw [if_neg hblank]
    by_cases hroom : maxChars ≤ (questionLabel eng).length + (stripChars u).length
        + (answerLabel eng).length + 1
    · rw [if_pos hroom, if_pos (Or.inr (Or.inr hroom))]
    · rw [if_neg hroom, if_neg]
      rintro (hu' | hv' | hroom')
      · exact hblank (Or.inl hu')
      · exact hblank (Or.inr hv')
      · exact hroom hroom'

end Yuanlei.Chunking.Qa
