import Yuanlei.Chunking.HardSplit
import Mathlib.Data.List.Chain
import Mathlib.Data.List.Dedup
import Mathlib.Data.List.Sort
import Mathlib.Data.List.Infix

/-!
# Merging sections

`naive_merge` of `nlp.py`: sections are added to the last chunk while it stays below a
threshold, and a new chunk starts with the end of the chunk before it.  Texts between backticks
in the delimiter are delimiters of their own, at which the sections are cut instead.

Main results:

- `naiveMerge`: the chunks of a list of sections.
- `addChunk_merge`: one section more.
-/

namespace Yuanlei.Chunking

open PosixPath (Text)
open PyText (stripChars)

/-- A section and its layout tag. -/
abbrev Section := Text × Text

/-! ## Position tags -/

def isTagPage (c : Char) : Bool :=
  ('0' ≤ c && c ≤ '9') || c == '-'

def isTagCoordinate (c : Char) : Bool :=
  ('0' ≤ c && c ≤ '9') || c == '.' || c == '\t'

/-- The length of a match of `@@[0-9-]+\t[0-9.\t]+##` at the start of a text. -/
def pdfTagLength : Text → Option Nat
  | '@' :: '@' :: t =>
    let pages := t.takeWhile isTagPage
    match t.dropWhile isTagPage with
    | '\t' :: u =>
      let coordinates := u.takeWhile isTagCoordinate
      match u.dropWhile isTagCoordinate with
      | '#' :: '#' :: _ =>
        if pages = [] ∨ coordinates = [] then none
        else some (2 + pages.length + 1 + coordinates.length + 2)
      | _ => none
    | _ => none
  | _ => none

/-- The text without tags; the first argument counts the characters of the tag that is being
passed. -/
def removePdfTagsFrom : Nat → Text → Text
  | _, [] => []
  | skip + 1, _ :: t => removePdfTagsFrom skip t
  | 0, c :: t =>
    match pdfTagLength (c :: t) with
    | some length => removePdfTagsFrom (length - 1) t
    | none => c :: removePdfTagsFrom 0 t

def removePdfTags (text : Text) : Text :=
  removePdfTagsFrom 0 text

/-! ## Delimiters between backticks -/

/-- The texts between two backticks; the first argument counts the characters of the match that
is being passed. -/
def extractCustomDelimitersFrom : Nat → Text → List Text
  | _, [] => []
  | skip + 1, _ :: t => extractCustomDelimitersFrom skip t
  | 0, c :: t =>
    let body := t.takeWhile (· ≠ '\x60')
    if c = '\x60' ∧ body ≠ [] ∧ (t.drop body.length).head? = some '\x60' then
      body :: extractCustomDelimitersFrom (body.length + 1) t
    else extractCustomDelimitersFrom 0 t

def extractCustomDelimiters (delimiter : Text) : List Text :=
  extractCustomDelimitersFrom 0 delimiter

/-- The texts between the delimiters, of which the first one that matches counts. -/
def splitAtDelimiters (delimiters : List Text) : Nat → Text → Text → List Text
  | _, part, [] => [part]
  | skip + 1, part, _ :: t => splitAtDelimiters delimiters skip part t
  | 0, part, c :: t =>
    match delimiters.find? (· <+: c :: t) with
    | some delimiter => part :: splitAtDelimiters delimiters (delimiter.length - 1) [] t
    | none => splitAtDelimiters delimiters 0 (part ++ [c]) t

/-- The parts of a section at its delimiters, the longest delimiter first. -/
def customParts (delimiters : List Text) (sec : Text) : List Text :=
  let sorted := delimiters.dedup.insertionSort fun a b => b.length ≤ a.length
  (splitAtDelimiters sorted 0 [] sec).filter (· ∉ sorted)

/-- A chunk for a part between delimiters. -/
def customChunk (pos part : Text) : Text :=
  let text := '\n' :: part
  let localPos := if 8 ≤ countTokens text then pos else []
  if localPos ≠ [] ∧ ¬ localPos <:+: text then text ++ localPos else text

/-! ## The merge -/

/-- The chunks before the last one, the last one, and the number of its tokens. -/
structure MergeState where
  closed : List Text
  current : Text
  tokens : Nat

/-- The chunks of a state. -/
def MergeState.chunks (st : MergeState) : List Text :=
  st.closed ++ [st.current]

/-- The end of the last chunk that the next one repeats. -/
def overlapOf (overlap : Nat) (chunk : Text) : Text :=
  let prev := removePdfTags chunk
  prev.drop (prev.length * (100 - overlap) / 100)

def addChunk (chunkTokenNum overlap : Nat) (st : MergeState) (text pos : Text) : MergeState :=
  let tnum := countTokens text
  let localPos := if tnum < 8 then [] else pos
  if st.current = [] ∨ chunkTokenNum * (100 - overlap) < st.tokens * 100 then
    let text := overlapOf overlap st.current ++ text
    let text := if localPos ≠ [] ∧ ¬ localPos <:+: text then text ++ localPos else text
    { closed := st.closed ++ [st.current], current := text, tokens := tnum }
  else
    let text := if localPos ≠ [] ∧ ¬ localPos <:+: st.current then text ++ localPos else text
    { st with current := st.current ++ text, tokens := st.tokens + tnum }

/-- One section of the loop. -/
def mergeSection (chunkTokenNum overlap : Nat) (st : MergeState) (sec : Section) : MergeState :=
  if sec.1 = [] then st else addChunk chunkTokenNum overlap st ('\n' :: sec.1) sec.2

/-- The state after all sections. -/
def mergeSections (chunkTokenNum overlap : Nat) (sections : List Section) : MergeState :=
  sections.foldl (mergeSection chunkTokenNum overlap) { closed := [], current := [], tokens := 0 }

def naiveMerge (sections : List Section) (chunkTokenNum : Int) (delimiter : Text)
    (overlappedPercent : Int) : List Text :=
  if sections = [] then []
  else
    let overlap := (max 0 (min overlappedPercent 99)).toNat
    let customDelimiters := extractCustomDelimiters delimiter
    if customDelimiters ≠ [] then
      sections.flatMap fun sec =>
        ((customParts customDelimiters sec.1).map (customChunk sec.2)).filter (stripChars · ≠ [])
    else if chunkTokenNum ≤ 0 then
      let merged := ['\n'].intercalate
        ((sections.map Prod.fst).filter fun sec => sec ≠ [] && stripChars sec ≠ [])
      if stripChars merged = [] then [] else [merged]
    else
      (mergeSections chunkTokenNum.toNat overlap sections).chunks.filter (stripChars · ≠ [])

/-! ## What a chunk is made of -/

/-- A merged chunk: the overlap with which it starts, and its own text. -/
structure Merged where
  overlap : Text
  own : Text

/-- The text of a merged chunk. -/
def Merged.text (m : Merged) : Text :=
  m.overlap ++ m.own

/-- The second chunk starts with an end of the first one without its tags. -/
def Continues (a b : Merged) : Prop :=
  b.overlap <:+ removePdfTags a.text

/-- The chunk with which the merge starts. -/
def Merged.empty : Merged :=
  ⟨[], []⟩

/-- The chunks of a state are the merged ones behind the empty chunk, and they hold the
sections that were added. -/
structure MergeInv (overlap : Nat) (st : MergeState) (merged : List Merged)
    (added : List Text) : Prop where
  chunks : st.chunks = [] :: merged.map Merged.text
  notBlank : ∀ m ∈ merged, stripChars m.text ≠ []
  chain : (Merged.empty :: merged).IsChain Continues
  own : (merged.flatMap fun m => nonspace m.own) = added.flatMap nonspace
  alone : overlap = 0 → ∀ m ∈ merged, m.overlap = []

theorem overlapOf_suffix (overlap : Nat) (chunk : Text) :
    overlapOf overlap chunk <:+ removePdfTags chunk :=
  List.drop_suffix ..

theorem overlapOf_zero (chunk : Text) : overlapOf 0 chunk = [] := by
  simp [overlapOf]

variable {t : Text}

/-- A text that is not blank does not become blank. -/
theorem not_blank_append {s : Text} (h : stripChars t ≠ []) : stripChars (s ++ t) ≠ [] := by
  intro hblank
  apply h
  rw [← nonspace_eq_nil_iff, nonspace_append] at hblank
  exact nonspace_eq_nil_iff.mp (List.append_eq_nil_iff.mp hblank).2

theorem newline_cons_not_blank (h : stripChars t ≠ []) : stripChars ('\n' :: t) ≠ [] :=
  not_blank_append (s := ['\n']) h

theorem nonspace_newline_cons (t : Text) : nonspace ('\n' :: t) = nonspace t :=
  rfl

variable {overlap : Nat} {st : MergeState} {merged : List Merged} {added : List Text}

section

variable (h : MergeInv overlap st merged added)
include h

theorem MergeInv.getLast_text {a : Merged}
    (ha : a ∈ (Merged.empty :: merged).getLast?) : a.text = st.current := by
  have hchunks : st.closed ++ [st.current] = (Merged.empty :: merged).map Merged.text := h.chunks
  have hlast := congrArg List.getLast? hchunks
  rw [List.getLast?_concat, List.getLast?_map, Option.mem_def.mp ha] at hlast
  exact (Option.some.inj hlast).symm

variable {sec : Text}

theorem MergeInv.start (hsec : stripChars sec ≠ []) (tokens : Nat) :
    MergeInv overlap
      { closed := st.closed ++ [st.current]
        current := overlapOf overlap st.current ++ '\n' :: sec, tokens }
      (merged ++ [⟨overlapOf overlap st.current, '\n' :: sec⟩]) (added ++ [sec]) := by
  constructor
  case chunks =>
    have hchunks := h.chunks
    simp only [MergeState.chunks] at hchunks ⊢
    simp [hchunks, Merged.text]
  case notBlank =>
    intro m hm
    rcases List.mem_append.mp hm with hold | hself
    · exact h.notBlank m hold
    · rw [List.mem_singleton.mp hself]
      exact not_blank_append (newline_cons_not_blank hsec)
  case chain =>
    rw [← List.cons_append, List.isChain_append]
    refine ⟨h.chain, List.isChain_singleton _, ?_⟩
    intro a ha b hb
    obtain rfl : b = ⟨overlapOf overlap st.current, '\n' :: sec⟩ := by simpa using hb.symm
    rw [Continues, h.getLast_text ha]
    exact overlapOf_suffix overlap st.current
  case own =>
    rw [List.flatMap_append, h.own]
    simp [nonspace_newline_cons]
  case alone =>
    intro hzero m hm
    rcases List.mem_append.mp hm with hold | hself
    · exact h.alone hzero m hold
    · rw [List.mem_singleton.mp hself, hzero]
      exact overlapOf_zero _

/-- The last chunk grows by a section. -/
theorem MergeInv.extend (hcurrent : st.current ≠ []) (hsec : stripChars sec ≠ []) (tokens : Nat) :
    ∃ merged', MergeInv overlap { st with current := st.current ++ '\n' :: sec, tokens } merged'
      (added ++ [sec]) := by
  have hchunks : st.closed ++ [st.current] = [] :: merged.map Merged.text := h.chunks
  rcases List.eq_nil_or_concat' merged with hnil | ⟨front, last, hfront⟩
  case inl =>
    rw [hnil] at hchunks
    have hlast := congrArg List.getLast? hchunks
    rw [List.getLast?_concat] at hlast
    exact absurd (Option.some.inj hlast) hcurrent
  case inr =>
    subst hfront
    have hsplit : st.closed = [] :: front.map Merged.text ∧ st.current = last.text := by
      rw [List.map_append, ← List.cons_append] at hchunks
      have hparts := List.append_inj' hchunks rfl
      exact ⟨hparts.1, List.singleton_inj.mp hparts.2⟩
    have hlinked := List.isChain_append.mp (List.cons_append ▸ h.chain)
    refine ⟨front ++ [⟨last.overlap, last.own ++ '\n' :: sec⟩], ?_, ?_, ?_, ?_, ?_⟩
    · simp [MergeState.chunks, hsplit.1, hsplit.2, Merged.text]
    · intro m hm
      rcases List.mem_append.mp hm with hold | hself
      · exact h.notBlank m (List.mem_append_left _ hold)
      · rw [List.mem_singleton.mp hself, Merged.text, ← List.append_assoc]
        exact not_blank_append (newline_cons_not_blank hsec)
    · rw [← List.cons_append, List.isChain_append]
      refine ⟨hlinked.1, List.isChain_singleton _, ?_⟩
      intro a ha b hb
      obtain rfl : b = ⟨last.overlap, last.own ++ '\n' :: sec⟩ := by simpa using hb.symm
      exact hlinked.2.2 a ha last rfl
    · rw [List.flatMap_append, List.flatMap_append, ← h.own]
      simp [nonspace_newline_cons]
    · intro hzero m hm
      rcases List.mem_append.mp hm with hold | hself
      · exact h.alone hzero m (List.mem_append_left _ hold)
      · rw [List.mem_singleton.mp hself]
        exact h.alone hzero last (List.mem_append_right _ (List.mem_singleton_self last))

theorem addChunk_merge (chunkTokenNum : Nat) (hsec : stripChars sec ≠ []) :
    ∃ merged', MergeInv overlap (addChunk chunkTokenNum overlap st ('\n' :: sec) []) merged'
      (added ++ [sec]) := by
  simp only [addChunk, ite_self, ne_eq, not_true_eq_false, false_and, if_false]
  by_cases hnew : st.current = [] ∨ chunkTokenNum * (100 - overlap) < st.tokens * 100
  · rw [if_pos hnew]
    exact ⟨_, h.start hsec _⟩
  · rw [if_neg hnew]
    exact h.extend (fun hcurrent => hnew (Or.inl hcurrent)) hsec _

end

/-- The sections that a merge adds. -/
def texts (sections : List Section) : List Text :=
  sections.map Prod.fst

theorem mergeSections_merge (chunkTokenNum overlap : Nat) (sections : List Section)
    (hplain : ∀ sec ∈ sections, sec.2 = []) (hfull : ∀ sec ∈ sections, stripChars sec.1 ≠ []) :
    ∃ merged, MergeInv overlap (mergeSections chunkTokenNum overlap sections) merged
      (texts sections) := by
  suffices h : ∀ (st : MergeState) (merged : List Merged) (added : List Text),
      MergeInv overlap st merged added →
      ∃ merged', MergeInv overlap (sections.foldl (mergeSection chunkTokenNum overlap) st) merged'
        (added ++ texts sections) by
    have hstart : MergeInv overlap ⟨[], [], 0⟩ [] [] :=
      { chunks := rfl, notBlank := by simp, chain := List.isChain_singleton _, own := rfl
        alone := by simp }
    exact h _ [] [] hstart
  induction sections with
  | nil =>
    intro st merged added h
    exact ⟨merged, by simpa [texts] using h⟩
  | cons sec rest ih =>
    intro st merged added h
    have hsec := hfull sec (List.mem_cons_self ..)
    have hone : sec.1 ≠ [] := by
      intro hnil
      rw [hnil] at hsec
      exact hsec rfl
    have hstep : mergeSection chunkTokenNum overlap st sec
        = addChunk chunkTokenNum overlap st ('\n' :: sec.1) [] := by
      rw [mergeSection, if_neg hone, hplain sec (List.mem_cons_self ..)]
    obtain ⟨merged', h'⟩ := addChunk_merge h chunkTokenNum hsec
    rw [List.foldl_cons, hstep]
    obtain ⟨merged'', h''⟩ := ih (fun s hs => hplain s (List.mem_cons_of_mem _ hs))
      (fun s hs => hfull s (List.mem_cons_of_mem _ hs)) _ merged' _ h'
    exact ⟨merged'', by simpa [texts] using h''⟩

/-! ## The chunks -/

variable {delimiter : Text}

theorem extractCustomDelimiters_eq_nil (h : '\x60' ∉ delimiter) :
    extractCustomDelimiters delimiter = [] := by
  suffices hall : ∀ skip, extractCustomDelimitersFrom skip delimiter = [] from hall 0
  induction delimiter with
  | nil =>
    intro skip
    cases skip <;> rfl
  | cons c t ih =>
    have hc : c ≠ '\x60' := fun hc => h (hc ▸ List.mem_cons_self ..)
    have ht := ih fun hmem => h (List.mem_cons_of_mem c hmem)
    intro skip
    cases skip with
    | zero => simp [extractCustomDelimitersFrom, hc, ht]
    | succ skip => exact ht skip

theorem nonspace_intercalate_newline (ts : List Text) :
    nonspace (['\n'].intercalate ts) = ts.flatMap nonspace := by
  induction ts with
  | nil => rfl
  | cons t ts ih =>
    cases ts with
    | nil => simp
    | cons t' ts =>
      have hnewline : nonspace ['\n'] = [] := rfl
      rw [List.intercalate_cons_cons, nonspace_append, nonspace_append, ih, hnewline,
        List.append_nil]
      rfl

/-- The chunks of a merge. -/
structure MergedChunks (merged : List Merged) (added : List Text) : Prop where
  notBlank : ∀ m ∈ merged, stripChars m.text ≠ []
  chain : (Merged.empty :: merged).IsChain Continues
  own : (merged.flatMap fun m => nonspace m.own) = added.flatMap nonspace

/-- Every chunk is an overlap, which is an end of the chunk before it, and a text of its own;
the texts of their own hold the sections. -/
theorem naiveMerge_merge (sections : List Section) (chunkTokenNum : Int)
    (hticks : '\x60' ∉ delimiter) (overlappedPercent : Int)
    (hplain : ∀ sec ∈ sections, sec.2 = []) (hfull : ∀ sec ∈ sections, stripChars sec.1 ≠ []) :
    ∃ merged, merged.map Merged.text
        = naiveMerge sections chunkTokenNum delimiter overlappedPercent ∧
      MergedChunks merged (texts sections) ∧
      (overlappedPercent ≤ 0 → ∀ m ∈ merged, m.overlap = []) := by
  by_cases hnone : sections = []
  · subst hnone
    refine ⟨[], by simp [naiveMerge], ⟨by simp, List.isChain_singleton _, rfl⟩, by simp⟩
  have hcustom := extractCustomDelimiters_eq_nil hticks
  rw [naiveMerge, if_neg hnone]
  simp only [hcustom, ne_eq, not_true_eq_false, if_false]
  by_cases hwhole : chunkTokenNum ≤ 0
  case pos =>
    -- Without a limit all sections become one chunk.
    rw [if_pos hwhole]
    have hkept : ((sections.map Prod.fst).filter fun sec => sec ≠ [] && stripChars sec ≠ [])
        = texts sections := by
      refine List.filter_eq_self.mpr ?_
      intro sec hsec
      obtain ⟨pair, hpair, rfl⟩ := List.mem_map.mp hsec
      have hpart := hfull pair hpair
      have hone : pair.1 ≠ [] := by
        intro hnil
        rw [hnil] at hpart
        exact hpart rfl
      simp [hone, hpart]
    rw [hkept]
    have hown : nonspace (['\n'].intercalate (texts sections)) = (texts sections).flatMap nonspace :=
      nonspace_intercalate_newline _
    by_cases hblank : stripChars (['\n'].intercalate (texts sections)) = []
    · rw [if_pos hblank]
      rw [nonspace_eq_nil_iff.mpr hblank] at hown
      exact ⟨[], rfl, ⟨by simp, List.isChain_singleton _, hown⟩, by simp⟩
    · rw [if_neg hblank]
      refine ⟨[⟨[], ['\n'].intercalate (texts sections)⟩], rfl, ⟨?_, ?_, ?_⟩, by simp⟩
      · simpa [Merged.text] using hblank
      · refine List.isChain_pair.mpr ?_
        exact List.nil_suffix
      · simpa using hown
  case neg =>
    rw [if_neg hwhole]
    obtain ⟨merged, h⟩ := mergeSections_merge chunkTokenNum.toNat
      (max 0 (min overlappedPercent 99)).toNat sections hplain hfull
    refine ⟨merged, ?_, ⟨h.notBlank, h.chain, h.own⟩, fun hp => h.alone (by omega)⟩
    have hkept : ∀ t ∈ merged.map Merged.text, decide (stripChars t ≠ []) = true := by
      intro t ht
      obtain ⟨m, hm, rfl⟩ := List.mem_map.mp ht
      exact decide_eq_true (h.notBlank m hm)
    rw [h.chunks, List.filter_cons_of_neg (by simp [stripChars]), List.filter_eq_self.mpr hkept]

end Yuanlei.Chunking
