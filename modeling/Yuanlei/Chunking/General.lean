import Yuanlei.Chunking.NaiveMerge
import Yuanlei.Lib.PySplit
import Yuanlei.Lib.TextReplace

/-!
# The general parser

`parsers/general.py`: a text is cut at its delimiter or at its line ends, the parts are merged,
and a merged chunk with too many tokens is cut again.

Main results:

- `General.chunkMarkdown_parts`: what the chunks of a text hold.
- `General.delimiters_and_tags_differ`: where they do not hold the parts.
-/

namespace Yuanlei.Chunking

open PosixPath (Text)
open PyText (stripChars splitLines splitMax)

/-- The settings of a parser; a value that is missing stands for `None` too. -/
structure ParserConfig where
  delimiter : Option Text
  chunkTokenNum : Option Int
  overlappedPercent : Option Int

/-- `parser_config.get("chunk_token_num", 512) or 512`. -/
def ParserConfig.tokenNum (config : ParserConfig) : Int :=
  match config.chunkTokenNum with
  | none => 512
  | some n => if n = 0 then 512 else n

/-- `parser_config.get("overlapped_percent", 0) or 0`. -/
def ParserConfig.overlap (config : ParserConfig) : Int :=
  config.overlappedPercent.getD 0

def unescapeDelimiter (delimiter : Text) : Text :=
  let t := TextReplace.replace ['\\', 'n'] ['\n'] delimiter
  let t := TextReplace.replace ['\\', 'r'] ['\r'] t
  let t := TextReplace.replace ['\\', 't'] ['\t'] t
  TextReplace.replace ['\\', '\\'] ['\\'] t

/-- The delimiter of a parser whose default is a line end. -/
def ParserConfig.unescapedDelimiter (config : ParserConfig) : Text :=
  let delimiter := config.delimiter.getD []
  unescapeDelimiter (if delimiter = [] then ['\n'] else delimiter)

/-- `str.split` at a delimiter. -/
def splitAt (delimiter text : Text) : List Text :=
  splitMax delimiter text.length text

/-- The parts that are not blank, without white space at their ends. -/
def sectionsOf (parts : List Text) : List Section :=
  (parts.flatMap cleanedChunk).map fun block => (block, [])

def iterSections (text delimiter : Text) : List Section :=
  let sections :=
    if delimiter ≠ [] ∧ delimiter ∉ [['\n'], ['\r', '\n']] ∧ '\x60' ∉ delimiter then
      sectionsOf (splitAt delimiter text)
    else sectionsOf (splitLines text)
  if sections = [] ∧ stripChars text ≠ [] then [(stripChars text, [])] else sections

/-- `_ensure_chunk_token_limit`: a chunk may have half as many tokens again. -/
def ensureChunkTokenLimit (chunks : List Text) (chunkTokenNum : Int) : List Text :=
  if chunkTokenNum ≤ 0 then chunks.flatMap cleanedChunk
  else
    let hardLimit := max chunkTokenNum (chunkTokenNum * 3 / 2)
    (chunks.flatMap cleanedChunk).flatMap fun cleaned =>
      if (countTokens cleaned : Int) ≤ chunkTokenNum then [cleaned]
      else hardSplitByTokenLimit cleaned chunkTokenNum (some hardLimit)

namespace General

/-- The merged chunks of a text. -/
def mergedChunks (text : Text) (config : ParserConfig) : List Text :=
  naiveMerge (iterSections text config.unescapedDelimiter) config.tokenNum
    config.unescapedDelimiter config.overlap

def chunkMarkdown (text : Text) (config : ParserConfig) : List Text :=
  ensureChunkTokenLimit (mergedChunks text config) config.tokenNum

end General

/-! ## The delimiter -/

/-- A replacement brings no character that is in neither text. -/
theorem mem_replace {p r t : Text} {c : Char} (hp : p ≠ [])
    (h : c ∈ TextReplace.replace p r t) : c ∈ r ∨ c ∈ t := by
  induction t using TextReplace.replace_induction hp with
  | hnil => exact absurd h (by simp)
  | hmatch t ih =>
    rw [TextReplace.replace_append hp] at h
    rcases List.mem_append.mp h with hr | ht
    · exact .inl hr
    · exact (ih ht).imp_right (List.mem_append_right p)
  | hcons d t hmiss ih =>
    rw [TextReplace.replace_cons hmiss] at h
    rcases List.mem_cons.mp h with rfl | ht
    · exact .inr (List.mem_cons_self ..)
    · exact (ih ht).imp_right (List.mem_cons_of_mem d)

variable {delimiter : Text}

theorem backtick_not_mem_unescapeDelimiter (h : '\x60' ∉ delimiter) :
    '\x60' ∉ unescapeDelimiter delimiter := by
  intro hmem
  rcases mem_replace (by simp) hmem with hr | hmem
  · exact absurd hr (by decide)
  rcases mem_replace (by simp) hmem with hr | hmem
  · exact absurd hr (by decide)
  rcases mem_replace (by simp) hmem with hr | hmem
  · exact absurd hr (by decide)
  rcases mem_replace (by simp) hmem with hr | hmem
  · exact absurd hr (by decide)
  · exact h hmem

theorem backtick_not_mem_delimiter {config : ParserConfig}
    (h : '\x60' ∉ config.delimiter.getD []) : '\x60' ∉ config.unescapedDelimiter := by
  refine backtick_not_mem_unescapeDelimiter ?_
  split
  · decide
  · exact h

/-! ## The sections -/

/-- The parts of a text: between delimiters, or its lines when the delimiter is a line end. -/
def parts (text delimiter : Text) : List Text :=
  if delimiter ∈ [[], ['\n'], ['\r', '\n']] then splitLines text else splitAt delimiter text

/-- What a parser keeps of its parts: the text itself when they are all blank. -/
def keptParts (text delimiter : Text) : List Text :=
  if ∀ part ∈ parts text delimiter, stripChars part = [] then [text] else parts text delimiter

variable {ps : List Text}

theorem sectionsOf_plain {sec : Section} (h : sec ∈ sectionsOf ps) :
    sec.2 = [] ∧ stripChars sec.1 ≠ [] := by
  obtain ⟨block, hblock, rfl⟩ := List.mem_map.mp h
  obtain ⟨part, -, hpart⟩ := List.mem_flatMap.mp hblock
  exact ⟨rfl, not_blank_of_mem_cleanedChunk hpart⟩

theorem sectionsOf_eq_nil_iff :
    sectionsOf ps = [] ↔ ∀ part ∈ ps, stripChars part = [] := by
  rw [sectionsOf, List.map_eq_nil_iff, List.flatMap_eq_nil_iff]
  refine forall₂_congr fun part _ => ?_
  unfold cleanedChunk
  split <;> simp_all

theorem sectionsOf_nonspace (ps : List Text) :
    (texts (sectionsOf ps)).flatMap nonspace = ps.flatMap nonspace := by
  rw [texts, sectionsOf, List.map_map]
  have hfst : (Prod.fst ∘ fun block : Text => ((block, []) : Section)) = id := rfl
  rw [hfst, List.map_id, List.flatMap_assoc]
  simp only [cleanedChunk_nonspace]

theorem iterSections_eq {text : Text} (hticks : '\x60' ∉ delimiter) :
    iterSections text delimiter =
      if sectionsOf (parts text delimiter) = [] ∧ stripChars text ≠ [] then
        [(stripChars text, [])]
      else sectionsOf (parts text delimiter) := by
  have hsame : (if delimiter ≠ [] ∧ delimiter ∉ [['\n'], ['\r', '\n']] ∧ '\x60' ∉ delimiter then
      sectionsOf (splitAt delimiter text) else sectionsOf (splitLines text))
      = sectionsOf (parts text delimiter) := by
    rw [parts]
    by_cases hline : delimiter ∈ [[], ['\n'], ['\r', '\n']]
    · rw [if_pos hline, if_neg]
      rintro ⟨hnil, hnewline, -⟩
      rcases List.mem_cons.mp hline with hempty | hmem
      · exact hnil hempty
      · exact hnewline hmem
    · rw [if_neg hline, if_pos]
      refine ⟨fun hnil => hline (hnil ▸ List.mem_cons_self ..), ?_, hticks⟩
      exact fun hmem => hline (List.mem_cons_of_mem _ hmem)
  rw [iterSections]
  simp only [hsame]

theorem iterSections_parts {text delimiter : Text} (hticks : '\x60' ∉ delimiter) :
    (∀ sec ∈ iterSections text delimiter, sec.2 = [] ∧ stripChars sec.1 ≠ []) ∧
    (texts (iterSections text delimiter)).flatMap nonspace
      = (keptParts text delimiter).flatMap nonspace := by
  rw [iterSections_eq hticks, keptParts]
  by_cases hblank : ∀ part ∈ parts text delimiter, stripChars part = []
  · have hnone := sectionsOf_eq_nil_iff.mpr hblank
    rw [if_pos hblank]
    by_cases htext : stripChars text = []
    · rw [if_neg fun h => h.2 htext, hnone]
      refine ⟨by simp, ?_⟩
      simp [texts, nonspace_eq_nil_iff.mpr htext]
    · rw [if_pos ⟨hnone, htext⟩]
      refine ⟨?_, by simp [texts]⟩
      intro sec hsec
      rw [List.mem_singleton.mp hsec]
      exact ⟨rfl, by rwa [PyText.stripChars_stripChars]⟩
  · rw [if_neg hblank, if_neg fun h => hblank (sectionsOf_eq_nil_iff.mp h.1)]
    exact ⟨fun sec hsec => sectionsOf_plain hsec, sectionsOf_nonspace _⟩

/-! ## The chunks -/

variable (chunks : List Text)

theorem ensureChunkTokenLimit_eq_flatMap (n : Int) :
    ensureChunkTokenLimit chunks n = chunks.flatMap fun chunk => ensureChunkTokenLimit [chunk] n := by
  unfold ensureChunkTokenLimit
  split
  · simp
  · simp [List.flatMap_assoc]

/-- The last step keeps everything but white space. -/
theorem ensureChunkTokenLimit_nonspace (n : Int) :
    (ensureChunkTokenLimit chunks n).flatMap nonspace = chunks.flatMap nonspace := by
  unfold ensureChunkTokenLimit
  have hclean : (chunks.flatMap cleanedChunk).flatMap nonspace = chunks.flatMap nonspace := by
    rw [List.flatMap_assoc]
    simp only [cleanedChunk_nonspace]
  split
  · exact hclean
  · rw [List.flatMap_assoc]
    refine Eq.trans (List.flatMap_congr fun cleaned _ => ?_) hclean
    split
    · simp
    · exact hardSplit_nonspace ..

namespace General

/-- The chunks of a text with a delimiter without backticks hold the merged chunks up to white
space.  A merged chunk is an overlap, which is an end of the merged chunk before it without its
tags, and a text of its own, and these hold the parts of the text in their order; the text itself
takes the place of its parts when all of them are blank.  Without an overlap the chunks hold the
parts. -/
theorem chunkMarkdown_parts (text : Text) (config : ParserConfig)
    (hticks : '\x60' ∉ config.delimiter.getD []) :
    (config.overlap = 0 → (chunkMarkdown text config).flatMap nonspace
      = (keptParts text config.unescapedDelimiter).flatMap nonspace) ∧
    ∃ merged : List Merged, merged.map Merged.text = mergedChunks text config ∧
      (chunkMarkdown text config = (merged.flatMap fun m =>
        ensureChunkTokenLimit [m.text] config.tokenNum)) ∧
      (∀ m ∈ merged, (ensureChunkTokenLimit [m.text] config.tokenNum).flatMap nonspace
        = nonspace m.text) ∧
      (Merged.empty :: merged).IsChain Continues ∧ (merged.flatMap fun m => nonspace m.own)
        = (keptParts text config.unescapedDelimiter).flatMap nonspace := by
  have hdelimiter := backtick_not_mem_delimiter hticks
  obtain ⟨hsections, hparts⟩ := @iterSections_parts text _ hdelimiter
  obtain ⟨merged, hmerged, hchunks, halone⟩ := naiveMerge_merge
    (iterSections text config.unescapedDelimiter) config.tokenNum hdelimiter config.overlap
    (fun sec hsec => (hsections sec hsec).1) (fun sec hsec => (hsections sec hsec).2)
  have hown := hchunks.own.trans hparts
  refine ⟨?_, merged, hmerged, ?_, ?_, hchunks.chain, hown⟩
  · intro hzero
    have hall : merged.flatMap (fun m => nonspace m.own)
        = (mergedChunks text config).flatMap nonspace := by
      rw [mergedChunks, ← hmerged, List.flatMap_map]
      refine List.flatMap_congr fun m hm => ?_
      rw [Merged.text, halone (by omega) m hm, List.nil_append]
    rw [chunkMarkdown, ensureChunkTokenLimit_nonspace, ← hall, hown]
  · rw [chunkMarkdown, mergedChunks, ← hmerged, ensureChunkTokenLimit_eq_flatMap, List.flatMap_map]
  · intro m _
    rw [ensureChunkTokenLimit_nonspace]
    simp

/-- A text that consists of delimiters. -/
def delimitersOnly : Text :=
  "。。".toList

def fullStopConfig : ParserConfig :=
  { delimiter := some "。".toList, chunkTokenNum := none, overlappedPercent := none }

/-- A line with a tag in it and another line. -/
def taggedLines : Text :=
  "aaaaaaaaaa@@1\t2##b\nccc".toList

def overlappingConfig : ParserConfig :=
  { delimiter := none, chunkTokenNum := some 1, overlappedPercent := some 50 }

/-- A text of delimiters is one chunk, although its parts hold nothing; and an overlap is not an
end of the merged chunk before it when the tag stands in the end that is copied. -/
theorem delimiters_and_tags_differ :
    (fullStopConfig.overlap = 0 ∧ '\x60' ∉ fullStopConfig.delimiter.getD [] ∧
      (chunkMarkdown delimitersOnly fullStopConfig).flatMap nonspace
        ≠ (parts delimitersOnly fullStopConfig.unescapedDelimiter).flatMap nonspace) ∧
    ('\x60' ∉ overlappingConfig.delimiter.getD [] ∧
      ¬ ∃ merged : List Merged, merged.map Merged.text = mergedChunks taggedLines overlappingConfig ∧
        (Merged.empty :: merged).IsChain (fun a b => b.overlap <:+ a.text) ∧
        (merged.flatMap fun m => nonspace m.own)
          = (parts taggedLines overlappingConfig.unescapedDelimiter).flatMap nonspace) := by
  refine ⟨⟨by decide, by decide, by decide +kernel⟩, by decide, ?_⟩
  rintro ⟨merged, htexts, hchain, hown⟩
  have htwo : mergedChunks taggedLines overlappingConfig
      = ["\naaaaaaaaaa@@1\t2##b".toList, "aaaaab\nccc".toList] := by
    decide +kernel
  have hparts : (parts taggedLines overlappingConfig.unescapedDelimiter).flatMap nonspace
      = "aaaaaaaaaa@@12##bccc".toList := by
    decide +kernel
  rw [htwo] at htexts
  obtain ⟨first, rest, rfl, hfirst, hrest⟩ := List.map_eq_cons_iff.mp htexts
  obtain ⟨second, rest', rfl, hsecond, hnil⟩ := List.map_eq_cons_iff.mp hrest
  obtain rfl := List.map_eq_nil_iff.mp hnil
  obtain ⟨hempty, hsuffix, -⟩ : first.overlap <:+ [] ∧ second.overlap <:+ first.text ∧ True := by
    simpa [Merged.empty, Merged.text] using hchain
  -- The first chunk has no overlap, so the second one has nothing of its own but its line.
  have hwhole : nonspace first.own = nonspace first.text := by
    rw [Merged.text, List.eq_nil_of_suffix_nil hempty, List.nil_append]
  rw [hparts, List.flatMap_cons, List.flatMap_singleton, hwhole, hfirst] at hown
  have hline : nonspace second.own = "ccc".toList := by
    have hsplit : "aaaaaaaaaa@@12##bccc".toList
        = nonspace "\naaaaaaaaaa@@1\t2##b".toList ++ "ccc".toList := by
      decide +kernel
    rw [hsplit] at hown
    exact List.append_cancel_left hown
  have hcopied : nonspace second.overlap = "aaaaab".toList := by
    have hall : nonspace second.overlap ++ nonspace second.own
        = "aaaaab".toList ++ "ccc".toList := by
      rw [← nonspace_append, ← Merged.text, hsecond]
      decide +kernel
    rw [hline] at hall
    exact List.append_cancel_right hall
  rw [hfirst] at hsuffix
  have hend := hsuffix.filter fun c => !PyText.isSpace c
  have hnot : ¬ "aaaaab".toList <:+ nonspace "\naaaaaaaaaa@@1\t2##b".toList := by
    decide +kernel
  exact hnot (hcopied ▸ hend)

/-- Two lines of which the second chunk repeats an end of the first one. -/
theorem taggedLines_parts : '\x60' ∉ overlappingConfig.delimiter.getD [] ∧
    ∃ merged : List Merged, merged.map Merged.text = mergedChunks taggedLines overlappingConfig ∧
      (Merged.empty :: merged).IsChain Continues ∧ (merged.flatMap fun m => nonspace m.own)
        = (keptParts taggedLines overlappingConfig.unescapedDelimiter).flatMap nonspace := by
  obtain ⟨-, merged, hmerged, -, -, hchain, hown⟩ :=
    chunkMarkdown_parts taggedLines overlappingConfig (by decide)
  exact ⟨by decide, merged, hmerged, hchain, hown⟩

end General

end Yuanlei.Chunking
