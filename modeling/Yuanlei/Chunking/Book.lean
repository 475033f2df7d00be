import Yuanlei.Chunking.Categories
import Yuanlei.Chunking.General
import Yuanlei.Chunking.HierarchicalMerge

/-!
# The book parser

`parsers/book.py`: the language flag and the group of heading patterns are voted on by samples
of the lines, and the group decides between two ways to merge the lines.

Main results:

- `Sampler.choose_perm`: a sample of at most as many lines as asked for has them all.
- `Book.chunkMarkdown_reproducible`: for which texts the samples do not matter.
- `Book.samples_differ`: a text for which they do.
-/

namespace Yuanlei.Chunking

open PosixPath (Text)
open PyText (stripChars splitLines)

/-! ## Samples -/

/-- `random_choices`: some of the texts, each at most once. -/
structure Sampler where
  choose : List Text → Nat → List Text
  subperm : ∀ arr k, (choose arr k).Subperm arr
  length : ∀ arr k, (choose arr k).length = min arr.length k

theorem Sampler.choose_perm (s : Sampler) {arr : List Text} {k : Nat} (h : arr.length ≤ k) :
    (s.choose arr k).Perm arr := by
  refine (s.subperm arr k).perm_of_length_le ?_
  rw [s.length, min_eq_left h]

/-- The sample of the first texts. -/
def Sampler.first : Sampler where
  choose arr k := arr.take k
  subperm arr k := (List.take_sublist k arr).subperm
  length arr k := by rw [List.length_take, min_comm]

/-- The sample of the last texts. -/
def Sampler.last : Sampler where
  choose arr k := arr.drop (arr.length - k)
  subperm arr k := (List.drop_sublist (arr.length - k) arr).subperm
  length arr k := by
    rw [List.length_drop]
    omega

namespace Book

def iterSections (text : Text) : List Section :=
  let sections := sectionsOf (splitLines text)
  if sections = [] ∧ stripChars text ≠ [] then [(stripChars text, [])] else sections

def ensureChunkTokenLimit (chunks : List Text) (chunkTokenNum : Int) : List Text :=
  if chunkTokenNum ≤ 0 then chunks.flatMap cleanedChunk
  else
    (chunks.flatMap cleanedChunk).flatMap fun chunk =>
      if (countTokens chunk : Int) ≤ chunkTokenNum then [chunk]
      else hardSplitByTokenLimit chunk chunkTokenNum none

/-- The lines of a text without its table of contents. -/
def bodySections (languageSample : Sampler) (text : Text) : List Section :=
  let sections := iterSections text
  let eng := isEnglish (languageSample.choose (texts sections) 200)
  makeColonAsTitle (removeContentsTable eng sections)

/-- The chunks of lines for a group of heading patterns. -/
def mergedChunks (bull : Option (Fin 5)) (sections : List Section) (config : ParserConfig) :
    List Text :=
  let naive := naiveMerge sections config.tokenNum config.unescapedDelimiter config.overlap
  match bull with
  | none => naive
  | some bull =>
    let chunks := (hierarchicalMerge (some bull) sections 5).map (['\n'].intercalate ·)
    if chunks = [] then naive else chunks

def chunkMarkdown (languageSample headingSample : Sampler) (text : Text) (config : ParserConfig) :
    List Text :=
  if iterSections text = [] then []
  else
    let sections := bodySections languageSample text
    let bull := bulletsCategory (headingSample.choose (texts sections) 100)
    ensureChunkTokenLimit (mergedChunks bull sections config) config.tokenNum

/-! ## Texts whose samples do not matter -/

/-- The body of a text when all of its lines are looked at. -/
def wholeBody (text : Text) : List Section :=
  removeContentsTable (isEnglish (texts (iterSections text))) (iterSections text)

/-- The language flag is the same for all samples, or nothing asks for it. -/
def LanguageSettled (text : Text) : Prop :=
  (iterSections text).length ≤ 200 ∨ ∀ sec ∈ iterSections text, isContentsLine sec = false

/-- The group is the same for all samples: they have all lines and no vote is penalised, or no line
votes at all. -/
def GroupSettled (text : Text) : Prop :=
  ((wholeBody text).length ≤ 100 ∧ Unpenalised (texts (wholeBody text))) ∨
    ∀ group, voters group (texts (wholeBody text)) = []

variable {text : Text}

theorem bodySections_eq (s : Sampler) (h : LanguageSettled text) :
    bodySections s text = wholeBody text := by
  rw [bodySections, makeColonAsTitle_eq, wholeBody]
  rcases h with hfew | hnone
  · have hlen : (texts (iterSections text)).length ≤ 200 := by simpa [texts] using hfew
    rw [isEnglish_perm (s.choose_perm hlen)]
  · rw [removeContentsTable_eq hnone, removeContentsTable_eq hnone]

theorem voters_sample {s : Sampler} {arr : List Text} {k : Nat} {group : Fin 5}
    (h : voters group arr = []) : voters group (s.choose arr k) = [] := by
  rw [voters, List.filter_eq_nil_iff] at h ⊢
  intro line hline
  obtain ⟨sec, hsec, rfl⟩ := List.mem_map.mp hline
  exact h _ (List.mem_map_of_mem ((s.subperm arr k).subset hsec))

theorem bulletsCategory_sample (s : Sampler) (h : GroupSettled text) :
    bulletsCategory (s.choose (texts (wholeBody text)) 100) =
      bulletsCategory (texts (wholeBody text)) := by
  rcases h with ⟨hfew, hvotes⟩ | hnone
  · have hlen : (texts (wholeBody text)).length ≤ 100 := by simpa [texts] using hfew
    have hperm := s.choose_perm hlen
    exact (bulletsCategory_perm hperm.symm hvotes (by omega)).symm
  · rw [bulletsCategory_eq_none hnone,
      bulletsCategory_eq_none fun group => voters_sample (hnone group)]

/-- The chunks of a text whose flag and group are settled do not depend on the samples. -/
theorem chunkMarkdown_reproducible (languageSample languageSample' headingSample headingSample' :
    Sampler) (text : Text) (config : ParserConfig) (hflag : LanguageSettled text)
    (hgroup : GroupSettled text) :
    chunkMarkdown languageSample headingSample text config =
      chunkMarkdown languageSample' headingSample' text config := by
  simp only [chunkMarkdown, bodySections_eq _ hflag, bulletsCategory_sample _ hgroup]

/-- A text with a heading of its own group and a numbered line. -/
def shortBook : Text :=
  "# 甲\n一、总则\n乙乙".toList

def defaultConfig : ParserConfig :=
  { delimiter := none, chunkTokenNum := none, overlappedPercent := none }

theorem shortBook_reproducible : LanguageSettled shortBook ∧ GroupSettled shortBook ∧
    chunkMarkdown .first .first shortBook defaultConfig =
      chunkMarkdown .last .last shortBook defaultConfig := by
  have hflag : LanguageSettled shortBook := .inl (by decide +kernel)
  have hgroup : GroupSettled shortBook := .inl ⟨by decide +kernel, by
    unfold Unpenalised
    decide +kernel⟩
  exact ⟨hflag, hgroup, chunkMarkdown_reproducible .first .last .first .last shortBook
    defaultConfig hflag hgroup⟩

/-- A heading and a hundred lines. -/
def longBook : Text :=
  "# 甲".toList ++ (List.replicate 100 "\n乙乙".toList).flatten

/-- The heading alone decides how the hundred lines are merged. -/
theorem samples_differ : ∃ languageSample headingSample headingSample' : Sampler,
    (chunkMarkdown languageSample headingSample longBook defaultConfig).length = 100 ∧
      (chunkMarkdown languageSample headingSample' longBook defaultConfig).length = 1 :=
  ⟨.first, .first, .last, by decide +kernel, by decide +kernel⟩

end Book
end Yuanlei.Chunking
