import Yuanlei.Chunking.Bullets
import Yuanlei.Chunking.Hierarchical

/-!
# The merge of the book parser

`hierarchical_merge` of `nlp.py` on the texts of a document.  The merge looks for headings
level by level from the body on up to a depth, and takes at most one heading out of a chain when
a higher one comes after it; so headings beyond the depth get lost, and headings stay over lines
that they do not belong to.

Main results:

- `hierarchicalMerge_keepsLines_iff`: the documents whose lines are all kept below
  their headings.
- `chapters_lost`: a chapter without lines of its own is lost.
-/

namespace Yuanlei.Chunking

open PosixPath (Text)
open Hierarchy
open Pattern (lit some1 seq)

/-! ## The merge -/

/-- `re.sub(r"@@[0-9]+.*", "", text)`; the first argument says that a tag is being passed. -/
def cutTags : Bool → Text → Text
  | _, [] => []
  | true, c :: t => if c = '\n' then c :: cutTags false t else cutTags true t
  | false, c :: t =>
    if (seq (lit "@@") (some1 isDigit)).matchesStart (c :: t) then cutTags true t
    else c :: cutTags false t

/-- The lines of sections with their levels, the body lines being level 0. -/
def leveled (bull : Fin 5) (sections : List Section) : Leveled where
  levelAt x := (bulletsOf bull).length + 1 - (sections[x]?.map (headingLevel bull)).getD 0
  count := sections.length
  size := (bulletsOf bull).length + 2
  lt x := by omega
  large := by
    have := bulletsOf_length_pos bull
    omega

/-- The text of a line. -/
def lineOf (sections : List Section) (x : Nat) : Text :=
  (sections[x]?.map Prod.fst).getD []

/-- The numbers of the lines of every chunk. -/
def hierarchicalLines (bull : Fin 5) (sections : List Section) (depth : Nat) : List (List Nat) :=
  (leveled bull (typedSections sections)).merged depth fun x =>
    countTokens (cutTags false (lineOf (typedSections sections) x))

/-- `hierarchical_merge`; without a group there are no chunks. -/
def hierarchicalMerge (bull : Option (Fin 5)) (sections : List Section) (depth : Nat) :
    List (List Text) :=
  match bull with
  | none => []
  | some bull =>
    (hierarchicalLines bull sections depth).map (List.map (lineOf (typedSections sections)))

/-! ## The lines that are kept -/

/-- The merge keeps all lines below their headings exactly when no line is within the depth, or
every heading beyond it is placed before a line that starts a chain and over no body line a
heading supersedes two headings at once. -/
theorem hierarchicalMerge_keepsLines_iff (bull : Fin 5) (sections : List Section) (depth : Nat) :
    (hierarchicalMerge (some bull) sections depth ≠ [] →
      (leveled bull (typedSections sections)).KeepsLines (hierarchicalLines bull sections depth)) ↔
      (∀ x < (typedSections sections).length,
        depth ≤ (leveled bull (typedSections sections)).levelAt x) ∨
      ((leveled bull (typedSections sections)).Covered depth ∧
        (leveled bull (typedSections sections)).BodiesNested) := by
  have hne : hierarchicalMerge (some bull) sections depth ≠ [] ↔
      hierarchicalLines bull sections depth ≠ [] := by
    rw [hierarchicalMerge, ne_eq, List.map_eq_nil_iff]
  rw [hne]
  exact Leveled.keepsLines_iff _ depth _

/-- Two chapters of which the first one has no lines. -/
def chapterLines : List Section :=
  [("第一章 总则".toList, []), ("第二章 附则".toList, []), ("本法自公布之日起施行".toList, [])]

/-- The first chapter is in no chunk. -/
theorem chapters_lost : hierarchicalMerge (some 0) chapterLines 5
      = [["第二章 附则".toList, "本法自公布之日起施行".toList]] ∧
    ¬ (hierarchicalMerge (some 0) chapterLines 5 ≠ [] →
      (leveled 0 (typedSections chapterLines)).KeepsLines (hierarchicalLines 0 chapterLines 5)) := by
  have hlines : hierarchicalLines 0 chapterLines 5 = [[1, 2]] := by decide +kernel
  have hmerge : hierarchicalMerge (some 0) chapterLines 5
      = [["第二章 附则".toList, "本法自公布之日起施行".toList]] := by decide +kernel
  refine ⟨hmerge, ?_⟩
  intro hkeeps
  have hall := hkeeps (by rw [hmerge]; simp)
  have hfirst := hall.every 0 (by decide +kernel)
  rw [hlines] at hfirst
  exact absurd hfirst (by decide)

end Yuanlei.Chunking
