import Yuanlei.Chunking.Bullets
import Yuanlei.Lib.PySplit
import Yuanlei.Lib.WholeFloat
import Mathlib.Data.List.FinRange
import Mathlib.Data.List.Perm.Basic
import Mathlib.Algebra.Order.BigOperators.Group.List

/-!
# The group of a document

`is_english` and `bullets_category` of `nlp.py`: the language flag and the group of
heading patterns are votes of lines, and `remove_contents_table` takes a table of contents out
of the lines before the second vote.

Main results:

- `isEnglish_perm`: the flag does not depend on the order of the lines.
- `bulletsCategory_perm`: nor does the group, when no line that votes is penalised.
- `bulletsCategory_eq_none`: lines without votes have no group.
- `removeContentsTable_eq`: without a line that starts a table of contents nothing is
  taken out.
- `makeColonAsTitle_eq`: no title is ever made of a line that ends with a colon.
-/

namespace Yuanlei.Chunking

open PosixPath (Text)
open PyText (isSpace stripChars)
open WholeFloat (ofWhole ofWhole_foldl)
open Pattern

/-! ## The language -/

def isEnglishChar (c : Char) : Bool :=
  ('a' ≤ c && c ≤ 'z') || ('A' ≤ c && c ≤ 'Z') || isDigit c || isSpace c ||
    ".,':;/\"?<>!()-".toList.contains c || c == '\x60'

def isEnglish (texts : List Text) : Bool :=
  let seq := texts.filter (stripChars · ≠ [])
  if seq = [] then false
  else
    let hits := seq.countP fun t => (some1 isEnglishChar).isWhole (stripChars t)
    0.8 < Float.ofNat hits / Float.ofNat seq.length

/-! ## The weights -/

def notBullet (line : Text) : Bool :=
  (oneOf [lit "0", seqs [some1 isDigit, some1 (· == ' '), one fun c =>
      isDigit c || "~个只-".toList.contains c],
    seq (some1 isDigit) (many (· == '.') 2 none)]).matchesStart line

/-- A number of a heading inside a line. -/
def innerBullet : Pattern :=
  oneOf [seq (some1 fun c => isCjkNumber c && c != '零') (lit "、"),
    bracketed (some1 fun c => isCjkNumber c && c != '零'),
    seq (many isDigit 1 (some 2)) (among ".、")]

/-- The character before the first match of a pattern, unless the text starts with a match. -/
def charBefore (r : Pattern) : Text → Option Char
  | [] => none
  | [_] => none
  | c :: d :: t =>
    if r.matchesStart (c :: d :: t) then none
    else if r.matchesStart (d :: t) then some c
    else charBefore r (d :: t)

def isMidSentenceBullet (line : Text) : Bool :=
  let text := stripChars line
  if text = [] then false
  else if markdownHeading.matchesStart text then false
  else (charBefore innerBullet text).any fun prev => !"#\n".toList.contains prev

def bulletWeight (group : Fin 5) (line : Text) : Float :=
  if group ≠ markdownBulletGroupIndex then 1.0
  else
    let heading := stripChars line
    if !markdownHeading.matchesStart heading then 1.0
    else
      let level := (heading.takeWhile (· == '#')).length
      if level ≤ 2 then 4.0 else if level ≤ 4 then 3.0 else 2.0

/-- A line votes for a group. -/
def votes (group : Fin 5) (line : Text) : Bool :=
  (bulletsOf group).any fun p => p.matchesStart line && !notBullet line

/-- The weight of a line that votes for a group. -/
def lineWeight (group : Fin 5) (line : Text) : Float :=
  let w := bulletWeight group line
  let w := if isMidSentenceBullet line then w * 0.1 else w
  if group ≠ markdownBulletGroupIndex && !isProbableHeadingLine line then w * 0.2 else w

/-- The votes for a group. -/
def hits (group : Fin 5) (sections : List Text) : Float :=
  sections.foldl (fun hit sec =>
    let sec := stripChars sec
    if votes group sec then hit + lineWeight group sec else hit) 0.0

/-- `bullets_category`; `none` is `-1`. -/
def bulletsCategory (sections : List Text) : Option (Fin 5) :=
  ((List.finRange 5).foldl (fun best i =>
    let hit := hits i sections
    if hit ≤ best.2 then best else (some i, hit)) ((none : Option (Fin 5)), (0.0 : Float))).1

/-! ## Tables of contents -/

def getText (sec : Section) : Text :=
  stripChars sec.1

/-- A line that starts a table of contents. -/
def isContentsLine (sec : Section) : Bool :=
  let front := ((PyText.partition "@@".toList (getText sec)).map Prod.fst).getD (getText sec)
  let line := front.filter fun c => c != ' ' && c.toNat != 0x3000
  (seq (oneOf (["contents", "目录", "目次", "tableofcontents", "致谢", "acknowledge"].map
    litIgnoreCase)) atEnd).matchesStart line

/-- The start of an entry by which its heading in the document is found. -/
def entryStart (eng : Bool) (sec : Section) : Text :=
  if eng then [' '].intercalate ((PyText.words (getText sec)).take 2) else (getText sec).take 3

/-- The lines from the first one with a start on. -/
def skipEmpty (eng : Bool) : List Section → List Section
  | [] => []
  | sec :: rest => if entryStart eng sec = [] then skipEmpty eng rest else sec :: rest

/-- The loop of `remove_contents_table` over the lines that are left. -/
def removeContentsLoop (eng : Bool) : Nat → List Section → List Section
  | 0, sections => sections
  | _ + 1, [] => []
  | fuel + 1, sec :: rest =>
    if !isContentsLine sec then sec :: removeContentsLoop eng fuel rest
    else
      match skipEmpty eng rest with
      | [] => []
      | first :: behind =>
        let entries := (behind.take 128).findIdx? fun s => entryStart eng first <+: getText s
        removeContentsLoop eng fuel (behind.drop (entries.getD 0))

def removeContentsTable (eng : Bool) (sections : List Section) : List Section :=
  removeContentsLoop eng sections.length sections

/-- The part of a text before the first end of a sentence, and that end. -/
def firstSentenceEnd : Text → Option (Text × Text)
  | [] => none
  | c :: t =>
    if "。？！!?;；".toList.contains c then some ([], [c])
    else if [' ', '.'] <+: c :: t then some ([], [' ', '.'])
    else (firstSentenceEnd t).map fun p => (c :: p.1, p.2)

/-- The title that is made of a line with a colon at its end. -/
def colonTitle (sec : Section) : Option Text :=
  let text := beforeAt sec.1
  if text.getLast?.any fun c => ":：".toList.contains c then
    match firstSentenceEnd text.reverse with
    | none => none
    | some (front, sentenceEnd) => if sentenceEnd.length < 32 then none else some front.reverse
  else none

def makeColonAsTitle : List Section → List Section
  | [] => []
  | sec :: rest =>
    match colonTitle sec with
    | none => sec :: makeColonAsTitle rest
    | some title => (title, "title".toList) :: sec :: makeColonAsTitle rest

/-! ## The order of the lines -/

variable {ts us : List Text}

theorem isEnglish_perm (h : ts.Perm us) : isEnglish ts = isEnglish us := by
  have hseq := h.filter (stripChars · ≠ [])
  have hnil : ts.filter (stripChars · ≠ []) = [] ↔ us.filter (stripChars · ≠ []) = [] := by
    rw [← List.length_eq_zero_iff, ← List.length_eq_zero_iff, hseq.length_eq]
  simp only [isEnglish, hnil, hseq.length_eq, hseq.countP_eq]

/-- The weight of a line without penalties. -/
def wholeWeight (group : Fin 5) (line : Text) : Nat :=
  if group ≠ markdownBulletGroupIndex then 1
  else
    let heading := stripChars line
    if !markdownHeading.matchesStart heading then 1
    else
      let level := (heading.takeWhile (· == '#')).length
      if level ≤ 2 then 4 else if level ≤ 4 then 3 else 2

variable (group : Fin 5)

theorem wholeWeight_le (line : Text) : wholeWeight group line ≤ 4 := by
  unfold wholeWeight
  dsimp only
  split_ifs <;> omega

theorem bulletWeight_eq (line : Text) :
    bulletWeight group line = ofWhole (wholeWeight group line) := by
  have hone : (1.0 : Float) = ofWhole 1 := by decide +kernel
  have htwo : (2.0 : Float) = ofWhole 2 := by decide +kernel
  have hthree : (3.0 : Float) = ofWhole 3 := by decide +kernel
  have hfour : (4.0 : Float) = ofWhole 4 := by decide +kernel
  rw [bulletWeight, wholeWeight, hone, htwo, hthree, hfour]
  split
  · rfl
  dsimp only
  split
  · rfl
  split
  · rfl
  split <;> rfl

/-- A line whose weight is not made smaller. -/
def unpenalised (group : Fin 5) (line : Text) : Bool :=
  !isMidSentenceBullet line && (group == markdownBulletGroupIndex || isProbableHeadingLine line)

theorem lineWeight_eq {group : Fin 5} {line : Text} (h : unpenalised group line = true) :
    lineWeight group line = ofWhole (wholeWeight group line) := by
  simp only [unpenalised, Bool.and_eq_true, Bool.not_eq_true', Bool.or_eq_true, beq_iff_eq] at h
  obtain ⟨hmid, hheading⟩ := h
  have hplain : ¬((group ≠ markdownBulletGroupIndex && !isProbableHeadingLine line) = true) := by
    rcases hheading with hgroup | hline
    · simp [hgroup]
    · simp [hline]
  rw [lineWeight, bulletWeight_eq]
  simp only [hmid, Bool.false_eq_true, if_false]
  exact if_neg hplain

/-- The lines that vote for a group. -/
def voters (group : Fin 5) (sections : List Text) : List Text :=
  (sections.map stripChars).filter (votes group)

/-- No line that votes for a group is penalised. -/
def Unpenalised (sections : List Text) : Prop :=
  ∀ group, ∀ line ∈ voters group sections, unpenalised group line = true

theorem hits_eq (sections : List Text) : hits group sections =
      ((voters group sections).map (lineWeight group)).foldl (· + ·) (0.0 : Float) := by
  rw [hits, List.foldl_map, voters, List.foldl_filter, List.foldl_map]

/-- Unpenalised votes add up exactly. -/
theorem hits_whole {sections : List Text} (h : Unpenalised sections)
    (hlen : sections.length ≤ 2 ^ 50) (group : Fin 5) :
    hits group sections = ofWhole ((voters group sections).map (wholeWeight group)).sum := by
  have hzero : (0.0 : Float) = ofWhole 0 := by decide +kernel
  have hweights : (voters group sections).map (lineWeight group) =
      ((voters group sections).map (wholeWeight group)).map ofWhole := by
    rw [List.map_map]
    exact List.map_congr_left fun line hline => lineWeight_eq (h group line hline)
  have hvoters : (voters group sections).length ≤ sections.length := by
    have hle := List.length_filter_le (votes group) (sections.map stripChars)
    rwa [List.length_map] at hle
  have hsum : ((voters group sections).map (wholeWeight group)).sum ≤
      (voters group sections).length * 4 := by
    have hle := List.sum_le_card_nsmul ((voters group sections).map (wholeWeight group)) 4
      (by simpa using fun line _ => wholeWeight_le group line)
    simpa using hle
  rw [hits_eq, hweights, hzero, ofWhole_foldl _ _ (by omega), zero_add]

/-- The group depends on the sums of the votes alone. -/
theorem bulletsCategory_congr (h : ∀ group, hits group ts = hits group us) :
    bulletsCategory ts = bulletsCategory us := by
  simp only [bulletsCategory, h]

theorem bulletsCategory_perm (h : ts.Perm us) (hts : Unpenalised ts)
    (hlen : ts.length ≤ 2 ^ 50) : bulletsCategory ts = bulletsCategory us := by
  have hvoters : ∀ group, (voters group ts).Perm (voters group us) := fun group =>
    (h.map stripChars).filter (votes group)
  have hus : Unpenalised us := fun group line hline =>
    hts group line ((hvoters group).mem_iff.mpr hline)
  refine bulletsCategory_congr fun group => ?_
  rw [hits_whole hts hlen, hits_whole hus (h.length_eq ▸ hlen),
    ((hvoters group).map (wholeWeight group)).sum_nat]

theorem bulletsCategory_eq_none (h : ∀ group, voters group ts = []) :
    bulletsCategory ts = none := by
  have hhits : ∀ group, hits group ts = 0.0 := fun group => by
    rw [hits_eq, h group]
    rfl
  have hnone : ∀ groups : List (Fin 5), groups.foldl (fun best i =>
      if (0.0 : Float) ≤ best.2 then best else (some i, 0.0)) ((none : Option (Fin 5)), (0.0 : Float)) =
        (none, 0.0) := by
    have hle : (0.0 : Float) ≤ 0.0 := by decide +kernel
    intro groups
    induction groups with
    | nil => rfl
    | cons i groups ih =>
      rw [List.foldl_cons, if_pos hle]
      exact ih
  simp only [bulletsCategory, hhits, hnone]

/-! ## What the preparation keeps -/

variable {sections : List Section}

theorem removeContentsLoop_eq (h : ∀ sec ∈ sections, isContentsLine sec = false) (eng : Bool)
    (fuel : Nat) :
    removeContentsLoop eng fuel sections = sections := by
  induction fuel generalizing sections with
  | zero => rfl
  | succ fuel ih =>
    cases sections with
    | nil => rfl
    | cons sec rest =>
      have hsec := h sec (List.mem_cons_self ..)
      have hrest := ih fun s hs => h s (List.mem_cons_of_mem sec hs)
      simp [removeContentsLoop, hsec, hrest]

theorem removeContentsTable_eq (h : ∀ sec ∈ sections, isContentsLine sec = false) (eng : Bool) :
    removeContentsTable eng sections = sections :=
  removeContentsLoop_eq h eng sections.length

theorem length_firstSentenceEnd {t front ending : Text}
    (h : firstSentenceEnd t = some (front, ending)) : ending.length ≤ 2 := by
  induction t generalizing front with
  | nil => cases h
  | cons c t ih =>
    rw [firstSentenceEnd] at h
    split at h
    · cases h
      simp
    split at h
    · cases h
      simp
    obtain ⟨p, hp, heq⟩ := Option.map_eq_some_iff.mp h
    cases heq
    exact ih hp

theorem colonTitle_eq_none (sec : Section) : colonTitle sec = none := by
  rw [colonTitle]
  split
  · split
    · rfl
    · next front ending hend =>
        have hlen := length_firstSentenceEnd hend
        rw [if_pos (by omega)]
  · rfl

theorem makeColonAsTitle_eq (sections : List Section) : makeColonAsTitle sections = sections := by
  induction sections with
  | nil => rfl
  | cons sec rest ih => rw [makeColonAsTitle, colonTitle_eq_none, ih]

end Yuanlei.Chunking
