import Yuanlei.Chunking.Tokens

/-!
# Patterns

The regular expressions of `nlp.py`.  A pattern reads the start of a text; the texts that it
leaves come in the order in which Python tries them, the first one being the match.

Main results:

- `Pattern.rests`: what a pattern leaves of a text.
- `Pattern.matchesStart`, `Pattern.occurs` and `Pattern.isWhole`:
  `re.match`, `re.search` and `re.fullmatch` as tests.
-/

namespace Yuanlei.Chunking

open PosixPath (Text)
open PyText (isSpace)

/-- A regular expression whose repetitions are those of a class of characters. -/
inductive Pattern where
  | nothing
  | one (p : Char → Bool)
  | seq (r s : Pattern)
  | alt (r s : Pattern)
  | many (p : Char → Bool) (least : Nat) (most : Option Nat)
  | atEnd

namespace Pattern

/-- What is left of a text behind a match; a repetition takes as much as it can first. -/
def rests : Pattern → Text → List Text
  | nothing, t => [t]
  | one _, [] => []
  | one p, c :: t => if p c then [t] else []
  | seq r s, t => (rests r t).flatMap (rests s)
  | alt r s, t => rests r t ++ rests s t
  | many p least most, t =>
    let available := (t.takeWhile p).length
    let top := (most.map (min available)).getD available
    (List.range' least (top + 1 - least)).reverse.map (t.drop ·)
  | atEnd, t => if t = [] ∨ t = ['\n'] then [t] else []

/-- `re.match`. -/
def matchesStart (r : Pattern) (t : Text) : Bool :=
  !(rests r t).isEmpty

/-- `re.search`. -/
def occurs (r : Pattern) (t : Text) : Bool :=
  t.tails.any r.matchesStart

/-- `re.fullmatch`. -/
def isWhole (r : Pattern) (t : Text) : Bool :=
  (rests r t).contains []

/-! ## Writing patterns -/

/-- The patterns one after the other. -/
def seqs : List Pattern → Pattern
  | [] => nothing
  | [r] => r
  | r :: rs => seq r (seqs rs)

/-- One of the patterns. -/
def oneOf : List Pattern → Pattern
  | [] => many (fun _ => false) 1 none
  | [r] => r
  | r :: rs => alt r (oneOf rs)

def lit (text : String) : Pattern :=
  seqs (text.toList.map fun c => one (· == c))

/-- A class of characters. -/
def among (chars : String) : Pattern :=
  one fun c => chars.toList.contains c

/-- A repetition without a bound. -/
def some1 (p : Char → Bool) : Pattern :=
  many p 1 none

def any0 (p : Char → Bool) : Pattern :=
  many p 0 none

end Pattern

/-! ## Letters -/

def asciiLower (c : Char) : Char :=
  if 'A' ≤ c ∧ c ≤ 'Z' then Char.ofNat (c.toNat + 32) else c

/-- A character of a pattern with `re.IGNORECASE`: the dotted and the dotless i count as i, the
long s as s and the Kelvin sign as k. -/
def matchesLetter (p c : Char) : Bool :=
  let letter := asciiLower p
  letter == asciiLower c || (letter == 'i' && (c == 'İ' || c == 'ı')) || (letter == 's' && c == 'ſ')
    || (letter == 'k' && c.toNat == 0x212A)

/-- A text whose letters may have either case. -/
def Pattern.litIgnoreCase (text : String) : Pattern :=
  Pattern.seqs (text.toList.map fun c => .one (matchesLetter c))

def isDigit (c : Char) : Bool :=
  '0' ≤ c && c ≤ '9'

/-- The class `[零一二三四五六七八九十百]`. -/
def isCjkNumber (c : Char) : Bool :=
  "零一二三四五六七八九十百".toList.contains c

def isNumber (c : Char) : Bool :=
  isCjkNumber c || isDigit c

end Yuanlei.Chunking
