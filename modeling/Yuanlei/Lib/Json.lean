import Mathlib.Data.List.Basic
import Mathlib.Data.List.Sort
import Mathlib.Tactic.Common

/-!
# JSON text

The values, the writer and the reader of Python's `json` module, for the options
`ensure_ascii=False` and the default separators.  Integers are unbounded.  Floating-point
numbers are a parameter: a type with the text that its numbers are written as and a
function that reads such text.  Characters are Unicode scalar values.

Main results:

- `Json.dump` and `Json.loads`: the writer and the reader.
-/

universe u

/-! ## Values -/

/-- A JSON value with floating-point numbers of type `F`. -/
inductive Json (F : Type u) where
  | null
  | bool (b : Bool)
  | int (i : Int)
  | float (x : F)
  | str (s : String)
  | arr (items : List (Json F))
  | obj (fields : List (String × Json F))

namespace Json

variable {F : Type u}

/-! ## Numbers -/

/-- One or more decimal digits. -/
def Digits (ds : List Char) : Prop :=
  ds ≠ [] ∧ ∀ c ∈ ds, c.isDigit

/-- A condition on all characters of a text is decided along the text. -/
instance decidableForallMemText (p : Char → Prop) [DecidablePred p] (t : List Char) :
    Decidable (∀ c ∈ t, p c) :=
  List.decidableBAll p t

/-- The integer part of a number: no leading zero. -/
def IntPart (ds : List Char) : Prop :=
  ds = ['0'] ∨ Digits ds ∧ ds.head? ≠ some '0'

/-- The text of a floating-point number, as `float.__repr__` writes finite ones and the
encoder writes the others. -/
inductive FloatShape : List Char → Prop
  | nan : FloatShape ['N', 'a', 'N']
  | infinity : FloatShape ['I', 'n', 'f', 'i', 'n', 'i', 't', 'y']
  | negInfinity : FloatShape ['-', 'I', 'n', 'f', 'i', 'n', 'i', 't', 'y']
  | finite {sign whole frac exp : List Char} (hsign : sign = [] ∨ sign = ['-'])
      (hwhole : IntPart whole) (hfrac : frac = [] ∨ ∃ ds, Digits ds ∧ frac = '.' :: ds)
      (hexp : exp = [] ∨ ∃ e s ds, (e = 'e' ∨ e = 'E') ∧ (s = [] ∨ s = ['-'] ∨ s = ['+']) ∧
        Digits ds ∧ exp = e :: (s ++ ds))
      (hfloat : frac ≠ [] ∨ exp ≠ []) : FloatShape (sign ++ whole ++ frac ++ exp)

/-- Floating-point numbers with their text. -/
structure FloatText (F : Type u) where
  repr : F → List Char
  parse : List Char → F
  shape : ∀ x, FloatShape (repr x)
  parse_repr : ∀ x, parse (repr x) = x

/-- `int.__repr__`. -/
def intText (i : Int) : List Char :=
  if i < 0 then '-' :: Nat.toDigits 10 i.natAbs else Nat.toDigits 10 i.natAbs

/-! ## Writing -/

/-- A lower-case hexadecimal digit. -/
def hexDigit (n : Nat) : Char :=
  if n < 10 then Char.ofNat (48 + n) else Char.ofNat (87 + n)

/-- The replacement of one character in a string. -/
def escapeChar (c : Char) : List Char :=
  if c = '"' then ['\\', '"']
  else if c = '\\' then ['\\', '\\']
  else if c = '\n' then ['\\', 'n']
  else if c = '\r' then ['\\', 'r']
  else if c = '\t' then ['\\', 't']
  else if c = Char.ofNat 12 then ['\\', 'f']
  else if c = Char.ofNat 8 then ['\\', 'b']
  else if c.toNat < 32 then ['\\', 'u', '0', '0', hexDigit (c.toNat / 16), hexDigit (c.toNat % 16)]
  else [c]

/-- A string literal. -/
def dumpStr (s : String) : List Char :=
  '"' :: (s.toList.flatMap escapeChar ++ ['"'])

mutual

/-- `json.dumps`. -/
def dump (text : FloatText F) : Json F → List Char
  | null => ['n', 'u', 'l', 'l']
  | bool true => ['t', 'r', 'u', 'e']
  | bool false => ['f', 'a', 'l', 's', 'e']
  | int i => intText i
  | float x => text.repr x
  | str s => dumpStr s
  | arr [] => ['[', ']']
  | arr (v :: vs) => '[' :: (dump text v ++ dumpItems text vs)
  | obj [] => ['{', '}']
  | obj ((k, v) :: fs) => '{' :: (dumpStr k ++ ':' :: ' ' :: (dump text v ++ dumpFields text fs))

/-- The items after the first one, with the closing bracket. -/
def dumpItems (text : FloatText F) : List (Json F) → List Char
  | [] => [']']
  | v :: vs => ',' :: ' ' :: (dump text v ++ dumpItems text vs)

/-- The fields after the first one, with the closing brace. -/
def dumpFields (text : FloatText F) : List (String × Json F) → List Char
  | [] => ['}']
  | (k, v) :: fs =>
    ',' :: ' ' :: (dumpStr k ++ ':' :: ' ' :: (dump text v ++ dumpFields text fs))

end

mutual

/-- The value that `json.dumps` writes with `sort_keys`. -/
def sortKeys : Json F → Json F
  | arr vs => arr (sortItems vs)
  | obj fs => obj ((sortFields fs).insertionSort fun e e' => e.1 ≤ e'.1)
  | v => v

def sortItems : List (Json F) → List (Json F)
  | [] => []
  | v :: vs => v.sortKeys :: sortItems vs

def sortFields : List (String × Json F) → List (String × Json F)
  | [] => []
  | (k, v) :: fs => (k, v.sortKeys) :: sortFields fs

end

/-! ## Reading -/

/-- The white space of the JSON grammar. -/
def isWs (c : Char) : Bool :=
  c == ' ' || c == '\t' || c == '\n' || c == '\r'

def skipWs (t : List Char) : List Char :=
  t.dropWhile isWs

/-- The value of a hexadecimal digit. -/
def hexVal (c : Char) : Option Nat :=
  if c.isDigit then some (c.toNat - 48)
  else if 97 ≤ c.toNat ∧ c.toNat ≤ 102 then some (c.toNat - 87)
  else if 65 ≤ c.toNat ∧ c.toNat ≤ 70 then some (c.toNat - 55)
  else none

/-- The value of four hexadecimal digits. -/
def hex4 (a b c d : Char) : Option Nat :=
  match hexVal a, hexVal b, hexVal c, hexVal d with
  | some a, some b, some c, some d => some (((a * 16 + b) * 16 + c) * 16 + d)
  | _, _, _, _ => none

/-- The escapes with one letter. -/
def simpleEscape (c : Char) : Option Char :=
  if c = '"' then some '"'
  else if c = '\\' then some '\\'
  else if c = '/' then some '/'
  else if c = 'b' then some (Char.ofNat 8)
  else if c = 'f' then some (Char.ofNat 12)
  else if c = 'n' then some '\n'
  else if c = 'r' then some '\r'
  else if c = 't' then some '\t'
  else none

/-- `scanstring` after the opening quote.  The escape of a lone surrogate, which is no scalar
value, is not read. -/
def parseString : List Char → Option (List Char × List Char)
  | [] => none
  | '"' :: t => some ([], t)
  | '\\' :: 'u' :: a :: b :: c :: d :: t =>
    match hex4 a b c d with
    | none => none
    | some n =>
      if 0xD800 ≤ n ∧ n ≤ 0xDBFF then
        match t with
        | '\\' :: 'u' :: a' :: b' :: c' :: d' :: t' =>
          match hex4 a' b' c' d' with
          | none => none
          | some m =>
            if 0xDC00 ≤ m ∧ m ≤ 0xDFFF then
              (parseString t').map fun e =>
                (Char.ofNat (0x10000 + (n - 0xD800) * 1024 + (m - 0xDC00)) :: e.1, e.2)
            else none
        | _ => none
      else if 0xDC00 ≤ n ∧ n ≤ 0xDFFF then none
      else (parseString t).map fun e => (Char.ofNat n :: e.1, e.2)
  | '\\' :: c :: t =>
    match simpleEscape c with
    | none => none
    | some c' => (parseString t).map fun e => (c' :: e.1, e.2)
  | c :: t =>
    if c.toNat < 32 ∨ c = '\\' then none else (parseString t).map fun e => (c :: e.1, e.2)

/-- The digits at the start of a text, if there is one. -/
def takeDigits (t : List Char) : Option (List Char × List Char) :=
  let ds := t.takeWhile Char.isDigit
  if ds = [] then none else some (ds, t.dropWhile Char.isDigit)

/-- The integer part of a number. -/
def takeInt : List Char → Option (List Char × List Char)
  | '0' :: t => some (['0'], t)
  | t => takeDigits t

/-- The fraction of a number; a point without a digit is not part of it. -/
def takeFrac : List Char → List Char × List Char
  | '.' :: t =>
    match takeDigits t with
    | some (ds, t') => ('.' :: ds, t')
    | none => ([], '.' :: t)
  | t => ([], t)

/-- The sign of an exponent. -/
def takeSign : List Char → List Char × List Char
  | '+' :: t => (['+'], t)
  | '-' :: t => (['-'], t)
  | t => ([], t)

/-- The exponent of a number; a letter without a digit is not part of it. -/
def takeExp : List Char → List Char × List Char
  | [] => ([], [])
  | e :: t =>
    if e = 'e' ∨ e = 'E' then
      match takeDigits (takeSign t).2 with
      | some (ds, t') => (e :: ((takeSign t).1 ++ ds), t')
      | none => ([], e :: t)
    else ([], e :: t)

/-- The sign of a number. -/
def takeMinus : List Char → List Char × List Char
  | '-' :: t => (['-'], t)
  | t => ([], t)

/-- The value of an integer text. -/
def intVal (sign ds : List Char) : Int :=
  if sign = [] then (Nat.ofDigitChars 10 ds 0 : Int) else -(Nat.ofDigitChars 10 ds 0 : Int)

/-- A number. -/
def parseNumber (text : FloatText F) (t : List Char) : Option (Json F × List Char) :=
  let (sign, t₀) := takeMinus t
  match takeInt t₀ with
  | none => none
  | some (whole, t₁) =>
    let (frac, t₂) := takeFrac t₁
    let (exp, t₃) := takeExp t₂
    if frac = [] ∧ exp = [] then some (int (intVal sign whole), t₃)
    else some (float (text.parse (sign ++ whole ++ frac ++ exp)), t₃)

/-- Assignment in a dictionary: a key that is present keeps its place. -/
def setField (fields : List (String × Json F)) (e : String × Json F) : List (String × Json F) :=
  if fields.any fun f => f.1 == e.1 then
    fields.map fun f => if f.1 == e.1 then e else f
  else fields ++ [e]

/-- The dictionary of the pairs that were read. -/
def dictOf (pairs : List (String × Json F)) : List (String × Json F) :=
  pairs.foldl setField []

mutual

/-- `scan_once`, with a bound on its recursion. -/
def parseValue (text : FloatText F) : Nat → List Char → Option (Json F × List Char)
  | 0, _ => none
  | n + 1, t =>
    match t with
    | '"' :: t => (parseString t).map fun e => (str (String.ofList e.1), e.2)
    | '[' :: t =>
      match skipWs t with
      | ']' :: t' => some (arr [], t')
      | t' => (parseItems text n t').map fun e => (arr e.1, e.2)
    | '{' :: t =>
      match skipWs t with
      | '}' :: t' => some (obj [], t')
      | t' => (parseFields text n t').map fun e => (obj (dictOf e.1), e.2)
    | 'n' :: 'u' :: 'l' :: 'l' :: t => some (null, t)
    | 't' :: 'r' :: 'u' :: 'e' :: t => some (bool true, t)
    | 'f' :: 'a' :: 'l' :: 's' :: 'e' :: t => some (bool false, t)
    | 'N' :: 'a' :: 'N' :: t => some (float (text.parse ['N', 'a', 'N']), t)
    | 'I' :: 'n' :: 'f' :: 'i' :: 'n' :: 'i' :: 't' :: 'y' :: t =>
      some (float (text.parse ['I', 'n', 'f', 'i', 'n', 'i', 't', 'y']), t)
    | '-' :: 'I' :: 'n' :: 'f' :: 'i' :: 'n' :: 'i' :: 't' :: 'y' :: t =>
      some (float (text.parse ['-', 'I', 'n', 'f', 'i', 'n', 'i', 't', 'y']), t)
    | t => parseNumber text t

/-- The items of an array up to the closing bracket. -/
def parseItems (text : FloatText F) : Nat → List Char → Option (List (Json F) × List Char)
  | 0, _ => none
  | n + 1, t =>
    match parseValue text n t with
    | none => none
    | some (v, t₁) =>
      match skipWs t₁ with
      | ']' :: t₂ => some ([v], t₂)
      | ',' :: t₂ => (parseItems text n (skipWs t₂)).map fun e => (v :: e.1, e.2)
      | _ => none

/-- The fields of an object up to the closing brace. -/
def parseFields (text : FloatText F) : Nat → List Char → Option (List (String × Json F) × List Char)
  | 0, _ => none
  | n + 1, t =>
    match t with
    | '"' :: t =>
      match parseString t with
      | none => none
      | some (k, t₁) =>
        match skipWs t₁ with
        | ':' :: t₂ =>
          match parseValue text n (skipWs t₂) with
          | none => none
          | some (v, t₃) =>
            match skipWs t₃ with
            | '}' :: t₄ => some ([(String.ofList k, v)], t₄)
            | ',' :: t₄ =>
              (parseFields text n (skipWs t₄)).map fun e =>
                ((String.ofList k, v) :: e.1, e.2)
            | _ => none
        | _ => none
    | _ => none

end

/-- `json.loads`: a byte-order mark at the start and text after the value are errors. -/
def loads (text : FloatText F) (t : List Char) : Option (Json F) :=
  if t.head? = some (Char.ofNat 0xFEFF) then none
  else
    match parseValue text (2 * t.length + 1) (skipWs t) with
    | none => none
    | some (v, rest) => if skipWs rest = [] then some v else none

end Json
