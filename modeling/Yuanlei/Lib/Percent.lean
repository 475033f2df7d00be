import Yuanlei.Lib.Utf8Stream

/-!
# Percent encoding

`urllib.parse.quote`: the bytes of a text, where the characters that are kept stand for
themselves and every other byte is written as a percent sign and two hexadecimal digits.

Main results:

- `Percent.unquote_quoteBytes`: reading the bytes back.
- `Percent.quote_injective`: two texts with one encoding are equal.
-/

namespace Utf8

theorem encode_cons (c : Char) (cs : List Char) :
    encode (c :: cs) = String.utf8EncodeChar c ++ encode cs := by
  simp [encode]

/-- Two texts with the same bytes are equal. -/
theorem encode_injective : Function.Injective encode := by
  intro cs
  induction cs with
  | nil =>
    intro ds h
    cases ds with
    | nil => rfl
    | cons d ds =>
      have hfirst := decodeChar?_encode_append d (encode ds)
      rw [← encode_cons, ← h] at hfirst
      simp [encode, decodeChar?, ByteArray.utf8DecodeChar?] at hfirst
  | cons c cs ih =>
    intro ds h
    have hfirst := decodeChar?_encode_append c (encode cs)
    rw [← encode_cons, h] at hfirst
    cases ds with
    | nil => simp [encode, decodeChar?, ByteArray.utf8DecodeChar?] at hfirst
    | cons d ds =>
      rw [encode_cons, decodeChar?_encode_append] at hfirst
      obtain ⟨rfl, hrest⟩ := Prod.mk.inj (Option.some.inj hfirst)
      rw [ih hrest.symm]

end Utf8

namespace Percent

/-- A hexadecimal digit, in upper case. -/
def hexDigit (n : Nat) : Char :=
  if n < 10 then Char.ofNat (48 + n) else Char.ofNat (55 + n)

/-- The value of a hexadecimal digit in upper case. -/
def hexValue (c : Char) : Nat :=
  if c.toNat < 65 then c.toNat - 48 else c.toNat - 55

theorem hexValue_hexDigit {n : Nat} (h : n < 16) : hexValue (hexDigit n) = n := by
  have hall : ∀ n < 16, hexValue (hexDigit n) = n := by decide
  exact hall n h

variable (keep : Char → Bool)

def quoteByte (b : UInt8) : List Char :=
  if keep (Char.ofNat b.toNat) then [Char.ofNat b.toNat]
  else ['%', hexDigit (b.toNat / 16), hexDigit (b.toNat % 16)]

def quoteBytes (bytes : List UInt8) : List Char :=
  bytes.flatMap (quoteByte keep)

/-- `quote`, where `keep` says which characters are safe. -/
def quote (text : List Char) : List Char :=
  quoteBytes keep (Utf8.encode text)

/-- The bytes of a percent encoding. -/
def unquote : List Char → List UInt8
  | [] => []
  | [c] => [UInt8.ofNat c.toNat]
  | [c, d] => [UInt8.ofNat c.toNat, UInt8.ofNat d.toNat]
  | c :: d :: e :: rest =>
    if c = '%' then UInt8.ofNat (16 * hexValue d + hexValue e) :: unquote rest
    else UInt8.ofNat c.toNat :: unquote (d :: e :: rest)

/-- A character that is not the percent sign is one byte. -/
theorem unquote_cons {c : Char} (h : c ≠ '%') (rest : List Char) :
    unquote (c :: rest) = UInt8.ofNat c.toNat :: unquote rest := by
  match rest with
  | [] => rfl
  | [d] => rfl
  | d :: e :: rest => rw [unquote, if_neg h]

theorem toNat_ofNat_byte (b : UInt8) : (Char.ofNat b.toNat).toNat = b.toNat := by
  have hlt : b.toNat < 256 := UInt8.toNat_lt_size b
  have hvalid : b.toNat.isValidChar := Or.inl (by omega)
  rw [Char.ofNat, dif_pos hvalid]
  rfl

variable {keep}

theorem unquote_quoteByte (hkeep : keep '%' = false) (b : UInt8) (rest : List Char) :
    unquote (quoteByte keep b ++ rest) = b :: unquote rest := by
  unfold quoteByte
  by_cases hb : keep (Char.ofNat b.toNat)
  · have hne : Char.ofNat b.toNat ≠ '%' := by
      intro heq
      rw [heq, hkeep] at hb
      exact absurd hb (by decide)
    rw [if_pos hb, List.singleton_append, unquote_cons hne, toNat_ofNat_byte, UInt8.ofNat_toNat]
  · have hlt : b.toNat < 256 := UInt8.toNat_lt_size b
    have hhigh : hexValue (hexDigit (b.toNat / 16)) = b.toNat / 16 := hexValue_hexDigit (by omega)
    have hlow : hexValue (hexDigit (b.toNat % 16)) = b.toNat % 16 := hexValue_hexDigit (by omega)
    have hsum : 16 * (b.toNat / 16) + b.toNat % 16 = b.toNat := Nat.div_add_mod ..
    rw [if_neg hb]
    simp only [List.cons_append, List.nil_append, unquote, if_true, hhigh, hlow, hsum,
      UInt8.ofNat_toNat]

theorem unquote_quoteBytes (hkeep : keep '%' = false) (bytes : List UInt8) :
    unquote (quoteBytes keep bytes) = bytes := by
  induction bytes with
  | nil => rfl
  | cons b bytes ih =>
    have hcons : quoteBytes keep (b :: bytes) = quoteByte keep b ++ quoteBytes keep bytes := by
      simp [quoteBytes]
    rw [hcons, unquote_quoteByte hkeep, ih]

/-- Two texts with one encoding are equal. -/
theorem quote_injective (hkeep : keep '%' = false) : Function.Injective (quote keep) := by
  intro s t h
  have hbytes := congrArg unquote h
  rw [quote, quote, unquote_quoteBytes hkeep, unquote_quoteBytes hkeep] at hbytes
  exact Utf8.encode_injective hbytes

end Percent
