import Mathlib.Data.List.Basic
import Mathlib.Tactic.Common

/-!
# Decoding a stream of UTF-8

A text arrives in pieces that may end inside of a character.  The decoder gives the characters that
are complete and keeps the bytes of the last one.  It is meant for bytes that are a part of some
encoded text; the replacement of invalid bytes is left out.

Main results:

- `Utf8.decode_split`: what has been decoded and what is kept make up the text.
-/

namespace Utf8

/-- The bytes of a text. -/
def encode (cs : List Char) : List UInt8 :=
  cs.flatMap String.utf8EncodeChar

/-- The first character and the bytes after it, if it is complete. -/
def decodeChar? (bytes : List UInt8) : Option (Char × List UInt8) :=
  (ByteArray.utf8DecodeChar? bytes.toByteArray 0).map fun c => (c, bytes.drop c.utf8Size)

/-- At most `n` characters, and the bytes after them. -/
def decodeFrom : Nat → List UInt8 → List Char × List UInt8
  | 0, bytes => ([], bytes)
  | n + 1, bytes =>
    match decodeChar? bytes with
    | none => ([], bytes)
    | some (c, rest) => (c :: (decodeFrom n rest).1, (decodeFrom n rest).2)

/-- The complete characters, and the bytes of the last one. -/
def decode (bytes : List UInt8) : List Char × List UInt8 :=
  decodeFrom bytes.length bytes

theorem decodeChar?_encode_append (c : Char) (bytes : List UInt8) :
    decodeChar? (String.utf8EncodeChar c ++ bytes) = some (c, bytes) := by
  have hdecode : ByteArray.utf8DecodeChar? (String.utf8EncodeChar c ++ bytes).toByteArray 0 =
      some c := by
    rw [List.toByteArray_append]
    exact ByteArray.utf8DecodeChar?_utf8EncodeChar_append
  have hdrop : (String.utf8EncodeChar c ++ bytes).drop c.utf8Size = bytes := by
    rw [← String.length_utf8EncodeChar c, List.drop_left]
  rw [decodeChar?, hdecode, Option.map_some, hdrop]

variable {bytes rest : List UInt8}

/-- A decoded character starts the bytes. -/
theorem eq_append_of_decodeChar? {c : Char}
    (h : decodeChar? bytes = some (c, rest)) : bytes = String.utf8EncodeChar c ++ rest := by
  obtain ⟨c', hdecode, heq⟩ := Option.map_eq_some_iff.mp h
  obtain ⟨rfl, rfl⟩ := Prod.mk.inj heq
  have hprefix := String.toByteArray_utf8EncodeChar_of_utf8DecodeChar?_eq_some hdecode
  have hlist : String.utf8EncodeChar c' = bytes.take c'.utf8Size := by
    have hdata := congrArg ByteArray.data hprefix
    simpa using congrArg Array.toList hdata
  rw [hlist, List.take_append_drop]

theorem decodeFrom_split (n : Nat) : ∀ {bytes rest : List UInt8} {cs : List Char},
    bytes ++ rest = encode cs →
      ∃ cs', cs = (decodeFrom n bytes).1 ++ cs' ∧ (decodeFrom n bytes).2 ++ rest = encode cs' := by
  induction n with
  | zero =>
    intro bytes rest cs h
    exact ⟨cs, rfl, h⟩
  | succ n ih =>
    intro bytes rest cs h
    cases hdecode : decodeChar? bytes with
    | none =>
      simp only [decodeFrom, hdecode]
      exact ⟨cs, rfl, h⟩
    | some result =>
      obtain ⟨c, bytes'⟩ := result
      have hbytes := eq_append_of_decodeChar? hdecode
      rw [hbytes, List.append_assoc] at h
      cases cs with
      | nil =>
        have hlength := congrArg List.length h
        have hpos := c.utf8Size_pos
        simp only [encode, List.flatMap_nil, List.length_append, List.length_nil,
          String.length_utf8EncodeChar] at hlength
        omega
      | cons c' cs =>
        -- both sides decode to their first character
        have hfirst := decodeChar?_encode_append c (bytes' ++ rest)
        rw [h, encode, List.flatMap_cons, decodeChar?_encode_append] at hfirst
        obtain ⟨rfl, hrest⟩ := Prod.mk.inj (Option.some.inj hfirst)
        obtain ⟨cs', hcs, hkept⟩ := ih hrest.symm
        refine ⟨cs', ?_, ?_⟩
        · simp only [decodeFrom, hdecode, List.cons_append, List.cons.injEq, true_and]
          exact hcs
        · simp only [decodeFrom, hdecode]
          exact hkept

/-- What has been decoded and what is kept make up the text. -/
theorem decode_split {cs : List Char} (h : bytes ++ rest = encode cs) :
    ∃ cs', cs = (decode bytes).1 ++ cs' ∧ (decode bytes).2 ++ rest = encode cs' :=
  decodeFrom_split bytes.length h

end Utf8
