import Yuanlei.Lib.PosixPath
import Yuanlei.Lib.Tokens

/-!
# Counting tokens

`count_tokens` of `nlp.py`: a word of ASCII letters, digits and underscores is one token, a
Chinese character is one token, and a text that is not blank counts as one token at least.

Main results:

- `countTokens_strip`: white space at the ends does not count.
- `countTokens_concat_le`: a character adds at most one token.
-/

namespace Yuanlei.Chunking

open PosixPath (Text)
open PyText (isSpace stripChars)

/-! ## Tokens of a text -/

/-- The class `[A-Za-z0-9_]`. -/
def isWordChar (c : Char) : Bool :=
  ('A' ≤ c && c ≤ 'Z') || ('a' ≤ c && c ≤ 'z') || ('0' ≤ c && c ≤ '9') || c == '_'

/-- The class `[\u4e00-\u9fff]`. -/
def isCjk (c : Char) : Bool :=
  0x4e00 ≤ c.toNat && c.toNat ≤ 0x9fff

/-- `re.findall` of the token pattern. -/
def findTokens (text : Text) : List Text :=
  Tokens.tokens isWordChar isCjk text

/-- A cut between two texts falls inside a word. -/
def cutsWord (s t : Text) : Bool :=
  Tokens.joined isWordChar s t

def countTokens (text : Text) : Nat :=
  if stripChars text = [] then 0 else max 1 (findTokens text).length

theorem isSpace_not_token {c : Char} (h : isSpace c) : isWordChar c = false ∧ isCjk c = false := by
  have hcode : c.toNat ≤ 32 ∨ c.toNat = 0x85 ∨ c.toNat = 0xA0 ∨ c.toNat = 0x1680 ∨
      (0x2000 ≤ c.toNat ∧ c.toNat ≤ 0x3000) := by
    simp only [isSpace, Bool.or_eq_true, Bool.and_eq_true, decide_eq_true_eq, beq_iff_eq] at h
    omega
  constructor
  · have hle : ∀ a : Char, a ≤ c ↔ a.toNat ≤ c.toNat := fun a => Iff.rfl
    have hge : ∀ a : Char, c ≤ a ↔ c.toNat ≤ a.toNat := fun a => Iff.rfl
    have hne : c ≠ '_' := by
      rintro rfl
      simp at hcode
    simp only [isWordChar, hle, hge, Bool.or_eq_false_iff, Bool.and_eq_false_iff,
      decide_eq_false_iff_not, beq_eq_false_iff_ne]
    simp only [show 'A'.toNat = 65 from rfl, show 'Z'.toNat = 90 from rfl,
      show 'a'.toNat = 97 from rfl, show 'z'.toNat = 122 from rfl, show '0'.toNat = 48 from rfl,
      show '9'.toNat = 57 from rfl]
    refine ⟨⟨⟨?_, ?_⟩, ?_⟩, hne⟩ <;> omega
  · simp only [isCjk, Bool.and_eq_false_iff, decide_eq_false_iff_not]
    omega

/-! ## Cuts and white space -/

@[simp]
theorem findTokens_nil : findTokens [] = [] :=
  rfl

variable {t s : Text}

theorem findTokens_append (h : cutsWord s t = false) :
    findTokens (s ++ t) = findTokens s ++ findTokens t :=
  Tokens.tokens_append h

theorem findTokens_space (h : ∀ c ∈ t, isSpace c) : findTokens t = [] :=
  Tokens.tokens_eq_nil_of_forall fun c hc => isSpace_not_token (h c hc)

theorem cutsWord_space_left (h : ∀ c ∈ s, isSpace c) (t : Text) :
    cutsWord s t = false := by
  have hlast : s.getLast?.any isWordChar = false := by
    cases hget : s.getLast? with
    | none => rfl
    | some c => exact (isSpace_not_token (h c (List.mem_of_getLast? hget))).1
  simp [cutsWord, Tokens.joined, hlast]

theorem cutsWord_space_right (h : ∀ c ∈ t, isSpace c) (s : Text) : cutsWord s t = false := by
  have hhead : t.head?.any isWordChar = false := by
    cases t with
    | nil => rfl
    | cons c t => exact (isSpace_not_token (h c List.mem_cons_self)).1
  simp [cutsWord, Tokens.joined, hhead]

@[simp]
theorem findTokens_strip (t : Text) : findTokens (stripChars t) = findTokens t := by
  obtain ⟨left, right, hleft, hright, ht⟩ := PyText.exists_append_stripChars t
  have hall := findTokens_append (cutsWord_space_left hleft (stripChars t ++ right))
  have hrest := findTokens_append (cutsWord_space_right hright (stripChars t))
  rw [hrest, ← ht, findTokens_space hleft, findTokens_space hright] at hall
  simpa using hall.symm

/-- A text is blank when all of it is white space. -/
theorem stripChars_eq_nil_iff : stripChars t = [] ↔ ∀ c ∈ t, isSpace c := by
  constructor
  · intro h
    obtain ⟨left, right, hleft, hright, ht⟩ := PyText.exists_append_stripChars t
    rw [h, List.nil_append] at ht
    intro c hc
    rw [ht] at hc
    rcases List.mem_append.mp hc with hmem | hmem
    · exact hleft c hmem
    · exact hright c hmem
  · intro h
    have hdrop : t.dropWhile isSpace = [] := List.dropWhile_eq_nil_iff.mpr h
    simp [stripChars, hdrop]

/-! ## The number of tokens -/

@[simp]
theorem countTokens_nil : countTokens [] = 0 :=
  rfl

@[simp]
theorem countTokens_strip (t : Text) : countTokens (stripChars t) = countTokens t := by
  simp [countTokens, PyText.stripChars_stripChars]

theorem countTokens_of_blank (h : stripChars t = []) : countTokens t = 0 :=
  if_pos h

theorem countTokens_of_not_blank (h : stripChars t ≠ []) :
    countTokens t = max 1 (findTokens t).length :=
  if_neg h

theorem findTokens_of_blank (h : stripChars t = []) : findTokens t = [] :=
  findTokens_space (stripChars_eq_nil_iff.mp h)

theorem length_findTokens_le (t : Text) : (findTokens t).length ≤ countTokens t := by
  by_cases hblank : stripChars t = []
  · simp [findTokens_of_blank hblank]
  · rw [countTokens_of_not_blank hblank]
    exact le_max_right _ _

theorem countTokens_eq_length (h : 2 ≤ countTokens t ∨ findTokens t ≠ []) :
    countTokens t = (findTokens t).length := by
  by_cases hblank : stripChars t = []
  · rw [countTokens_of_blank hblank, findTokens_of_blank hblank]
    rfl
  · rw [countTokens_of_not_blank hblank] at h ⊢
    rcases h with htwo | hne
    · omega
    · have hpos := List.length_pos_iff.mpr hne
      omega

theorem countTokens_le_of_length {m : Nat} (hm : 1 ≤ m)
    (h : (findTokens t).length ≤ m) : countTokens t ≤ m := by
  by_cases hblank : stripChars t = []
  · rw [countTokens_of_blank hblank]
    exact Nat.zero_le m
  · rw [countTokens_of_not_blank hblank]
    omega

theorem countTokens_concat_le (t : Text) (c : Char) :
    countTokens (t ++ [c]) ≤ countTokens t + 1 := by
  have htokens : (findTokens (t ++ [c])).length ≤ (findTokens t).length + 1 :=
    Tokens.length_tokens_concat_le t c
  by_cases hlong : stripChars (t ++ [c]) = []
  · rw [countTokens_of_blank hlong]
    omega
  · rw [countTokens_of_not_blank hlong]
    have hle := length_findTokens_le t
    omega

end Yuanlei.Chunking
