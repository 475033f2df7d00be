import Yuanlei.Chunking.Tokens

/-!
# The hard splitter

`hard_split_by_token_limit` of `nlp.py`: a text is cut in front of every token whose number
is a multiple of the limit.  With a hard limit a text that stays below it is kept whole, and the
last two pieces are put together when they stay below it.

Main results:

- `hardSplitByTokenLimit`: the pieces of a text.
- `hardSplit_nonspace`: only white space is lost.
-/

namespace Yuanlei.Chunking

open PosixPath (Text)
open PyText (isSpace stripChars)

/-! ## The splitter -/

/-- The positions at which `re.finditer` finds tokens. -/
def tokenStarts (text : Text) : List Nat :=
  Tokens.starts isWordChar isCjk text

/-- `text[start:end]`. -/
def slice (text : Text) (start stop : Nat) : Text :=
  (text.drop start).take (stop - start)

/-- The loop over the tokens: the spans that are not blank, and the position where the last
span ends.  A round passes at least one token. -/
def spanLoop (text : Text) (tokenIter : List Nat) (maxTokens : Nat) :
    Nat → Nat → Nat → List (Nat × Nat) × Nat
  | 0, _, start => ([], start)
  | fuel + 1, index, start =>
    if index < tokenIter.length then
      let nextIndex := min (index + maxTokens) tokenIter.length
      let stop := tokenIter[nextIndex]?.getD text.length
      let behind := spanLoop text tokenIter maxTokens fuel nextIndex stop
      if stripChars (slice text start stop) = [] then behind
      else ((start, stop) :: behind.1, behind.2)
    else ([], start)

/-- The last two spans become one when they stay below the hard limit. -/
def mergeTail (text : Text) (hardLimit : Option Nat) (spans : List (Nat × Nat)) :
    List (Nat × Nat) :=
  match hardLimit, spans.reverse with
  | some limit, (_, tailEnd) :: (prevStart, _) :: front =>
    if countTokens (stripChars (slice text prevStart tailEnd)) ≤ limit then
      front.reverse ++ [(prevStart, tailEnd)]
    else spans
  | _, _ => spans

/-- A text without white space at its ends, unless it is blank. -/
def cleanedChunk (text : Text) : List Text :=
  if stripChars text = [] then [] else [stripChars text]

def hardSplitByTokenLimit (text : Text) (chunkTokenNum : Int)
    (hardLimitTokenNum : Option Int) : List Text :=
  let tokenIter := tokenStarts text
  if tokenIter = [] then cleanedChunk text
  else
    let maxTokens := (max chunkTokenNum 1).toNat
    let hardLimit := hardLimitTokenNum.map fun limit => max limit.toNat maxTokens
    if hardLimit.any (tokenIter.length ≤ ·) then cleanedChunk text
    else
      let looped := spanLoop text tokenIter maxTokens tokenIter.length 0 0
      let spans :=
        if stripChars (text.drop looped.2) = [] then looped.1
        else looped.1 ++ [(looped.2, text.length)]
      (mergeTail text hardLimit spans).flatMap fun span =>
        cleanedChunk (slice text span.1 span.2)

/-! ## White space -/

/-- A text without its white space. -/
def nonspace (text : Text) : Text :=
  text.filter fun c => !isSpace c

@[simp]
theorem nonspace_nil : nonspace [] = [] :=
  rfl

@[simp]
theorem nonspace_append (s t : Text) : nonspace (s ++ t) = nonspace s ++ nonspace t :=
  List.filter_append ..

variable {t : Text}

theorem nonspace_eq_nil_iff : nonspace t = [] ↔ stripChars t = [] := by
  rw [stripChars_eq_nil_iff, nonspace, List.filter_eq_nil_iff]
  simp

@[simp]
theorem nonspace_strip (t : Text) : nonspace (stripChars t) = nonspace t := by
  obtain ⟨left, right, hleft, hright, ht⟩ := PyText.exists_append_stripChars t
  have hl : nonspace left = [] := nonspace_eq_nil_iff.mpr (stripChars_eq_nil_iff.mpr hleft)
  have hr : nonspace right = [] := nonspace_eq_nil_iff.mpr (stripChars_eq_nil_iff.mpr hright)
  conv_rhs => rw [ht, nonspace_append, nonspace_append, hl, hr]
  simp

theorem cleanedChunk_nonspace (t : Text) : (cleanedChunk t).flatMap nonspace = nonspace t := by
  by_cases hblank : stripChars t = []
  · rw [cleanedChunk, if_pos hblank, nonspace_eq_nil_iff.mpr hblank]
    rfl
  · rw [cleanedChunk, if_neg hblank]
    simp

theorem not_blank_of_mem_cleanedChunk {chunk : Text} (h : chunk ∈ cleanedChunk t) :
    stripChars chunk ≠ [] := by
  unfold cleanedChunk at h
  split at h
  · cases h
  · rename_i hfull
    rw [List.mem_singleton.mp h, PyText.stripChars_stripChars]
    exact hfull

/-! ## Spans that tile a text -/

/-- The spans follow each other from one position to another one. -/
inductive Tiles : Nat → Nat → List (Nat × Nat) → Prop
  | nil (a : Nat) : Tiles a a []
  | cons {a b c : Nat} {spans : List (Nat × Nat)} (hle : a ≤ b) (h : Tiles b c spans) :
      Tiles a c ((a, b) :: spans)

variable {a b : Nat} {spans : List (Nat × Nat)}

theorem Tiles.le (h : Tiles a b spans) : a ≤ b := by
  induction h with
  | nil a => exact le_refl a
  | cons hle _ ih => exact le_trans hle ih

variable {c : Nat}

theorem tiles_append {spans' : List (Nat × Nat)} :
    Tiles a c (spans ++ spans') ↔ ∃ b, Tiles a b spans ∧ Tiles b c spans' := by
  induction spans generalizing a with
  | nil =>
    constructor
    · intro h
      exact ⟨a, .nil a, h⟩
    · rintro ⟨b, hnil, h⟩
      cases hnil
      exact h
  | cons span spans ih =>
    constructor
    · intro h
      cases h with
      | cons hle h =>
        obtain ⟨b, hfront, hback⟩ := ih.mp h
        exact ⟨b, .cons hle hfront, hback⟩
    · rintro ⟨b, hfront, hback⟩
      cases hfront with
      | cons hle hfront => exact .cons hle (ih.mpr ⟨b, hfront, hback⟩)

theorem slice_append (text : Text) (hab : a ≤ b) (hbc : b ≤ c) :
    slice text a c = slice text a b ++ slice text b c := by
  have hsum : c - a = (b - a) + (c - b) := by omega
  have hdrop : (text.drop a).drop (b - a) = text.drop b := by
    rw [List.drop_drop]
    congr 1
    omega
  rw [slice, slice, slice, hsum, List.take_add, hdrop]

/-- The slices of spans that tile a text give the text back. -/
theorem Tiles.flatMap_slice (text : Text)
    (h : Tiles a b spans) : (spans.flatMap fun span => slice text span.1 span.2) = slice text a b := by
  induction h with
  | nil a => simp [slice]
  | cons hle h ih => rw [List.flatMap_cons, ih, ← slice_append text hle h.le]

/-! ## The spans of the loop -/

/-- A position between two tokens with `k` tokens before it. -/
def Boundary (text : Text) (i k : Nat) : Prop :=
  ∃ front behind, text = front ++ behind ∧ front.length = i ∧
    cutsWord front behind = false ∧ (findTokens front).length = k

theorem boundary_start (text : Text) : Boundary text 0 0 :=
  ⟨[], text, rfl, rfl, by simp [cutsWord, Tokens.joined], rfl⟩

theorem boundary_end (text : Text) : Boundary text text.length (findTokens text).length :=
  ⟨text, [], by simp, rfl, by simp [cutsWord, Tokens.joined], rfl⟩

theorem length_tokenStarts (text : Text) : (tokenStarts text).length = (findTokens text).length :=
  (Tokens.starts_spec text).1

variable {text : Text} {i : Nat}

theorem boundary_tokenStart {k : Nat} (h : (tokenStarts text)[k]? = some i) :
    Boundary text i k := by
  obtain ⟨front, c, behind, hsplit, hlength, hcut, htokens⟩ := (Tokens.starts_spec text).2 k i h
  exact ⟨front, c :: behind, hsplit, hlength, hcut, htokens⟩

theorem cutsWord_of_append {front part behind : Text}
    (h : cutsWord front (part ++ behind) = false) : cutsWord front part = false := by
  cases part with
  | nil => simp [cutsWord, Tokens.joined]
  | cons c part => simpa [cutsWord, Tokens.joined] using h

/-- Between two positions lie the tokens that one has more before it. -/
theorem boundary_slice {j : Nat} (ha : Boundary text a i) (hb : Boundary text b j) (hij : i < j) :
    a ≤ b ∧ (findTokens (slice text a b)).length = j - i := by
  obtain ⟨front, behind, hsplit, hlength, hcut, htokens⟩ := ha
  obtain ⟨front', behind', hsplit', hlength', hcut', htokens'⟩ := hb
  have hsame : front ++ behind = front' ++ behind' := by rw [← hsplit, ← hsplit']
  rcases List.append_eq_append_iff.mp hsame with ⟨part, hfront, hbehind⟩ | ⟨part, hfront, hbehind⟩
  · -- The second position lies behind the first one.
    have hslice : slice text a b = part := by
      rw [slice, hsplit, ← hlength, List.drop_left, hbehind, ← hlength', hfront, List.length_append,
        Nat.add_sub_cancel_left, List.take_left]
    rw [hbehind] at hcut
    rw [hfront, findTokens_append (cutsWord_of_append hcut), List.length_append] at htokens'
    rw [hslice]
    refine ⟨?_, by omega⟩
    rw [← hlength, ← hlength', hfront, List.length_append]
    omega
  · rw [hbehind] at hcut'
    rw [hfront, findTokens_append (cutsWord_of_append hcut'), List.length_append] at htokens
    omega

variable {maxTokens : Nat}

theorem spanLoop_spec (hmax : 0 < maxTokens) (fuel : Nat) :
    ∀ index start, (tokenStarts text).length ≤ index + fuel → Boundary text start index →
      (index < (tokenStarts text).length ∨ start = text.length) →
      Tiles start text.length (spanLoop text (tokenStarts text) maxTokens fuel index start).1 ∧
      (spanLoop text (tokenStarts text) maxTokens fuel index start).2 = text.length ∧
      ∀ span ∈ (spanLoop text (tokenStarts text) maxTokens fuel index start).1,
        (findTokens (slice text span.1 span.2)).length ≤ maxTokens := by
  induction fuel with
  | zero =>
    intro index start hfuel hstart hend
    have hdone : start = text.length := by
      rcases hend with hless | hdone
      · omega
      · exact hdone
    subst hdone
    exact ⟨.nil _, rfl, by simp [spanLoop]⟩
  | succ fuel ih =>
    intro index start hfuel hstart hend
    by_cases hless : index < (tokenStarts text).length
    · set nextIndex := min (index + maxTokens) (tokenStarts text).length with hnext
      set stop := (tokenStarts text)[nextIndex]?.getD text.length with hstop
      have hgrow : index < nextIndex := by omega
      have hboundary : Boundary text stop nextIndex := by
        cases hget : (tokenStarts text)[nextIndex]? with
        | none =>
          have hlast : nextIndex = (tokenStarts text).length := by
            have hle := List.getElem?_eq_none_iff.mp hget
            omega
          rw [hstop, hget, hlast, length_tokenStarts]
          exact boundary_end text
        | some s =>
          rw [hstop, hget]
          exact boundary_tokenStart hget
      have hnextEnd : nextIndex < (tokenStarts text).length ∨ stop = text.length := by
        by_cases hmore : nextIndex < (tokenStarts text).length
        · exact .inl hmore
        · right
          rw [hstop, List.getElem?_eq_none_iff.mpr (by omega)]
          rfl
      obtain ⟨hle, htokens⟩ := boundary_slice hstart hboundary hgrow
      have hblank : stripChars (slice text start stop) ≠ [] := by
        intro hblank
        rw [findTokens_of_blank hblank, List.length_nil] at htokens
        omega
      obtain ⟨htiles, hlast, hsmall⟩ := ih nextIndex stop (by omega) hboundary hnextEnd
      have hloop : spanLoop text (tokenStarts text) maxTokens (fuel + 1) index start
          = ((start, stop) :: (spanLoop text (tokenStarts text) maxTokens fuel nextIndex stop).1,
            (spanLoop text (tokenStarts text) maxTokens fuel nextIndex stop).2) := by
        rw [spanLoop, if_pos hless]
        rw [if_neg hblank]
      rw [hloop]
      refine ⟨.cons hle htiles, hlast, ?_⟩
      intro span hspan
      rcases List.mem_cons.mp hspan with rfl | hmem
      · simp only [htokens]
        omega
      · exact hsmall span hmem
    · have hdone : start = text.length := hend.resolve_left hless
      rw [spanLoop, if_neg hless]
      subst hdone
      exact ⟨.nil _, rfl, by simp⟩

/-! ## The pieces -/

theorem mergeTail_tiles (text : Text) (hardLimit : Option Nat) (h : Tiles a b spans) :
    Tiles a b (mergeTail text hardLimit spans) := by
  unfold mergeTail
  split
  · rename_i limit tailStart tailEnd prevStart prevEnd front hreverse
    split
    · have hspans : spans = front.reverse ++ [(prevStart, prevEnd), (tailStart, tailEnd)] := by
        have hback := congrArg List.reverse hreverse
        rw [List.reverse_reverse] at hback
        rw [hback]
        simp
      rw [hspans, tiles_append] at h
      obtain ⟨c, hfront, hback⟩ := h
      cases hback with
      | cons hle hback =>
        cases hback with
        | cons hle' hnil =>
          refine tiles_append.mpr ⟨prevStart, hfront, ?_⟩
          exact .cons (le_trans hle hle') hnil
    · exact h
  · exact h

theorem mem_mergeTail {hardLimit : Option Nat} {span : Nat × Nat}
    (h : span ∈ mergeTail text hardLimit spans) :
    span ∈ spans ∨ ∃ limit, hardLimit = some limit ∧
      countTokens (stripChars (slice text span.1 span.2)) ≤ limit := by
  unfold mergeTail at h
  split at h
  · rename_i limit tailStart tailEnd prevStart prevEnd front hreverse
    split at h
    · rename_i hsmall
      rcases List.mem_append.mp h with hfront | hself
      · left
        have hmem : span ∈ spans.reverse := by
          rw [hreverse]
          simp [List.mem_reverse.mp hfront]
        exact List.mem_reverse.mp hmem
      · right
        rw [List.mem_singleton.mp hself]
        exact ⟨limit, rfl, hsmall⟩
    · exact .inl h
  · exact .inl h

theorem hardSpans_spec (htokens : tokenStarts text ≠ []) (hmax : 0 < maxTokens)
    (hardLimit : Option Nat) :
    (let looped := spanLoop text (tokenStarts text) maxTokens (tokenStarts text).length 0 0
      let spans :=
        if stripChars (text.drop looped.2) = [] then looped.1
        else looped.1 ++ [(looped.2, text.length)]
      mergeTail text hardLimit spans) = mergeTail text hardLimit
            (spanLoop text (tokenStarts text) maxTokens (tokenStarts text).length 0 0).1 ∧
    Tiles 0 text.length (mergeTail text hardLimit
      (spanLoop text (tokenStarts text) maxTokens (tokenStarts text).length 0 0).1) ∧
    ∀ span ∈ mergeTail text hardLimit
        (spanLoop text (tokenStarts text) maxTokens (tokenStarts text).length 0 0).1,
      countTokens (slice text span.1 span.2) ≤ max maxTokens (hardLimit.getD 0) := by
  have hpos := List.length_pos_iff.mpr htokens
  obtain ⟨htiles, hlast, hsmall⟩ := spanLoop_spec hmax (tokenStarts text).length 0 0 (by omega)
    (boundary_start text) (.inl hpos)
  refine ⟨?_, mergeTail_tiles text hardLimit htiles, ?_⟩
  · simp only [hlast, List.drop_length]
    rfl
  · intro span hspan
    rcases mem_mergeTail hspan with hmem | ⟨limit, hlimit, hle⟩
    · exact le_trans (countTokens_le_of_length hmax (hsmall span hmem)) (le_max_left _ _)
    · rw [countTokens_strip] at hle
      rw [hlimit]
      exact le_trans hle (le_max_right _ _)

/-- The pieces of a text hold all of it but white space. -/
theorem hardSplit_nonspace (text : Text) (chunkTokenNum : Int) (hardLimit : Option Int) :
    (hardSplitByTokenLimit text chunkTokenNum hardLimit).flatMap nonspace = nonspace text := by
  unfold hardSplitByTokenLimit
  simp only
  split
  · exact cleanedChunk_nonspace text
  · rename_i htokens
    split
    · exact cleanedChunk_nonspace text
    · obtain ⟨hspans, htiles, -⟩ := hardSpans_spec htokens
        (by omega : 0 < (max chunkTokenNum 1).toNat)
        (hardLimit.map fun limit => max limit.toNat (max chunkTokenNum 1).toNat)
      have hall := htiles.flatMap_slice text
      have hwhole : slice text 0 text.length = text := by simp [slice]
      rw [hwhole] at hall
      rw [hspans, List.flatMap_assoc]
      simp only [cleanedChunk_nonspace]
      conv_rhs => rw [← hall]
      rw [nonspace, List.filter_flatMap]
      rfl

end Yuanlei.Chunking
