import Yuanlei.Chunking.Tokens

/-!
# Slices of a section

`_slice_text_by_tokens` and `_split_section_with_overlap` of `separator.py`.  A chunk grows
by one character at a time until it has the requested number of tokens; the next chunk starts
as many characters before its end as hold the overlap.  The loop is kept as the list of its
rounds with their positions.

Main results:

- `cutsBetweenTokens_iff`: the chunks cut only between tokens exactly when the tokens
  with which the chunks end are single characters.
- `word_cut_after_first_letter`: a longer word is cut after its first letter.
-/

namespace Yuanlei.Chunking

open PosixPath (Text)
open PyText (stripChars)

/-! ## The slicer -/

/-- The inner loop: the chunk grows until it has enough tokens. -/
def growPiece (maxTokens : Nat) (current : Text) : Text → Text
  | [] => current
  | c :: rest =>
    let nextText := current ++ [c]
    let nextTokens := countTokens nextText
    if current ≠ [] ∧ maxTokens < nextTokens then current
    else if maxTokens ≤ nextTokens then nextText
    else growPiece maxTokens nextText rest

/-- The loop that walks back: the first argument is what is left of the chunk, with its last
character first. -/
def backtrack (overlapTokens : Nat) : Text → Text → Text
  | [], overlapText => overlapText
  | c :: before, overlapText =>
    if overlapTokens < countTokens (c :: overlapText) then overlapText
    else backtrack overlapTokens before (c :: overlapText)

/-- The start of the round behind a chunk that ends at `stop`. -/
def nextStart (overlapTokens : Nat) (piece : Text) (stop : Nat) : Nat :=
  if overlapTokens = 0 then stop
  else
    let overlapText := backtrack overlapTokens piece.reverse []
    if 0 < overlapText.length then stop - overlapText.length else stop

/-- A round of the outer loop: the positions between which its chunk lies. -/
structure Round where
  start : Nat
  stop : Nat
deriving DecidableEq

/-- The rounds of the outer loop from a position on; `none` when they do not end within the
given number of rounds. -/
def sliceRounds (text : Text) (maxTokens overlapTokens : Nat) : Nat → Nat → Option (List Round)
  | fuel, start =>
    if text.length ≤ start then some []
    else
      match fuel with
      | 0 => none
      | fuel + 1 =>
        let piece := growPiece maxTokens [] (text.drop start)
        let stop := start + piece.length
        if text.length ≤ stop then some [⟨start, stop⟩]
        else
          (sliceRounds text maxTokens overlapTokens fuel
            (nextStart overlapTokens piece stop)).map (⟨start, stop⟩ :: ·)

/-- The text between the positions of a round. -/
def Round.piece (text : Text) (round : Round) : Text :=
  (text.drop round.start).take (round.stop - round.start)

/-- The chunks that the rounds append: blank ones are left out. -/
def roundChunks (text : Text) (rounds : List Round) : List Text :=
  (rounds.map fun round => stripChars (round.piece text)).filter (· ≠ [])

/-- `_slice_text_by_tokens`; `none` when the loop does not end. -/
def sliceTextByTokens (text : Text) (maxTokens overlapTokens : Int) : Option (List Text) :=
  if maxTokens ≤ 0 then some (if stripChars text = [] then [] else [text])
  else
    (sliceRounds text maxTokens.toNat overlapTokens.toNat text.length 0).map (roundChunks text)

/-- The number of overlapping tokens of `_split_section_with_overlap`. -/
def overlapTokens (chunkTokenNum overlappedPercent : Int) : Int :=
  if 0 < chunkTokenNum ∧ 0 < overlappedPercent then
    chunkTokenNum * max 0 (min overlappedPercent 99) / 100
  else 0

def splitSectionWithOverlap (text : Text) (chunkTokenNum overlappedPercent : Int) :
    Option (List Text) :=
  sliceTextByTokens text chunkTokenNum (overlapTokens chunkTokenNum overlappedPercent)

/-! ## One round -/

variable {maxTokens : Nat}

/-- What the inner loop returns: the whole rest, or a chunk whose last character gives the
last token that fits. -/
theorem growPiece_spec (rest : Text) {current : Text} (hcurrent : countTokens current < maxTokens) :
    ∃ behind, current ++ rest = growPiece maxTokens current rest ++ behind ∧
      ((behind = [] ∧ countTokens (growPiece maxTokens current rest) < maxTokens) ∨
        ∃ front c, growPiece maxTokens current rest = front ++ [c] ∧
          countTokens front < maxTokens ∧ countTokens (front ++ [c]) = maxTokens) := by
  induction rest generalizing current with
  | nil => exact ⟨[], by simp [growPiece], .inl ⟨rfl, hcurrent⟩⟩
  | cons c rest ih =>
    have hgrow := countTokens_concat_le current c
    have hfits : ¬ (current ≠ [] ∧ maxTokens < countTokens (current ++ [c])) := by
      rintro ⟨-, hlt⟩
      omega
    by_cases hfull : maxTokens ≤ countTokens (current ++ [c])
    · have hpiece : growPiece maxTokens current (c :: rest) = current ++ [c] := by
        simp only [growPiece]
        rw [if_neg hfits, if_pos hfull]
      refine ⟨rest, by simp [hpiece], .inr ⟨current, c, hpiece, hcurrent, ?_⟩⟩
      omega
    · have hpiece : growPiece maxTokens current (c :: rest)
          = growPiece maxTokens (current ++ [c]) rest := by
        simp only [growPiece]
        rw [if_neg hfits, if_neg hfull]
      rw [hpiece]
      have hread : current ++ c :: rest = (current ++ [c]) ++ rest := by simp
      rw [hread]
      exact ih (by omega)

/-- What the walk back returns: the longest end of the chunk that holds the overlap. -/
theorem backtrack_spec {overlapTokens : Nat} (before : Text) {overlapText : Text}
    (hoverlap : countTokens overlapText ≤ overlapTokens) :
    ∃ front, before.reverse ++ overlapText = front ++ backtrack overlapTokens before overlapText ∧
      countTokens (backtrack overlapTokens before overlapText) ≤ overlapTokens ∧
      (front = [] ∨ ∃ front' c, front = front' ++ [c] ∧
        overlapTokens < countTokens (c :: backtrack overlapTokens before overlapText)) := by
  induction before generalizing overlapText with
  | nil => exact ⟨[], by simp [backtrack], hoverlap, .inl rfl⟩
  | cons c before ih =>
    by_cases hfull : overlapTokens < countTokens (c :: overlapText)
    · have hstay : backtrack overlapTokens (c :: before) overlapText = overlapText := by
        rw [backtrack, if_pos hfull]
      rw [hstay]
      exact ⟨before.reverse ++ [c], by simp, hoverlap, .inr ⟨before.reverse, c, rfl, hfull⟩⟩
    · have hmove : backtrack overlapTokens (c :: before) overlapText
          = backtrack overlapTokens before (c :: overlapText) := by
        rw [backtrack, if_neg hfull]
      rw [hmove]
      have hread : (c :: before).reverse ++ overlapText = before.reverse ++ c :: overlapText := by
        simp
      rw [hread]
      exact ih (by omega)

theorem nextStart_spec {overlapTokens : Nat} (hover : overlapTokens < maxTokens)
    {piece : Text} (hpiece : countTokens piece = maxTokens) (start : Nat) :
    ∃ front overlap, piece = front ++ overlap ∧ front ≠ [] ∧
      nextStart overlapTokens piece (start + piece.length) = start + front.length ∧
      (overlapTokens = 0 → overlap = []) ∧ countTokens overlap ≤ overlapTokens ∧
      (0 < overlapTokens → ∃ front' c, front = front' ++ [c] ∧
        overlapTokens < countTokens (c :: overlap)) := by
  have hne : piece ≠ [] := by
    rintro rfl
    rw [countTokens_nil] at hpiece
    omega
  by_cases hzero : overlapTokens = 0
  · refine ⟨piece, [], by simp, hne, ?_, fun _ => rfl, by simp, fun hpos => by omega⟩
    rw [nextStart, if_pos hzero]
  · have hempty : countTokens [] ≤ overlapTokens := by simp
    obtain ⟨front, hsplit, hle, hfront⟩ := backtrack_spec piece.reverse hempty
    rw [List.reverse_reverse, List.append_nil] at hsplit
    generalize hover' : backtrack overlapTokens piece.reverse [] = overlap at hsplit hle hfront
    have hfrontne : front ≠ [] := by
      rintro rfl
      rw [List.nil_append] at hsplit
      rw [← hsplit] at hle
      omega
    refine ⟨front, overlap, hsplit, hfrontne, ?_, fun h => absurd h hzero, hle, fun _ => ?_⟩
    · have hlength := congrArg List.length hsplit
      rw [List.length_append] at hlength
      rw [nextStart, if_neg hzero, hover']
      simp only
      split <;> omega
    · rcases hfront with hnil | hlast
      · exact absurd hnil hfrontne
      · exact hlast

/-- A round that is not the last one: the text from its start on, the chunk with its last
character, the part of the chunk before the next start, and the overlap. -/
structure RoundSplit (maxTokens overlapTokens : Nat) (rest front behind part overlap : Text)
    (c : Char) : Prop where
  splits : rest = front ++ c :: behind
  more : behind ≠ []
  few : countTokens front < maxTokens
  full : countTokens (front ++ [c]) = maxTokens
  parts : front ++ [c] = part ++ overlap
  advances : part ≠ []
  noOverlap : overlapTokens = 0 → overlap = []
  small : countTokens overlap ≤ overlapTokens
  large : 0 < overlapTokens → ∃ part' d, part = part' ++ [d] ∧
    overlapTokens < countTokens (d :: overlap)

variable {start : Nat}

/-- The loop makes a last round, or a round that is followed by a round further right. -/
theorem sliceRounds_succ {text : Text} {overlapTokens : Nat} (fuel : Nat)
    (hmax : 0 < maxTokens) (hover : overlapTokens < maxTokens) (hstart : start < text.length) :
    (sliceRounds text maxTokens overlapTokens (fuel + 1) start = some [⟨start, text.length⟩] ∧
      (countTokens (text.drop start) < maxTokens ∨
        ∃ front c, text.drop start = front ++ [c] ∧ countTokens front < maxTokens ∧
          countTokens (front ++ [c]) = maxTokens)) ∨
    ∃ front behind part overlap c,
      RoundSplit maxTokens overlapTokens (text.drop start) front behind part overlap c ∧
      sliceRounds text maxTokens overlapTokens (fuel + 1) start
        = (sliceRounds text maxTokens overlapTokens fuel (start + part.length)).map
            (⟨start, start + (front.length + 1)⟩ :: ·) := by
  have hempty : countTokens [] < maxTokens := by simpa using hmax
  obtain ⟨behind, hrest, hcases⟩ := growPiece_spec (text.drop start) hempty
  rw [List.nil_append] at hrest
  have hlength := congrArg List.length hrest
  rw [List.length_append, List.length_drop] at hlength
  have hnot : ¬ text.length ≤ start := by omega
  by_cases hbehind : behind = []
  · left
    subst hbehind
    rw [List.append_nil] at hrest
    refine ⟨?_, ?_⟩
    · rw [sliceRounds, if_neg hnot]
      simp only [List.length_nil] at hlength
      have hstop : start + (growPiece maxTokens [] (text.drop start)).length = text.length := by
        omega
      simp only [hstop, le_refl, if_true]
    · rw [← hrest] at hcases
      rcases hcases with ⟨-, hless⟩ | ⟨front, c, hpiece, hfew, hfull⟩
      · exact .inl hless
      · exact .inr ⟨front, c, hpiece, hfew, hfull⟩
  · right
    rcases hcases with ⟨hnil, -⟩ | ⟨front, c, hpiece, hfew, hfull⟩
    · exact absurd hnil hbehind
    · obtain ⟨part, overlap, hsplit, hpart, hnext, hnone, hsmall, hlarge⟩ :=
        nextStart_spec hover hfull start
      refine ⟨front, behind, part, overlap, c, ⟨?_, hbehind, hfew, hfull, hsplit, hpart, hnone,
        hsmall, hlarge⟩, ?_⟩
      · rw [hrest, hpiece]
        simp
      · have hpos := List.length_pos_iff.mpr hbehind
        rw [hpiece] at hlength
        have hstop : ¬ text.length ≤ start + (front ++ [c]).length := by omega
        rw [sliceRounds, if_neg hnot]
        simp only [hpiece, if_neg hstop, hnext]
        simp

variable (text : Text)

theorem sliceRounds_terminates {overlapTokens : Nat}
    (hmax : 0 < maxTokens) (hover : overlapTokens < maxTokens) (fuel : Nat) :
    ∀ start, text.length ≤ start + fuel →
      ∃ rounds, sliceRounds text maxTokens overlapTokens fuel start = some rounds ∧
        (∀ round ∈ rounds, start ≤ round.start) ∧
        rounds.Pairwise fun a b => a.start < b.start := by
  induction fuel with
  | zero =>
    intro start hfuel
    refine ⟨[], ?_, by simp, List.Pairwise.nil⟩
    rw [sliceRounds, if_pos (by omega)]
  | succ fuel ih =>
    intro start hfuel
    by_cases hdone : text.length ≤ start
    · refine ⟨[], ?_, by simp, List.Pairwise.nil⟩
      rw [sliceRounds, if_pos hdone]
    · rcases sliceRounds_succ fuel hmax hover (by omega : start < text.length) with
        ⟨hlast, -⟩ | ⟨front, behind, part, overlap, c, hround, hmore⟩
      · exact ⟨_, hlast, by simp, List.pairwise_singleton _ _⟩
      · have hpart := List.length_pos_iff.mpr hround.advances
        obtain ⟨rounds, hrounds, hstarts, hincreasing⟩ :=
          ih (start + part.length) (by omega)
        rw [hrounds, Option.map_some] at hmore
        refine ⟨_, hmore, ?_, ?_⟩
        · intro round hmem
          rcases List.mem_cons.mp hmem with rfl | htail
          · exact le_refl start
          · have hle := hstarts round htail
            omega
        · refine List.pairwise_cons.mpr ⟨?_, hincreasing⟩
          intro round hmem
          have hle := hstarts round hmem
          simp only
          omega

/-! ## The tokens of a round -/

/-- The position is inside a word of the text. -/
def insideWord (text : Text) (i : Nat) : Bool :=
  cutsWord (text.take i) (text.drop i)

/-- The tokens with which chunks end, when the tokens between two starts are `step` many, have
one character. -/
def EndsSingle (maxTokens step : Nat) (tokens : List Text) : Prop :=
  ∀ k token, tokens[maxTokens - 1 + k * step]? = some token → token.length = 1

variable {front : Text} {c : Char}

theorem completes_not_joined (hfew : countTokens front < maxTokens)
    (hfull : countTokens (front ++ [c]) = maxTokens) :
    cutsWord front [c] = false ∧ (findTokens front).length = maxTokens - 1 := by
  by_cases hone : maxTokens = 1
  · have hblank : stripChars front = [] := by
      by_contra hnot
      rw [countTokens_of_not_blank hnot] at hfew
      omega
    refine ⟨cutsWord_space_left (stripChars_eq_nil_iff.mp hblank) [c], ?_⟩
    rw [findTokens_of_blank hblank, hone]
    rfl
  · have htwo : 2 ≤ countTokens (front ++ [c]) := by omega
    have hexact := countTokens_eq_length (.inl htwo)
    have hle : (findTokens front).length ≤ countTokens front := length_findTokens_le front
    have hgrow : (findTokens (front ++ [c])).length ≤ (findTokens front).length + 1 :=
      Tokens.length_tokens_concat_le front c
    refine ⟨?_, by omega⟩
    by_contra hjoined
    obtain ⟨before, run, hbefore, hafter⟩ :=
      Tokens.tokens_concat_joined isCjk (Bool.not_eq_false _ ▸ hjoined)
    have hsame : (findTokens (front ++ [c])).length = (findTokens front).length := by
      rw [findTokens, hafter, findTokens, hbefore]
      simp
    omega

theorem cutsWord_cons (front : Text) (c : Char) (behind : Text) :
    cutsWord front (c :: behind) = cutsWord front [c] := by
  simp [cutsWord, Tokens.joined]

theorem cutsWord_concat (front : Text) (c : Char) (behind : Text) :
    cutsWord (front ++ [c]) behind = cutsWord [c] behind := by
  simp [cutsWord, Tokens.joined]

variable {step : Nat}

theorem not_endsSingle_of_cut {behind : Text} (hfew : countTokens front < maxTokens)
    (hfull : countTokens (front ++ [c]) = maxTokens)
    (hcut : cutsWord (front ++ [c]) behind = true) :
    ¬ EndsSingle maxTokens step (findTokens (front ++ c :: behind)) := by
  obtain ⟨hjoined, hlength⟩ := completes_not_joined hfew hfull
  rw [cutsWord_concat] at hcut
  obtain ⟨run, rest, hne, -, htokens⟩ := Tokens.tokens_cons_joined isCjk hcut
  intro hsingle
  have hall : findTokens (front ++ c :: behind) = findTokens front ++ (c :: run) :: rest := by
    rw [findTokens_append (by rw [cutsWord_cons]; exact hjoined)]
    exact congrArg _ htokens
  have hget : (findTokens (front ++ c :: behind))[maxTokens - 1 + 0 * step]? = some (c :: run) := by
    rw [hall, Nat.zero_mul, Nat.add_zero, ← hlength]
    simp
  have hpos := List.length_pos_iff.mpr hne
  have hlong := hsingle 0 _ hget
  simp only [List.length_cons] at hlong
  omega

theorem endsSingle_of_last {text : Text} (hmax : 0 < maxTokens) (hstep : 0 < step)
    (h : countTokens text < maxTokens ∨ ∃ front c, text = front ++ [c] ∧
      countTokens front < maxTokens ∧ countTokens (front ++ [c]) = maxTokens) :
    EndsSingle maxTokens step (findTokens text) := by
  intro k token htoken
  obtain ⟨hindex, -⟩ := List.getElem?_eq_some_iff.mp htoken
  have hle := length_findTokens_le text
  rcases h with hless | ⟨front, c, rfl, hfew, hfull⟩
  · omega
  · obtain ⟨hjoined, hlength⟩ := completes_not_joined hfew hfull
    have hzero : k = 0 := by
      by_contra hk
      have hmul : 1 * step ≤ k * step := Nat.mul_le_mul_right step (by omega)
      omega
    subst hzero
    rw [findTokens_append hjoined, Nat.zero_mul, Nat.add_zero, ← hlength,
      List.getElem?_append_right (le_refl _), Nat.sub_self] at htoken
    have hmem : token ∈ findTokens [c] := List.mem_of_getElem? htoken
    rw [findTokens, Tokens.tokens_singleton] at hmem
    split at hmem
    · rw [List.mem_singleton.mp hmem]
      rfl
    · cases hmem

theorem endsSingle_append {passed tokens : List Text} (hpassed : passed.length = step)
    (hfirst : ∀ token, (passed ++ tokens)[maxTokens - 1]? = some token → token.length = 1) :
    EndsSingle maxTokens step (passed ++ tokens) ↔ EndsSingle maxTokens step tokens := by
  have hshift : ∀ k, (passed ++ tokens)[maxTokens - 1 + (k + 1) * step]?
      = tokens[maxTokens - 1 + k * step]? := by
    intro k
    have hindex : maxTokens - 1 + (k + 1) * step = passed.length + (maxTokens - 1 + k * step) := by
      rw [hpassed, Nat.succ_mul]
      omega
    rw [hindex, List.getElem?_append_right (by omega), Nat.add_sub_cancel_left]
  constructor
  · intro h k token htoken
    rw [← hshift] at htoken
    exact h (k + 1) token htoken
  · intro h k token htoken
    cases k with
    | zero => exact hfirst token (by simpa using htoken)
    | succ k =>
      rw [hshift] at htoken
      exact h k token htoken

namespace RoundSplit

variable {maxTokens overlapTokens : Nat} {rest front behind part overlap : Text} {c : Char}

section

variable (h : RoundSplit maxTokens overlapTokens rest front behind part overlap c)
include h

theorem start_between (hcut : cutsWord (front ++ [c]) behind = false) :
    cutsWord part (overlap ++ behind) = false := by
  cases hover : overlap with
  | nil =>
    have hpart := h.parts
    rw [hover, List.append_nil] at hpart
    rw [List.nil_append, ← hpart]
    exact hcut
  | cons d overlap' =>
    have hpos : 0 < overlapTokens := by
      rw [Nat.pos_iff_ne_zero]
      intro hzero
      have hnil := h.noOverlap hzero
      rw [hover] at hnil
      cases hnil
    obtain ⟨part', e, hpart, hlarge⟩ := h.large hpos
    rw [List.cons_append, cutsWord_cons, hpart, cutsWord_concat]
    by_contra hjoined
    -- A word that is continued would not be a further token.
    have hcontinued : cutsWord [e] overlap = true := by
      rw [hover, cutsWord_cons]
      simpa using hjoined
    obtain ⟨run, more, -, hbefore, hafter⟩ := Tokens.tokens_cons_joined isCjk hcontinued
    have hsame : (findTokens (e :: overlap)).length = (findTokens overlap).length := by
      rw [findTokens, hafter, findTokens, hbefore]
      rfl
    have htwo : 2 ≤ countTokens (e :: overlap) := by omega
    have hexact := countTokens_eq_length (.inl htwo)
    have hle := length_findTokens_le overlap
    have hsmall := h.small
    omega

theorem findTokens_piece :
    findTokens (front ++ [c]) = findTokens front ++ findTokens [c] :=
  findTokens_append (completes_not_joined h.few h.full).1

/-- Between the starts of two rounds lie no tokens or as many as the chunk has beyond the
overlap, and then the last character of the chunk is a token. -/
theorem tokens_part
    (hover : overlapTokens < maxTokens) (hcut : cutsWord (front ++ [c]) behind = false) :
    findTokens part = [] ∨ ((findTokens part).length = maxTokens - overlapTokens ∧
      findTokens [c] = [[c]]) := by
  have hlength := (completes_not_joined h.few h.full).2
  have hpiece := congrArg List.length h.findTokens_piece
  rw [List.length_append] at hpiece
  have hlast : findTokens [c] = [[c]] ∨ findTokens [c] = [] := by
    rw [findTokens, Tokens.tokens_singleton]
    split
    · exact .inl rfl
    · exact .inr rfl
  by_cases hone : maxTokens = 1
  · have hzero : overlapTokens = 0 := by omega
    have hnil := h.noOverlap hzero
    have hpart := h.parts
    rw [hnil, List.append_nil] at hpart
    rw [← hpart]
    rcases hlast with htoken | hnone
    · right
      rw [htoken, List.length_singleton] at hpiece
      exact ⟨by omega, htoken⟩
    · left
      rw [hnone, List.length_nil] at hpiece
      exact List.length_eq_zero_iff.mp (by omega)
  · right
    have hfull := h.full
    have hexact := countTokens_eq_length (t := front ++ [c]) (.inl (by omega))
    have htoken : findTokens [c] = [[c]] := by
      rcases hlast with htoken | hnone
      · exact htoken
      · rw [hnone, List.length_nil] at hpiece
        omega
    refine ⟨?_, htoken⟩
    by_cases hzero : overlapTokens = 0
    · have hnil := h.noOverlap hzero
      have hpart := h.parts
      rw [hnil, List.append_nil] at hpart
      rw [← hpart]
      omega
    · obtain ⟨part', d, hpart, hlarge⟩ := h.large (by omega)
      have hcuts := h.start_between hcut
      have hmore := h.more
      have hparts : (findTokens (front ++ [c])).length
          = (findTokens part).length + (findTokens overlap).length := by
        have hinner : cutsWord part overlap = false := by
          cases hoverlap : overlap with
          | nil => simp [cutsWord, Tokens.joined]
          | cons e overlap' =>
            rw [hoverlap, List.cons_append, cutsWord_cons] at hcuts
            rw [cutsWord_cons]
            exact hcuts
        rw [h.parts, findTokens_append hinner, List.length_append]
      have hgrown : (findTokens (d :: overlap)).length ≤ (findTokens overlap).length + 1 :=
        Tokens.length_tokens_cons_le d overlap
      have hexact' := countTokens_eq_length (t := d :: overlap) (.inl (by omega))
      have hle := length_findTokens_le overlap
      have hsmall := h.small
      omega

/-- A round that cuts between two tokens leaves the condition to the rounds behind it. -/
theorem endsSingle_iff
    (hover : overlapTokens < maxTokens) (hcut : cutsWord (front ++ [c]) behind = false) :
    EndsSingle maxTokens (maxTokens - overlapTokens) (findTokens rest) ↔
      EndsSingle maxTokens (maxTokens - overlapTokens) (findTokens (overlap ++ behind)) := by
  have hrest : rest = part ++ (overlap ++ behind) := by
    rw [← List.append_assoc, ← h.parts, h.splits]
    simp
  have htokens : findTokens rest = findTokens part ++ findTokens (overlap ++ behind) := by
    rw [hrest, findTokens_append (h.start_between hcut)]
  rcases h.tokens_part hover hcut with hnone | ⟨hpassed, htoken⟩
  · rw [htokens, hnone, List.nil_append]
  · rw [htokens]
    apply endsSingle_append hpassed
    intro token hget
    have hlength := (completes_not_joined h.few h.full).2
    have hread : findTokens rest = findTokens front ++ ([c] :: findTokens behind) := by
      have hsplit : rest = (front ++ [c]) ++ behind := by
        rw [h.splits]
        simp
      rw [hsplit, findTokens_append hcut, h.findTokens_piece, htoken]
      simp
    rw [← htokens, hread, ← hlength, List.getElem?_append_right (le_refl _), Nat.sub_self] at hget
    have hself : [c] = token := by simpa using hget
    rw [← hself]
    rfl

end

end RoundSplit

/-! ## The rounds of a section -/

theorem insideWord_append {pre part : Text} (hpart : part ≠ []) (rest : Text) :
    insideWord (pre ++ (part ++ rest)) (pre.length + part.length) = cutsWord part rest := by
  have htake : (pre ++ (part ++ rest)).take (pre.length + part.length) = pre ++ part := by
    rw [← List.append_assoc, ← List.length_append, List.take_left']
    rfl
  have hdrop : (pre ++ (part ++ rest)).drop (pre.length + part.length) = rest := by
    rw [← List.append_assoc, ← List.length_append, List.drop_left']
    rfl
  obtain ⟨part', d, rfl⟩ := List.eq_nil_or_concat part |>.resolve_left hpart
  rw [insideWord, htake, hdrop, List.concat_eq_append, ← List.append_assoc, cutsWord_concat,
    cutsWord_concat]

/-- No round starts or ends inside a word. -/
def CutsBetween (text : Text) (rounds : List Round) : Prop :=
  ∀ round ∈ rounds, insideWord text round.start = false ∧ insideWord text round.stop = false

theorem insideWord_length : insideWord text text.length = false := by
  simp [insideWord, cutsWord, Tokens.joined]

theorem sliceRounds_done {text : Text} {overlapTokens fuel : Nat}
    (h : text.length ≤ start) : sliceRounds text maxTokens overlapTokens fuel start = some [] := by
  cases fuel <;> rw [sliceRounds, if_pos h]

/-- The rounds from a start between two tokens cut between tokens exactly when the tokens
with which the chunks end are single characters. -/
theorem sliceRounds_cutsBetween {overlapTokens : Nat} (hmax : 0 < maxTokens)
    (hover : overlapTokens < maxTokens) (fuel : Nat) :
    ∀ (pre rest : Text) (rounds : List Round), insideWord (pre ++ rest) pre.length = false →
      sliceRounds (pre ++ rest) maxTokens overlapTokens fuel pre.length = some rounds →
      (CutsBetween (pre ++ rest) rounds ↔
        EndsSingle maxTokens (maxTokens - overlapTokens) (findTokens rest)) := by
  induction fuel with
  | zero =>
    intro pre rest rounds hinside hrounds
    cases rest with
    | nil =>
      rw [sliceRounds_done (by simp), Option.some.injEq] at hrounds
      simp [← hrounds, CutsBetween, EndsSingle]
    | cons c rest =>
      rw [sliceRounds, if_neg (by simp)] at hrounds
      cases hrounds
  | succ fuel ih =>
    intro pre rest rounds hinside hrounds
    by_cases hempty : rest = []
    · subst hempty
      rw [sliceRounds_done (by simp), Option.some.injEq] at hrounds
      simp [← hrounds, CutsBetween, EndsSingle]
    · have hpos := List.length_pos_iff.mpr hempty
      have hstart : pre.length < (pre ++ rest).length := by
        rw [List.length_append]
        omega
      have hround := sliceRounds_succ fuel hmax hover hstart
      rw [List.drop_left, hrounds] at hround
      rcases hround with ⟨hlast, hcases⟩ | ⟨front, behind, part, overlap, c, hsplit, hmore⟩
      · have hsingle := endsSingle_of_last hmax (Nat.sub_pos_of_lt hover) hcases
        rw [Option.some.injEq] at hlast
        subst hlast
        simp only [hsingle, iff_true]
        intro round hmem
        rw [List.mem_singleton.mp hmem]
        exact ⟨hinside, insideWord_length _⟩
      · have hread : pre ++ rest = pre ++ ((front ++ [c]) ++ behind) := by
          rw [hsplit.splits]
          simp
        have hstop : insideWord (pre ++ rest) (pre.length + (front.length + 1))
            = cutsWord (front ++ [c]) behind := by
          have hat : insideWord (pre ++ ((front ++ [c]) ++ behind))
              (pre.length + (front ++ [c]).length) = cutsWord (front ++ [c]) behind :=
            insideWord_append (by simp) behind
          rw [hread]
          simpa using hat
        obtain ⟨rounds', hrounds', rfl⟩ := Option.map_eq_some_iff.mp hmore.symm
        by_cases hcut : cutsWord (front ++ [c]) behind = true
        · have hnot : ¬ EndsSingle maxTokens (maxTokens - overlapTokens)
              (findTokens (front ++ c :: behind)) :=
            not_endsSingle_of_cut hsplit.few hsplit.full hcut
          rw [← hsplit.splits] at hnot
          refine iff_of_false ?_ hnot
          intro hall
          have hself := (hall _ List.mem_cons_self).2
          rw [hstop, hcut] at hself
          cases hself
        · have hcut' : cutsWord (front ++ [c]) behind = false := by simpa using hcut
          have hnext : pre ++ rest = (pre ++ part) ++ (overlap ++ behind) := by
            rw [hread, hsplit.parts]
            simp
          have hinside' : insideWord ((pre ++ part) ++ (overlap ++ behind)) (pre ++ part).length
              = false := by
            rw [List.append_assoc, List.length_append, insideWord_append hsplit.advances]
            exact hsplit.start_between hcut'
          rw [← List.length_append, hnext] at hrounds'
          rw [hsplit.endsSingle_iff hover hcut', ← ih _ _ _ hinside' hrounds', ← hnext]
          constructor
          · intro hall round hmem
            exact hall round (List.mem_cons_of_mem _ hmem)
          · intro hall round hmem
            rcases List.mem_cons.mp hmem with rfl | htail
            · exact ⟨hinside, hstop.trans hcut'⟩
            · exact hall round htail

theorem roundChunks_cons (round : Round) (rounds : List Round) :
    (roundChunks text (round :: rounds)).flatMap findTokens
      = findTokens (round.piece text) ++ (roundChunks text rounds).flatMap findTokens := by
  by_cases hblank : stripChars (round.piece text) = []
  · rw [findTokens_of_blank hblank]
    simp [roundChunks, hblank]
  · simp [roundChunks, hblank]

theorem roundChunks_tokens (hmax : 0 < maxTokens) (fuel : Nat) :
    ∀ (pre rest : Text) (rounds : List Round),
      sliceRounds (pre ++ rest) maxTokens 0 fuel pre.length = some rounds →
      CutsBetween (pre ++ rest) rounds →
      (roundChunks (pre ++ rest) rounds).flatMap findTokens = findTokens rest := by
  induction fuel with
  | zero =>
    intro pre rest rounds hrounds hcuts
    cases rest with
    | nil =>
      rw [sliceRounds_done (by simp), Option.some.injEq] at hrounds
      subst hrounds
      rfl
    | cons c rest =>
      rw [sliceRounds, if_neg (by simp)] at hrounds
      cases hrounds
  | succ fuel ih =>
    intro pre rest rounds hrounds hcuts
    by_cases hempty : rest = []
    · subst hempty
      rw [sliceRounds_done (by simp), Option.some.injEq] at hrounds
      subst hrounds
      rfl
    · have hpos := List.length_pos_iff.mpr hempty
      have hstart : pre.length < (pre ++ rest).length := by
        rw [List.length_append]
        omega
      have hround := sliceRounds_succ fuel hmax hmax hstart
      rw [List.drop_left, hrounds] at hround
      rcases hround with ⟨hlast, -⟩ | ⟨front, behind, part, overlap, c, hsplit, hmore⟩
      · rw [Option.some.injEq] at hlast
        subst hlast
        have hpiece : Round.piece (pre ++ rest) ⟨pre.length, (pre ++ rest).length⟩ = rest := by
          simp [Round.piece]
        rw [roundChunks_cons, hpiece]
        simp [roundChunks]
      · have hnone := hsplit.noOverlap rfl
        subst hnone
        have hparts := hsplit.parts
        rw [List.append_nil] at hparts
        subst hparts
        have hread : pre ++ rest = (pre ++ (front ++ [c])) ++ behind := by
          rw [hsplit.splits]
          simp
        obtain ⟨rounds', hrounds', rfl⟩ := Option.map_eq_some_iff.mp hmore.symm
        have hpiece : Round.piece (pre ++ rest) ⟨pre.length, pre.length + (front.length + 1)⟩
            = front ++ [c] := by
          rw [hread, Round.piece, List.append_assoc, List.drop_left, Nat.add_sub_cancel_left]
          exact List.take_left' (by simp)
        have hcut : cutsWord (front ++ [c]) behind = false := by
          have hself := (hcuts _ List.mem_cons_self).2
          have hat : insideWord (pre ++ ((front ++ [c]) ++ behind))
              (pre.length + (front ++ [c]).length) = cutsWord (front ++ [c]) behind :=
            insideWord_append (by simp) behind
          rw [hread, List.append_assoc] at hself
          rw [← hat]
          simpa using hself
        have hsplits : rest = (front ++ [c]) ++ behind := by
          rw [hsplit.splits]
          simp
        have htail : CutsBetween (pre ++ rest) rounds' := fun round hmem =>
          hcuts round (List.mem_cons_of_mem _ hmem)
        rw [roundChunks_cons, hpiece]
        rw [← List.length_append, hread] at hrounds'
        rw [hread] at htail
        rw [hread, ih _ _ _ hrounds' htail, hsplits, findTokens_append hcut]

/-! ## Sections -/

variable {n : Int}

theorem overlapTokens_lt (hn : 1 ≤ n) (p : Int) :
    0 ≤ overlapTokens n p ∧ overlapTokens n p < n := by
  unfold overlapTokens
  split
  · have hle : max 0 (min p 99) ≤ 99 := by omega
    have hpos : 0 ≤ max 0 (min p 99) := by omega
    have hmul : n * max 0 (min p 99) ≤ n * 99 := Int.mul_le_mul_of_nonneg_left hle (by omega)
    have hnonneg : 0 ≤ n * max 0 (min p 99) := Int.mul_nonneg (by omega) hpos
    omega
  · omega

/-- The rounds with which a section is cut. -/
def sectionRounds (text : Text) (n p : Int) : Option (List Round) :=
  sliceRounds text n.toNat (overlapTokens n p).toNat text.length 0

theorem splitSectionWithOverlap_eq (hn : 1 ≤ n) (text : Text) (p : Int) :
    splitSectionWithOverlap text n p = (sectionRounds text n p).map (roundChunks text) := by
  rw [splitSectionWithOverlap, sliceTextByTokens, if_neg (by omega)]
  rfl

theorem sectionRounds_terminates (hn : 1 ≤ n) (text : Text) (p : Int) :
    ∃ rounds, sectionRounds text n p = some rounds ∧
      rounds.Pairwise fun a b => a.start < b.start := by
  obtain ⟨hnonneg, hlt⟩ := overlapTokens_lt hn p
  obtain ⟨rounds, hrounds, -, hincreasing⟩ :=
    sliceRounds_terminates text (by omega : 0 < n.toNat)
      (by omega : (overlapTokens n p).toNat < n.toNat) text.length 0 (by omega)
  exact ⟨rounds, hrounds, hincreasing⟩

/-- The chunks of a section are cut between its tokens: the loop ends, no round starts or ends
inside a word, and without an overlap the chunks have the tokens of the section. -/
def CutsBetweenTokens (text : Text) (n p : Int) : Prop :=
  ∃ rounds, sectionRounds text n p = some rounds ∧
    (rounds.Pairwise fun a b => a.start < b.start) ∧ CutsBetween text rounds ∧
    (overlapTokens n p = 0 → ∃ chunks, splitSectionWithOverlap text n p = some chunks ∧
      chunks.flatMap findTokens = findTokens text)

/-- The loop over a section always ends.  It cuts between tokens exactly when every token that
completes a chunk, counted from the first one by the number of tokens between two starts, has
one character. -/
theorem cutsBetweenTokens_iff {n : Int} (hn : 1 ≤ n) (text : Text) (p : Int) :
    (∃ rounds, sectionRounds text n p = some rounds ∧
      rounds.Pairwise fun a b => a.start < b.start) ∧
    (CutsBetweenTokens text n p ↔
      EndsSingle n.toNat (n - overlapTokens n p).toNat (findTokens text)) := by
  obtain ⟨rounds, hrounds, hincreasing⟩ := sectionRounds_terminates hn text p
  refine ⟨⟨rounds, hrounds, hincreasing⟩, ?_⟩
  obtain ⟨hnonneg, hlt⟩ := overlapTokens_lt hn p
  have hstep : (n - overlapTokens n p).toNat = n.toNat - (overlapTokens n p).toNat := by omega
  have hzero : insideWord ([] ++ text) ([] : Text).length = false := by
    simp [insideWord, cutsWord, Tokens.joined]
  have hiff := sliceRounds_cutsBetween (by omega : 0 < n.toNat)
    (by omega : (overlapTokens n p).toNat < n.toNat) text.length [] text rounds hzero hrounds
  rw [hstep, ← hiff]
  constructor
  · rintro ⟨rounds', hrounds', -, hcuts, -⟩
    obtain rfl : rounds = rounds' := Option.some.inj (hrounds.symm.trans hrounds')
    exact hcuts
  · intro hcuts
    refine ⟨rounds, hrounds, hincreasing, hcuts, fun hnone => ?_⟩
    refine ⟨roundChunks text rounds, ?_, ?_⟩
    · rw [splitSectionWithOverlap_eq hn, hrounds]
      rfl
    · have hslice := hrounds
      rw [sectionRounds, hnone] at hslice
      exact roundChunks_tokens (by omega) text.length [] text rounds hslice hcuts

/-- Chinese characters are tokens of their own, so that the cuts stay between tokens. -/
theorem cjk_cuts_between_tokens : CutsBetweenTokens "知识库检索".toList 2 50 := by
  have hone : (1 : Int) ≤ 2 := by decide
  refine (cutsBetweenTokens_iff hone "知识库检索".toList 50).2.mpr ?_
  intro k token htoken
  have hall : ∀ token ∈ findTokens "知识库检索".toList, token.length = 1 := by decide +kernel
  exact hall token (List.mem_of_getElem? htoken)

/-- A word that completes a chunk is cut after its first letter. -/
theorem word_cut_after_first_letter :
    splitSectionWithOverlap "hello world".toList 2 0 = some ["hello w".toList, "orld".toList] ∧
      ¬ CutsBetweenTokens "hello world".toList 2 0 := by
  have hchunks : splitSectionWithOverlap "hello world".toList 2 0
      = some ["hello w".toList, "orld".toList] := by decide +kernel
  refine ⟨hchunks, ?_⟩
  rintro ⟨rounds, -, -, -, htokens⟩
  obtain ⟨chunks, hsplit, hsame⟩ := htokens (by decide)
  rw [hchunks, Option.some.injEq] at hsplit
  subst hsplit
  revert hsame
  decide +kernel

end Yuanlei.Chunking
