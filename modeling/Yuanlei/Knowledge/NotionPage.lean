import Yuanlei.Lib.PyText

/-!
# Notion pages as Markdown

`_page_to_markdown` walks the blocks of a page under one counter, which bounds the
walk and the number of children that each call fetches.  The truncation flag is set
where the counter is seen to be exhausted.

Main results:

- `loop_truncated`: when the walk sets the flag.
- `pageLines_eq_iff`: the page reports what it left out unless
  `cutSilently`.
-/

namespace Yuanlei.Notion

/-- `NOTION_MAX_BLOCKS`. -/
def maxBlocks : Nat := 2000

/-- `NOTION_MAX_DEPTH`. -/
def maxDepth : Nat := 8

/-- A list of blocks: the first block with its children, and the blocks after it. -/
inductive Blocks (β : Type) where
  | nil
  | node (block : β) (children rest : Blocks β)

variable {β : Type}

/-- `has_children` is false exactly for the empty list. -/
def Blocks.isNil : Blocks β → Bool
  | nil => true
  | node .. => false

structure BlockState where
  count : Nat
  truncated : Bool

variable (toLines : β → Nat → List String)

/-- The loop of `_blocks_to_markdown` over the first `fetched` of the blocks,
where `toLines` is `_block_to_lines`. -/
def loop (depth : Nat) : Nat → Blocks β → BlockState → List String × BlockState
  | 0, _, state => ([], state)
  | _ + 1, .nil, state => ([], state)
  | fetched + 1, .node block children rest, state =>
    if maxBlocks ≤ state.count then ([], { state with truncated := true })
    else
      let state := { state with count := state.count + 1 }
      let below :=
        if children.isNil then ([], state)
        -- the call of `_blocks_to_markdown` on the children
        else if maxDepth < depth + 1 ∨ maxBlocks ≤ state.count then
          ([], { state with truncated := true })
        else loop (depth + 1) (maxBlocks - state.count) children state
      let after := loop depth fetched rest below.2
      (toLines block depth ++ below.1 ++ after.1, after.2)

/-- `_blocks_to_markdown`, when a block has these children. -/
def blocksToMarkdown (depth : Nat) (blocks : Blocks β) (state : BlockState) :
    List String × BlockState :=
  if maxDepth < depth ∨ maxBlocks ≤ state.count then ([], { state with truncated := true })
  else loop toLines depth (maxBlocks - state.count) blocks state

/-- The lines before the blocks: the title and the properties. -/
def pageHeader (title : String) (properties : List (String × String)) : List String :=
  let lines := ["# " ++ title, ""] ++ properties.filterMap fun (name, value) =>
    if value ≠ "" ∧ name ≠ title then some ("- " ++ name ++ ": " ++ value) else none
  if 2 < lines.length then lines ++ [""] else lines

/-- The lines after the blocks of a truncated page. -/
def marker (truncated : Bool) : List String :=
  if truncated then ["", "[内容过长，已截断]"] else []

/-- The lines of `_page_to_markdown`. -/
def pageLines (title : String) (properties : List (String × String)) (page : Blocks β) :
    List String :=
  let result := blocksToMarkdown toLines 0 page ⟨0, false⟩
  pageHeader title properties ++ result.1 ++ marker result.2.truncated

/-- The content that `_page_to_markdown` returns. -/
def pageToMarkdown (title : String) (properties : List (String × String)) (page : Blocks β) :
    String :=
  PyText.strip ("\n".intercalate (pageLines toLines title properties page))

/-! ## Document order -/

/-- The blocks with their depths in document order. -/
def preorder (depth : Nat) : Blocks β → List (β × Nat)
  | .nil => []
  | .node block children rest =>
    (block, depth) :: (preorder (depth + 1) children ++ preorder depth rest)

/-- The blocks of at most the greatest depth. -/
def shallow (depth : Nat) (blocks : Blocks β) : List (β × Nat) :=
  (preorder depth blocks).filter fun b => b.2 ≤ maxDepth

/-- The lines of blocks with their depths. -/
def linesOf (bs : List (β × Nat)) : List String :=
  bs.flatMap fun b => toLines b.1 b.2

variable {depth : Nat}

theorem shallow_node (hdepth : depth ≤ maxDepth) (block : β) (children rest : Blocks β) :
    shallow depth (.node block children rest) =
      (block, depth) :: (shallow (depth + 1) children ++ shallow depth rest) := by
  simp [shallow, preorder, hdepth]

theorem shallow_of_deep (hdepth : maxDepth < depth) (blocks : Blocks β) :
    shallow depth blocks = [] := by
  induction blocks generalizing depth with
  | nil => rfl
  | node block children rest ihc ihr =>
    have hc := ihc (hdepth.trans (Nat.lt_succ_self depth))
    have hr := ihr hdepth
    simp only [shallow] at hc hr
    simp [shallow, preorder, hc, hr, hdepth]

/-! ## The walk -/

/-- What the loop does below a block. -/
def below (depth : Nat) (children : Blocks β) (state : BlockState) : List String × BlockState :=
  if children.isNil then ([], state) else blocksToMarkdown toLines (depth + 1) children state

variable {state : BlockState}

/-- The state after a block was counted. -/
def BlockState.next (state : BlockState) : BlockState :=
  { state with count := state.count + 1 }

@[simp]
theorem BlockState.next_count (state : BlockState) : state.next.count = state.count + 1 :=
  rfl

theorem loop_node (hcount : state.count < maxBlocks) (fetched : Nat) (block : β)
    (children rest : Blocks β) :
    let result := below toLines depth children state.next
    let after := loop toLines depth fetched rest result.2
    loop toLines depth (fetched + 1) (.node block children rest) state =
      (toLines block depth ++ result.1 ++ after.1, after.2) := by
  simp only [loop, Nat.not_le.mpr hcount, if_false, below, blocksToMarkdown, BlockState.next]
  rfl

/-- The result renders the first of these blocks, as many as the counter allows. -/
def Renders (bs : List (β × Nat)) (state : BlockState) (result : List String × BlockState) : Prop :=
  result.1 = linesOf toLines (bs.take (maxBlocks - state.count)) ∧
    result.2.count = state.count + min (maxBlocks - state.count) bs.length

theorem below_renders (depth : Nat) (children : Blocks β) (state : BlockState)
    (hloop : depth + 1 ≤ maxDepth → Renders toLines (shallow (depth + 1) children) state
      (loop toLines (depth + 1) (maxBlocks - state.count) children state)) :
    Renders toLines (shallow (depth + 1) children) state (below toLines depth children state) := by
  unfold below blocksToMarkdown
  split_ifs with hnil hlimit
  · cases children with
    | nil => simp [Renders, shallow, preorder, linesOf]
    | node => cases hnil
  · rcases hlimit with hdeep | hfull
    · simp [Renders, shallow_of_deep hdeep, linesOf]
    · simp [Renders, Nat.sub_eq_zero_of_le hfull, linesOf]
  · exact hloop (by omega)

theorem loop_renders (blocks : Blocks β) (fetched : Nat) (state : BlockState)
    (hdepth : depth ≤ maxDepth) (hfetched : maxBlocks ≤ state.count + fetched) :
    Renders toLines (shallow depth blocks) state (loop toLines depth fetched blocks state) := by
  induction blocks generalizing depth fetched state with
  | nil => cases fetched <;> simp [Renders, loop, shallow, preorder, linesOf]
  | node block children rest ihc ihr =>
    by_cases hcount : state.count < maxBlocks
    · cases fetched with
      | zero => omega
      | succ fetched =>
        obtain ⟨hlines, hreached⟩ := below_renders toLines depth children state.next fun hdeep =>
          ihc _ _ hdeep (by omega)
        rw [BlockState.next_count] at hlines hreached
        have hafter := ihr fetched _ hdepth (by rw [hreached]; omega)
        have hsucc : maxBlocks - state.count = maxBlocks - (state.count + 1) + 1 := by omega
        have hleft : maxBlocks - (state.count + 1 + min (maxBlocks - (state.count + 1))
            (shallow (depth + 1) children).length) = maxBlocks - (state.count + 1) -
              (shallow (depth + 1) children).length := by omega
        rw [Renders, loop_node toLines hcount, shallow_node hdepth, hsucc, List.take_succ_cons,
          List.take_append]
        rw [Renders, hreached, hleft] at hafter
        simp only [hlines, hafter, linesOf, List.flatMap_cons, List.flatMap_append,
          List.length_cons, List.length_append, List.append_assoc]
        exact ⟨trivial, by omega⟩
    · have hfull : maxBlocks - state.count = 0 := by omega
      cases fetched <;> simp [Renders, loop, Nat.le_of_not_lt hcount, hfull, linesOf]

/-! ## The flag -/

/-- Every block is shallow and there is room for all of them. -/
def fits (depth room : Nat) (blocks : Blocks β) : Bool :=
  ((preorder depth blocks).all fun b => b.2 ≤ maxDepth) && (preorder depth blocks).length ≤ room

/-- The blocks run out of `room` exactly where a fetch of children ended: the blocks
fetched and rendered up to there are childless siblings that have a further sibling, and
no block above them has one. -/
def cutSilently (depth : Nat) : Nat → Nat → Blocks β → Bool
  | _, _, .nil => false
  | fetched, room, .node _ children rest =>
    fetched == 0 || decide (0 < room) &&
      if fits (depth + 1) (room - 1) children then
        cutSilently depth (fetched - 1) (room - 1 - (preorder (depth + 1) children).length) rest
      else decide (depth < maxDepth) && decide (1 < room) &&
        cutSilently (depth + 1) (room - 1) (room - 1) children && rest.isNil

theorem length_shallow_of_fits {room : Nat} {blocks : Blocks β} (h : fits depth room blocks) :
    (shallow depth blocks).length = (preorder depth blocks).length := by
  simp only [fits, Bool.and_eq_true, List.all_eq_true] at h
  rw [shallow, List.filter_eq_self.mpr h.1]

theorem fits_node (hdepth : depth ≤ maxDepth) (room : Nat) (block : β) (children rest : Blocks β) :
    fits depth room (.node block children rest) = (decide (0 < room) &&
      fits (depth + 1) (room - 1) children &&
        fits depth (room - 1 - (preorder (depth + 1) children).length) rest) := by
  rw [Bool.eq_iff_iff]
  simp only [fits, preorder, List.all_cons, List.all_append, List.length_cons, List.length_append,
    hdepth, decide_true, Bool.true_and, Bool.and_eq_true, decide_eq_true_eq]
  constructor
  · rintro ⟨⟨hc, hr⟩, hlength⟩
    exact ⟨⟨by omega, hc, by omega⟩, hr, by omega⟩
  · rintro ⟨⟨hroom, hc, hlc⟩, hr, hlr⟩
    exact ⟨⟨hc, hr⟩, by omega⟩

theorem fits_of_limit {room : Nat} {blocks : Blocks β} (hnil : ¬ blocks.isNil)
    (h : maxDepth < depth ∨ room = 0) : fits depth room blocks = false := by
  cases blocks with
  | nil => exact absurd rfl hnil
  | node block children rest =>
    rcases h with hdeep | rfl
    · simp [fits, preorder, Nat.not_le.mpr hdeep]
    · simp [fits, preorder]

theorem cutSilently_spec {fetched room : Nat} {blocks : Blocks β} (hdepth : depth ≤ maxDepth)
    (hroom : room ≤ fetched) (h : cutSilently depth fetched room blocks) :
    room ≤ (shallow depth blocks).length ∧ fits depth room blocks = false := by
  induction blocks generalizing depth fetched room with
  | nil => cases h
  | node block children rest ihc ihr =>
    simp only [cutSilently, Bool.or_eq_true, beq_iff_eq, Bool.and_eq_true, decide_eq_true_eq] at h
    rw [shallow_node hdepth, List.length_cons, List.length_append, fits_node hdepth]
    rcases h with hzero | ⟨hpos, h⟩
    · have hnone : room = 0 := by omega
      simp [hnone]
    · split_ifs at h with hfits
      · obtain ⟨hlength, hrest⟩ := ihr hdepth (by omega) h
        rw [length_shallow_of_fits hfits]
        exact ⟨by omega, by simp [hrest]⟩
      · simp only [Bool.and_eq_true, decide_eq_true_eq] at h
        have hchildren := (ihc (by omega) le_rfl h.1.2).1
        exact ⟨by omega, by simp [hfits]⟩

/-- The walk keeps the flag, and sets it when something is left out, except in a silent
cut. -/
theorem loop_truncated (blocks : Blocks β) (fetched : Nat) (state : BlockState)
    (hdepth : depth ≤ maxDepth) (hcount : state.count ≤ maxBlocks)
    (hfetched : maxBlocks ≤ state.count + fetched) :
    (loop toLines depth fetched blocks state).2.truncated =
      (state.truncated || !fits depth (maxBlocks - state.count) blocks &&
        !cutSilently depth fetched (maxBlocks - state.count) blocks) := by
  induction blocks generalizing depth fetched state with
  | nil => cases fetched <;> simp [loop, fits, preorder]
  | node block children rest ihc ihr =>
    cases fetched with
    | zero => simp [loop, cutSilently]
    | succ fetched =>
      rw [fits_node hdepth]
      by_cases hroom : state.count < maxBlocks
      · have hreached := (below_renders toLines depth children state.next fun hdeep =>
          loop_renders toLines children _ _ hdeep (by omega)).2
        rw [BlockState.next_count] at hreached
        have hbelow : (below toLines depth children state.next).2.truncated =
            (state.truncated || !fits (depth + 1) (maxBlocks - state.count - 1) children &&
              !(decide (depth < maxDepth) && decide (1 < maxBlocks - state.count) &&
                cutSilently (depth + 1) (maxBlocks - state.count - 1)
                  (maxBlocks - state.count - 1) children)) := by
          unfold below blocksToMarkdown
          split_ifs with hnil hlimit
          · cases children with
            | nil => simp [fits, preorder, BlockState.next]
            | node => cases hnil
          · rw [BlockState.next_count] at hlimit
            rw [fits_of_limit hnil (by omega)]
            have hclosed : (decide (depth < maxDepth) && decide (1 < maxBlocks - state.count)) = false := by
              rw [Bool.and_eq_false_iff]
              simp only [decide_eq_false_iff_not]
              omega
            simp [hclosed]
          · simp only [not_or, not_lt, not_le, BlockState.next_count] at hlimit
            rw [ihc _ _ hlimit.1 (by rw [BlockState.next_count]; omega) (by omega),
              BlockState.next_count, decide_eq_true (by omega : depth < maxDepth),
              decide_eq_true (by omega : 1 < maxBlocks - state.count), Nat.sub_add_eq]
            rfl
        rw [loop_node toLines hroom, ihr fetched _ hdepth (by rw [hreached]; omega)
          (by rw [hreached]; omega), hbelow, hreached]
        simp only [cutSilently]
        cases hfits : fits (depth + 1) (maxBlocks - state.count - 1) children with
        | true =>
          have hlength := length_shallow_of_fits hfits
          simp only [fits, Bool.and_eq_true, decide_eq_true_eq] at hfits
          have hleft : maxBlocks - (state.count + 1 + min (maxBlocks - (state.count + 1))
              (shallow (depth + 1) children).length) =
                maxBlocks - state.count - 1 - (preorder (depth + 1) children).length := by omega
          rw [hleft]
          have hpos : 0 < maxBlocks - state.count := by omega
          simp [hpos]
        | false =>
          cases hcut : decide (depth < maxDepth) && decide (1 < maxBlocks - state.count) &&
              cutSilently (depth + 1) (maxBlocks - state.count - 1)
                (maxBlocks - state.count - 1) children with
          | false => simp
          | true =>
            -- the cut below used up the counter, so a further block here is noticed
            have hbelow := hcut
            simp only [Bool.and_eq_true, decide_eq_true_eq] at hbelow
            have hused := (cutSilently_spec (by omega) le_rfl hbelow.2).1
            have hfull : maxBlocks - (state.count + 1 + min (maxBlocks - (state.count + 1))
                (shallow (depth + 1) children).length) = 0 := by omega
            rw [hfull]
            cases rest with
            | nil =>
              have hpos : 0 < maxBlocks - state.count := by omega
              simp only [fits, preorder, Blocks.isNil, hpos]
              simp
            | node block' children' rest' =>
              have hmore : fetched ≠ 0 := by omega
              simp [fits, preorder, cutSilently, hmore, Blocks.isNil]
      · have hfull : maxBlocks - state.count = 0 := by omega
        simp [loop, Nat.le_of_not_lt hroom, hfull, cutSilently]

/-- The lines of the page with all it may show, and a marker exactly when some block is
not shown. -/
def reportedLines (title : String) (properties : List (String × String)) (page : Blocks β) :
    List String :=
  let rendered := (shallow 0 page).take maxBlocks
  pageHeader title properties ++ linesOf toLines rendered ++
    marker (rendered.length < (preorder 0 page).length)

/-- The page shows the first blocks in document order and reports what it left out exactly
when it is not cut silently. -/
theorem pageLines_eq_iff (title : String) (properties : List (String × String))
    (page : Blocks β) :
    pageLines toLines title properties page = reportedLines toLines title properties page ↔
      cutSilently 0 maxBlocks maxBlocks page = false := by
  have hlimit : ¬ (maxDepth < 0 ∨ maxBlocks ≤ 0) := by decide
  obtain ⟨hlines, -⟩ := loop_renders toLines page maxBlocks ⟨0, false⟩ (Nat.zero_le _) (by simp)
  have hflag := loop_truncated toLines page maxBlocks ⟨0, false⟩ (Nat.zero_le _) (Nat.zero_le _)
    (by simp)
  have hfits : fits 0 maxBlocks page =
      !decide (((shallow 0 page).take maxBlocks).length < (preorder 0 page).length) := by
    have hle := List.length_filter_le (fun b : β × Nat => decide (b.2 ≤ maxDepth)) (preorder 0 page)
    have hall : ((preorder 0 page).filter fun b => decide (b.2 ≤ maxDepth)).length =
        (preorder 0 page).length ↔ ∀ b ∈ preorder 0 page, decide (b.2 ≤ maxDepth) :=
      List.length_filter_eq_length_iff
    rw [← shallow] at hle hall
    rw [Bool.eq_iff_iff, fits, Bool.and_eq_true, List.all_eq_true, ← hall]
    simp only [List.length_take, Bool.not_eq_true', decide_eq_false_iff_not, decide_eq_true_eq]
    omega
  have hcut : cutSilently 0 maxBlocks maxBlocks page → fits 0 maxBlocks page = false :=
    fun h => (cutSilently_spec (Nat.zero_le _) le_rfl h).2
  have hmarker : ∀ a b, marker a = marker b ↔ a = b := by decide
  simp only [pageLines, reportedLines, blocksToMarkdown, if_neg hlimit, Nat.sub_zero, hflag, hlines,
    List.append_cancel_left_eq, hmarker, Bool.false_or]
  rw [hfits] at hcut ⊢
  generalize decide (((shallow 0 page).take maxBlocks).length < (preorder 0 page).length) = short at hcut
  cases short <;> cases hc : cutSilently 0 maxBlocks maxBlocks page <;> simp_all

/-- A page of empty paragraphs. -/
def paragraphs : Nat → Blocks Unit
  | 0 => .nil
  | n + 1 => .node () .nil (paragraphs n)

/-- The last of 2001 paragraphs is not fetched, and no marker says so. -/
theorem last_paragraph_unreported :
    pageLines (fun _ _ => []) "Notes" [] (paragraphs 2001) ≠
      reportedLines (fun _ _ => []) "Notes" [] (paragraphs 2001) := by
  decide +kernel

end Yuanlei.Notion
