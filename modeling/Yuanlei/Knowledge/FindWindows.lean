import Yuanlei.Lib.PosixPath
import Mathlib.Data.List.Infix
import Mathlib.Order.Interval.Finset.Nat

/-!
# Windows around the matches in a file

`_build_find_file_windows` of `knowledge/base.py` looks for the lines that match a pattern
and shows each of them in a window of numbered lines.  A match that the last window shows gets no
window of its own; the window of another match is centred on it, so it may show lines of the window in
front of it again.

Main results:

- `windowsLoop_spec`: what the loop has shown after some of the matches.
- `buildFindFileWindows_spec`: the windows are in order and show all matches.
- `centred_windows_overlap`: two windows that share a line with a match.
-/

namespace Yuanlei.KnowledgeFind

open PosixPath (Text)
open PyText (splitLines)

/-! ## Lines that match -/

/-- `str.lower`, and `re.compile` with its flag for the case: the `search` of a pattern,
unless the pattern is no regular expression. -/
structure TextSearch where
  lower : Text → Text
  compile : Bool → Text → Option (Text → Bool)

/-- `line_matches`; `none` is the error of a pattern. -/
def lineMatches (s : TextSearch) (patterns : List Text) (useRegex caseSensitive : Bool) :
    Option (Text → Bool) :=
  if useRegex then
    (patterns.mapM (s.compile !caseSensitive)).map fun matchers line => matchers.any (· line)
  else
    let normalized := if caseSensitive then patterns else patterns.map s.lower
    some fun line =>
      let haystack := if caseSensitive then line else s.lower line
      normalized.any fun pattern => decide (pattern <:+: haystack)

/-! ## Windows -/

inductive MatchMode
  | keyword
  | regex
  deriving DecidableEq

/-- `FindWindowSchema`. -/
structure FindWindow where
  startLine : Nat
  endLine : Nat
  matchedLines : List Nat
  content : Text
  deriving DecidableEq

/-- `FindOutputSchema` without the identifiers. -/
structure FindOutput where
  semantic : Bool
  matchMode : MatchMode
  totalMatches : Nat
  windows : List FindWindow
  deriving DecidableEq

inductive FindError
  | noPattern
  | invalidPattern
  deriving DecidableEq

/-- A line with its number in six columns. -/
def numberedLine (n : Nat) (line : Text) : Text :=
  let digits := Nat.toDigits 10 n
  List.replicate (6 - digits.length) ' ' ++ digits ++ '\t' :: line

/-- The numbers of the lines that match, from zero. -/
def matchedIndexes (isMatch : Text → Bool) (lines : List Text) : List Nat :=
  (List.range lines.length).filter fun i => isMatch (lines.getD i [])

/-- The end of the window of a match. -/
def windowEnd (lines : List Text) (size i : Nat) : Nat :=
  min (i - size / 2 + size) lines.length

/-- The window of a match. -/
def windowAt (lines : List Text) (matched : List Nat) (size i : Nat) : FindWindow :=
  let stop := windowEnd lines size i
  let start := stop - size
  let selected := (lines.drop start).take (stop - start)
  { startLine := if selected = [] then 0 else start + 1
    endLine := stop
    matchedLines := (matched.filter fun j => start ≤ j ∧ j < stop).map (· + 1)
    content := ['\n'].intercalate (selected.mapIdx fun idx line => numberedLine (start + idx + 1) line) }

/-- The loop over the matches that are left; `shown` is the number of windows so far. -/
def windowsLoop (lines : List Text) (matched : List Nat) (size : Nat) (maxWindows : Int) :
    Nat → Nat → List Nat → List FindWindow
  | _, _, [] => []
  | coveredUntil, shown, i :: rest =>
    if i < coveredUntil then windowsLoop lines matched size maxWindows coveredUntil shown rest
    else
      let w := windowAt lines matched size i
      if maxWindows ≤ shown + 1 then [w]
      else w :: windowsLoop lines matched size maxWindows w.endLine (shown + 1) rest

/-- The number of lines of a window. -/
def normalizedWindowSize (windowSize : Int) : Nat :=
  (min (max windowSize 1) 200).toNat

def buildFindFileWindows (s : TextSearch) (content : Text) (patterns : List Text)
    (useRegex caseSensitive : Bool) (maxWindows windowSize : Int) : Except FindError FindOutput :=
  let patterns := patterns.filter (· ≠ [])
  if patterns = [] then .error .noPattern
  else
    match lineMatches s patterns useRegex caseSensitive with
    | none => .error .invalidPattern
    | some isMatch =>
      let lines := splitLines content
      let matched := matchedIndexes isMatch lines
      .ok
        { semantic := false
          matchMode := if useRegex then .regex else .keyword
          totalMatches := matched.length
          windows := windowsLoop lines matched (normalizedWindowSize windowSize) maxWindows 0 0
            matched }

/-! ## One window -/

variable {lines : List Text} {isMatch : Text → Bool} {i : Nat}

theorem mem_matchedIndexes :
    i ∈ matchedIndexes isMatch lines ↔ i < lines.length ∧ isMatch (lines.getD i []) = true := by
  simp [matchedIndexes]

theorem pairwise_matchedIndexes (isMatch : Text → Bool) (lines : List Text) :
    (matchedIndexes isMatch lines).Pairwise (· < ·) :=
  List.Pairwise.filter _ List.pairwise_lt_range

variable {size : Nat}

theorem windowEnd_spec (hsize : 0 < size) (hi : i < lines.length) :
    i < windowEnd lines size i ∧ windowEnd lines size i ≤ lines.length ∧
      windowEnd lines size i - size ≤ i := by
  rw [windowEnd]
  omega

theorem windowEnd_lt {j : Nat} (hsize : 0 < size)
    (hj : j < lines.length) (hcovered : windowEnd lines size i ≤ j) :
    windowEnd lines size i < windowEnd lines size j ∧
      windowEnd lines size i - size < windowEnd lines size j - size := by
  rw [windowEnd] at hcovered ⊢
  rw [windowEnd]
  omega

/-- The lines with the numbers from `first` to `last`, each with its number. -/
def numberedLines (lines : List Text) (first last : Nat) : Text :=
  ['\n'].intercalate
    ((List.range' first (last + 1 - first)).map fun n => numberedLine n (lines.getD (n - 1) []))

/-- What a window of a text shows. -/
structure ShowsLines (isMatch : Text → Bool) (lines : List Text) (size : Nat) (w : FindWindow) :
    Prop where
  first : 1 ≤ w.startLine
  nonempty : w.startLine ≤ w.endLine
  last : w.endLine ≤ lines.length
  small : w.endLine + 1 - w.startLine ≤ size
  content : w.content = numberedLines lines w.startLine w.endLine
  sorted : w.matchedLines.Pairwise (· < ·)
  matched : ∀ n, n ∈ w.matchedLines ↔
    w.startLine ≤ n ∧ n ≤ w.endLine ∧ isMatch (lines.getD (n - 1) []) = true

theorem selected_eq (lines : List Text) {start stop : Nat} (hstop : stop ≤ lines.length)
    (f : Nat → Text → Text) :
    ((lines.drop start).take (stop - start)).mapIdx (fun idx line => f (start + idx + 1) line) =
      (List.range' (start + 1) (stop - start)).map fun n => f n (lines.getD (n - 1) []) := by
  apply List.ext_getElem
  · simp
    omega
  · intro k hk hk'
    have hlen : start + k < lines.length := by
      simp at hk
      omega
    simp [hlen]
    congr 1
    omega

theorem windowAt_shows {isMatch : Text → Bool} {lines : List Text} {size i : Nat} (hsize : 0 < size)
    (hi : i < lines.length) :
    ShowsLines isMatch lines size (windowAt lines (matchedIndexes isMatch lines) size i) ∧
      (windowAt lines (matchedIndexes isMatch lines) size i).startLine =
        windowEnd lines size i - size + 1 := by
  obtain ⟨hend, hlast, hstart⟩ := windowEnd_spec hsize hi
  have hselected : (lines.drop (windowEnd lines size i - size)).take
      (windowEnd lines size i - (windowEnd lines size i - size)) ≠ [] := by
    rw [← List.length_pos_iff_ne_nil, List.length_take, List.length_drop]
    omega
  have hfirst : (windowAt lines (matchedIndexes isMatch lines) size i).startLine =
      windowEnd lines size i - size + 1 := if_neg hselected
  have hstop : (windowAt lines (matchedIndexes isMatch lines) size i).endLine =
      windowEnd lines size i := rfl
  refine ⟨?_, hfirst⟩
  constructor
  · omega
  · omega
  · omega
  · omega
  · rw [hfirst, hstop, numberedLines, windowAt]
    have hcount : windowEnd lines size i + 1 - (windowEnd lines size i - size + 1) =
        windowEnd lines size i - (windowEnd lines size i - size) := by omega
    rw [hcount, selected_eq lines hlast numberedLine]
  · refine List.Pairwise.map _ (fun a b hab => Nat.succ_lt_succ hab) ?_
    exact (pairwise_matchedIndexes isMatch lines).filter _
  · intro n
    rw [hfirst, hstop, windowAt]
    simp only [List.mem_map, List.mem_filter, mem_matchedIndexes, decide_eq_true_eq]
    constructor
    · rintro ⟨j, ⟨⟨_, hmatch⟩, hge, hlt⟩, rfl⟩
      exact ⟨by omega, by omega, by simpa using hmatch⟩
    · rintro ⟨hge, hle, hmatch⟩
      exact ⟨n - 1, ⟨⟨by omega, hmatch⟩, by omega, by omega⟩, by omega⟩

/-! ## All windows -/

/-- A window lies behind another one, and a match that it lists is not shown by the other one. -/
def Behind (a b : FindWindow) : Prop :=
  a.startLine < b.startLine ∧ a.endLine < b.endLine ∧ ∃ n ∈ b.matchedLines, a.endLine < n

/-- The windows of a loop show lines of the text, lie behind one another and behind what is covered,
and show all matches behind that unless there are too many of them. -/
structure LoopSpec (isMatch : Text → Bool) (lines : List Text) (size : Nat) (maxWindows : Int)
    (coveredUntil shown : Nat) (rest : List Nat) (windows : List FindWindow) : Prop where
  centred : ∀ w ∈ windows, ∃ i ∈ rest, coveredUntil ≤ i ∧
    w = windowAt lines (matchedIndexes isMatch lines) size i
  behind : windows.Pairwise Behind
  shows : (shown + windows.length : Int) < maxWindows → ∀ i ∈ rest, coveredUntil ≤ i →
    ∃ w ∈ windows, i + 1 ∈ w.matchedLines
  few : (shown + windows.length : Int) ≤ max maxWindows (shown + 1)

theorem windowsLoop_spec (hsize : 0 < size)
    (maxWindows : Int) {rest : List Nat} (hrest : ∀ i ∈ rest, i ∈ matchedIndexes isMatch lines)
    (hsorted : rest.Pairwise (· < ·)) (coveredUntil shown : Nat) :
    LoopSpec isMatch lines size maxWindows coveredUntil shown rest
      (windowsLoop lines (matchedIndexes isMatch lines) size maxWindows coveredUntil shown rest) := by
  induction rest generalizing coveredUntil shown with
  | nil =>
    constructor
    · simp [windowsLoop]
    · simp [windowsLoop]
    · simp
    · simp [windowsLoop]
  | cons i rest ih =>
    have hi := mem_matchedIndexes.mp (hrest i (List.mem_cons_self ..))
    have hrest' := fun j hj => hrest j (List.mem_cons_of_mem i hj)
    obtain ⟨hhead, htail⟩ := List.pairwise_cons.mp hsorted
    obtain ⟨hshows, hstart⟩ := @windowAt_shows isMatch lines size i hsize hi.1
    obtain ⟨hend, -, hle⟩ := windowEnd_spec hsize hi.1
    rw [windowsLoop]
    by_cases hcovered : i < coveredUntil
    · rw [if_pos hcovered]
      have hspec := ih hrest' htail coveredUntil shown
      constructor
      · intro w hw
        obtain ⟨j, hj, hge, heq⟩ := hspec.centred w hw
        exact ⟨j, List.mem_cons_of_mem i hj, hge, heq⟩
      · exact hspec.behind
      · intro hroom j hj hge
        rcases List.mem_cons.mp hj with rfl | hj
        · omega
        · exact hspec.shows hroom j hj hge
      · exact hspec.few
    rw [if_neg hcovered]
    have hlisted : i + 1 ∈ (windowAt lines (matchedIndexes isMatch lines) size i).matchedLines := by
      rw [hshows.matched, hstart]
      refine ⟨by omega, ?_, by simpa using hi.2⟩
      exact hend
    by_cases hfull : maxWindows ≤ shown + 1
    · rw [if_pos hfull]
      constructor
      · intro w hw
        rw [List.mem_singleton] at hw
        exact ⟨i, List.mem_cons_self .., by omega, hw⟩
      · exact List.pairwise_singleton _ _
      · intro hroom
        simp only [List.length_singleton] at hroom
        omega
      · simp only [List.length_singleton]
        omega
    · have hstop : (windowAt lines (matchedIndexes isMatch lines) size i).endLine =
          windowEnd lines size i := rfl
      rw [if_neg hfull, hstop]
      have hspec := ih hrest' htail (windowEnd lines size i) (shown + 1)
      constructor
      · intro w hw
        rcases List.mem_cons.mp hw with rfl | hw
        · exact ⟨i, List.mem_cons_self .., by omega, rfl⟩
        · obtain ⟨j, hj, hge, heq⟩ := hspec.centred w hw
          exact ⟨j, List.mem_cons_of_mem i hj, by omega, heq⟩
      · refine List.pairwise_cons.mpr ⟨fun w hw => ?_, hspec.behind⟩
        -- the match of a later window is not shown by this one
        obtain ⟨j, hj, hge, rfl⟩ := hspec.centred w hw
        have hmatch := mem_matchedIndexes.mp (hrest' j hj)
        obtain ⟨hshows', hstart'⟩ := @windowAt_shows isMatch lines size j hsize hmatch.1
        obtain ⟨hend', -, hle'⟩ := windowEnd_spec hsize hmatch.1
        obtain ⟨hlater, hlater'⟩ := windowEnd_lt hsize hmatch.1 hge
        refine ⟨by omega, hlater, j + 1, ?_, Nat.lt_succ_of_le hge⟩
        rw [hshows'.matched, hstart']
        exact ⟨by omega, hend', by simpa using hmatch.2⟩
      · intro hroom j hj hge
        simp only [List.length_cons] at hroom
        rcases List.mem_cons.mp hj with rfl | hj
        · exact ⟨_, List.mem_cons_self .., hlisted⟩
        by_cases hin : windowEnd lines size i ≤ j
        · obtain ⟨w, hw, hmem⟩ := hspec.shows (by push_cast at hroom ⊢; omega) j hj hin
          exact ⟨w, List.mem_cons_of_mem _ hw, hmem⟩
        · refine ⟨_, List.mem_cons_self .., ?_⟩
          have hmatch := mem_matchedIndexes.mp (hrest' j hj)
          have hlt := hhead j hj
          rw [hshows.matched, hstart]
          refine ⟨by omega, ?_, by simpa using hmatch.2⟩
          show j + 1 ≤ windowEnd lines size i
          omega
      · have hfew := hspec.few
        simp only [List.length_cons]
        push_cast at hfew ⊢
        omega

/-- The windows of a text: numbered lines of it, in order, each with a match that no window in front
of it shows; together they list every match when there is room for more windows. -/
structure WindowsSpec (isMatch : Text → Bool) (lines : List Text) (maxWindows windowSize : Int)
    (out : FindOutput) : Prop where
  total : out.totalMatches = lines.countP isMatch
  shows : ∀ w ∈ out.windows, ShowsLines isMatch lines (normalizedWindowSize windowSize) w
  behind : out.windows.Pairwise Behind
  complete : (out.windows.length : Int) < maxWindows →
    ∀ n, 1 ≤ n → n ≤ lines.length → isMatch (lines.getD (n - 1) []) = true →
      ∃ w ∈ out.windows, n ∈ w.matchedLines
  few : (out.windows.length : Int) ≤ max maxWindows 1

theorem normalizedWindowSize_spec (windowSize : Int) :
    0 < normalizedWindowSize windowSize ∧ normalizedWindowSize windowSize ≤ 200 ∧
      (1 ≤ windowSize → (normalizedWindowSize windowSize : Int) ≤ windowSize) := by
  rw [normalizedWindowSize]
  omega

theorem length_matchedIndexes (isMatch : Text → Bool) (lines : List Text) :
    (matchedIndexes isMatch lines).length = lines.countP isMatch := by
  have hlines : (List.range lines.length).map (fun i => lines.getD i []) = lines := by
    apply List.ext_getElem
    · simp
    · intro k hk hk'
      simp [hk']
  rw [matchedIndexes, ← List.countP_eq_length_filter]
  conv_rhs => rw [← hlines, List.countP_map]
  rfl

/-- The windows of every text for which there are windows. -/
theorem buildFindFileWindows_spec {s : TextSearch} {content : Text} {patterns : List Text}
    {useRegex caseSensitive : Bool} {maxWindows windowSize : Int} {out : FindOutput}
    (h : buildFindFileWindows s content patterns useRegex caseSensitive maxWindows windowSize =
      .ok out) :
    ∃ isMatch, lineMatches s (patterns.filter (· ≠ [])) useRegex caseSensitive = some isMatch ∧
      WindowsSpec isMatch (splitLines content) maxWindows windowSize out := by
  rw [buildFindFileWindows] at h
  simp only at h
  split at h
  · cases h
  · cases hmatch : lineMatches s (patterns.filter (· ≠ [])) useRegex caseSensitive with
    | none =>
      rw [hmatch] at h
      cases h
    | some isMatch =>
      rw [hmatch] at h
      obtain rfl := (Except.ok.inj h).symm
      have hsize := (normalizedWindowSize_spec windowSize).1
      have hspec := windowsLoop_spec hsize maxWindows (fun _ hi => hi)
        (pairwise_matchedIndexes isMatch (splitLines content)) 0 0
      refine ⟨isMatch, rfl, ?_⟩
      constructor
      · exact length_matchedIndexes isMatch (splitLines content)
      · intro w hw
        obtain ⟨i, hi, -, rfl⟩ := hspec.centred w hw
        exact (windowAt_shows hsize (mem_matchedIndexes.mp hi).1).1
      · exact hspec.behind
      · intro hroom n hpos hle hline
        have hmem : n - 1 ∈ matchedIndexes isMatch (splitLines content) :=
          mem_matchedIndexes.mpr ⟨by omega, hline⟩
        obtain ⟨w, hw, hin⟩ := hspec.shows (by simpa using hroom) (n - 1) hmem (Nat.zero_le _)
        exact ⟨w, hw, by rwa [Nat.sub_add_cancel hpos] at hin⟩
      · simpa using hspec.few

/-- ASCII letters, and no regular expressions. -/
def plainSearch : TextSearch where
  lower := List.map Char.toLower
  compile _ _ := none

/-- Seven lines, of which the first, the fourth and the fifth match. -/
def sevenLines : Text :=
  "a\nb\nb\na\na\nb\nb".toList

theorem sevenLines_windows : ∃ out isMatch,
    buildFindFileWindows plainSearch sevenLines [['A']] false false 5 3 = .ok out ∧
      WindowsSpec isMatch (splitLines sevenLines) 5 3 out := by
  have hout : buildFindFileWindows plainSearch sevenLines [['A']] false false 5 3 =
      .ok
        { semantic := false
          matchMode := .keyword
          totalMatches := 3
          windows :=
            [{ startLine := 1, endLine := 3, matchedLines := [1]
               content := "     1\ta\n     2\tb\n     3\tb".toList },
             { startLine := 3, endLine := 5, matchedLines := [4, 5]
               content := "     3\tb\n     4\ta\n     5\ta".toList }] } := by
    decide +kernel
  obtain ⟨isMatch, -, hspec⟩ := buildFindFileWindows_spec hout
  exact ⟨_, isMatch, hout, hspec⟩

/-- The second window starts at a line of the first one and lists a match that the first one lists. -/
theorem centred_windows_overlap :
    (match buildFindFileWindows plainSearch sevenLines [['a']] false true 5 4 with
      | .ok out => out.windows.map fun w => (w.startLine, w.endLine, w.matchedLines)
      | .error _ => []) = [(1, 4, [1, 4]), (3, 6, [4, 5])] := by
  decide +kernel

end Yuanlei.KnowledgeFind
