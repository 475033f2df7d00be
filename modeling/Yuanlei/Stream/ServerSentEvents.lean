import Yuanlei.Lib.JsonLines

/-!
# Server-sent events

The services write their streams with `format_sse` and `format_heartbeat`; the command
line client cuts the text into lines like `str.splitlines` and reads the records back in
`_iter_sse_events`.  The writer ends its lines with a newline and leaves the separators
U+0085, U+2028 and U+2029 in the data as they are, while the client ends a line at them.

Main results:

- `iterSseEvents_records`: a stream of records whose fields have no line break is read
  back record by record.
- `iterSseEvents_lines_iff`: the client reads what was written exactly if no string of
  the data has a separator and every id is a text of one line that is not empty.
-/

universe u

open Json (FloatText Unbroken dump)
open PyText (isLineBreak splitLines splitLinesFrom)

namespace Yuanlei

variable {F : Type u}

/-! ## Writing -/

/-- The arguments of `format_sse`; the name of an event has no line break. -/
structure SseMessage (F : Type u) where
  data : Json.Value F
  event : String
  eventId : Option String
  oneLine : ∀ c ∈ event.toList, isLineBreak c = false

/-- `f"{name}: {value}"`. -/
def sseField (name value : List Char) : List Char :=
  name ++ ':' :: ' ' :: value

/-- The line of the id; an empty id counts as none. -/
def idLines (eventId : Option String) : List (List Char) :=
  match eventId.filter (· ≠ "") with
  | none => []
  | some eventId => [sseField "id".toList eventId.toList]

/-- The lines of `format_sse` before the final empty one. -/
def sseLines (text : FloatText F) (m : SseMessage F) : List (List Char) :=
  sseField "event".toList m.event.toList :: sseField "data".toList (dump text m.data.1) ::
    idLines m.eventId

def formatSse (text : FloatText F) (m : SseMessage F) : List Char :=
  (sseLines text m).flatMap (· ++ ['\n']) ++ ['\n']

def formatHeartbeat : List Char :=
  ": heartbeat\n\n".toList

/-- What a stream sends. -/
inductive SseItem (F : Type u) where
  | message (m : SseMessage F)
  | heartbeat

/-- The text of a stream. -/
def sseText (text : FloatText F) (items : List (SseItem F)) : List Char :=
  items.flatMap fun
    | .message m => formatSse text m
    | .heartbeat => formatHeartbeat

/-! ## Reading -/

/-- A record that `_iter_sse_events` yields. -/
structure SseEvent where
  event : Option (List Char)
  data : List Char
  id : Option (List Char)
deriving DecidableEq

/-- The local variables `event` and `data_lines`. -/
structure SsePending where
  event : Option (List Char) := none
  id : Option (List Char) := none
  dataLines : List (List Char) := []

/-- `"\n".join(lines)`. -/
def joinLines (lines : List (List Char)) : List Char :=
  ['\n'].intercalate lines

/-- The record at a blank line or at the end, if it has data. -/
def SsePending.flush (p : SsePending) : List SseEvent :=
  if p.dataLines = [] then []
  else [{ event := p.event, data := joinLines p.dataLines, id := p.id }]

/-- The value of a line after the field name, without one leading blank. -/
def fieldValue (line : List Char) : List Char :=
  match line.dropWhile (· ≠ ':') with
  | [] => []
  | _ :: ' ' :: value => value
  | _ :: value => value

/-- A line that is neither blank nor a comment. -/
def SsePending.field (p : SsePending) (line : List Char) : SsePending :=
  let name := line.takeWhile (· ≠ ':')
  if name = "data".toList then { p with dataLines := p.dataLines ++ [fieldValue line] }
  else if name = "event".toList then { p with event := some (fieldValue line) }
  else if name = "id".toList then { p with id := some (fieldValue line) }
  else p

/-- The loop of `_iter_sse_events`. -/
def sseLoop (p : SsePending) : List (List Char) → List SseEvent
  | [] => p.flush
  | line :: lines =>
    if line = [] then p.flush ++ sseLoop {} lines
    else if line.head? = some ':' then sseLoop p lines
    else sseLoop (p.field line) lines

def iterSseEvents (lines : List (List Char)) : List SseEvent :=
  sseLoop {} lines

/-! ## Lines of a record -/

/-- The record that a message stands for. -/
def SseMessage.toEvent (text : FloatText F) (m : SseMessage F) : SseEvent where
  event := some m.event.toList
  data := dump text m.data.1
  id := m.eventId.map String.toList

variable {name : List Char}

theorem sseField_oneLine {value : List Char} (hname : ∀ c ∈ name, isLineBreak c = false)
    (hvalue : ∀ c ∈ value, isLineBreak c = false) :
    ∀ c ∈ sseField name value, isLineBreak c = false := by
  intro c hc
  simp only [sseField, List.mem_append, List.mem_cons] at hc
  rcases hc with hc | rfl | rfl | hc
  · exact hname c hc
  · decide
  · decide
  · exact hvalue c hc

variable {lines : List (List Char)}

theorem splitLines_flatMap (h : ∀ line ∈ lines, ∀ c ∈ line, isLineBreak c = false) (t : List Char) :
    splitLines (lines.flatMap (· ++ ['\n']) ++ t) = lines ++ splitLines t := by
  induction lines with
  | nil => rfl
  | cons line lines ih =>
    obtain ⟨hline, hlines⟩ := List.forall_mem_cons.mp h
    have hone := PyText.splitLinesFrom_of_forall [] hline
    have hrest := ih hlines
    unfold splitLines at hrest ⊢
    rw [List.flatMap_cons, List.append_assoc, List.append_assoc, List.singleton_append,
      PyText.splitLinesFrom_append, hone, hrest]
    rfl

theorem splitLines_newline (t : List Char) : splitLines ('\n' :: t) = [] :: splitLines t :=
  PyText.splitLinesFrom_newline [] t

/-- The id of a message, as the writer sees it. -/
def SseMessage.writtenId (m : SseMessage F) : Option (List Char) :=
  (m.eventId.filter (· ≠ "")).map String.toList

/-- The fields of a message have no line break. -/
def SseMessage.OneLine (text : FloatText F) (m : SseMessage F) : Prop :=
  (∀ c ∈ dump text m.data.1, isLineBreak c = false) ∧
    ∀ eventId ∈ m.eventId, ∀ c ∈ eventId.toList, isLineBreak c = false

variable {text : FloatText F} {m : SseMessage F}

theorem sseLines_oneLine (h : m.OneLine text) :
    ∀ line ∈ sseLines text m, ∀ c ∈ line, isLineBreak c = false := by
  intro line hline
  simp only [sseLines, List.mem_cons] at hline
  rcases hline with rfl | rfl | hline
  · exact sseField_oneLine (by decide) m.oneLine
  · exact sseField_oneLine (by decide) h.1
  · unfold idLines at hline
    split at hline
    · cases hline
    · rename_i eventId hid
      rw [List.mem_singleton] at hline
      subst hline
      exact sseField_oneLine (by decide) (h.2 eventId (Option.filter_eq_some_iff.mp hid).1)

theorem field_event (p : SsePending) (value : List Char) :
    p.field (sseField "event".toList value) = { p with event := some value } := by
  simp [SsePending.field, sseField, fieldValue]

theorem field_data (p : SsePending) (value : List Char) :
    p.field (sseField "data".toList value) = { p with dataLines := p.dataLines ++ [value] } := by
  simp [SsePending.field, sseField, fieldValue]

theorem field_id (p : SsePending) (value : List Char) :
    p.field (sseField "id".toList value) = { p with id := some value } := by
  simp [SsePending.field, sseField, fieldValue]

theorem sseLoop_sseField (p : SsePending) (value : List Char)
    (lines : List (List Char)) (hname : name ≠ []) (hcolon : name.head? ≠ some ':') :
    sseLoop p (sseField name value :: lines) = sseLoop (p.field (sseField name value)) lines := by
  obtain ⟨c, rest, rfl⟩ := List.exists_cons_of_ne_nil hname
  rw [sseLoop, if_neg (by simp [sseField]), if_neg (by simpa [sseField] using hcolon)]

theorem sseLoop_blank (p : SsePending) (lines : List (List Char)) :
    sseLoop p ([] :: lines) = p.flush ++ sseLoop {} lines :=
  rfl

theorem sseLoop_message (text : FloatText F) (m : SseMessage F) (lines : List (List Char)) :
    sseLoop {} (sseLines text m ++ [] :: lines) =
      { m.toEvent text with id := m.writtenId } :: sseLoop {} lines := by
  have hrecord : ∀ id, SsePending.flush
      { event := some m.event.toList, id := id, dataLines := [dump text m.data.1] } =
        [{ m.toEvent text with id := id }] := by
    intro id
    simp [SsePending.flush, joinLines, SseMessage.toEvent, List.intercalate]
  rw [sseLines, List.cons_append, List.cons_append,
    sseLoop_sseField _ _ _ (by decide) (by decide), field_event,
    sseLoop_sseField _ _ _ (by decide) (by decide), field_data]
  unfold idLines SseMessage.writtenId
  cases m.eventId.filter (· ≠ "") with
  | none =>
    simp only [List.nil_append, sseLoop_blank, hrecord]
    rfl
  | some eventId =>
    rw [List.cons_append, sseLoop_sseField _ _ _ (by decide) (by decide), field_id]
    simp only [List.nil_append, sseLoop_blank, hrecord]
    rfl

theorem sseLoop_heartbeat (lines : List (List Char)) :
    sseLoop {} (": heartbeat".toList :: [] :: lines) = sseLoop {} lines := by
  rfl

/-! ## Whole streams -/

/-- The messages of a stream. -/
def sseMessages (items : List (SseItem F)) : List (SseMessage F) :=
  items.filterMap fun
    | .message m => some m
    | .heartbeat => none

theorem iterSseEvents_records (text : FloatText F) {items : List (SseItem F)}
    (h : ∀ m ∈ sseMessages items, m.OneLine text) :
    iterSseEvents (splitLines (sseText text items)) =
      (sseMessages items).map fun m => { m.toEvent text with id := m.writtenId } := by
  unfold iterSseEvents
  induction items with
  | nil => rfl
  | cons item items ih =>
    cases item with
    | message m =>
      have hm : m.OneLine text := h m List.mem_cons_self
      have hlines : splitLines (sseText text (.message m :: items)) =
          sseLines text m ++ [] :: splitLines (sseText text items) := by
        simp only [sseText, List.flatMap_cons, formatSse, List.append_assoc, List.singleton_append]
        rw [splitLines_flatMap (sseLines_oneLine hm), splitLines_newline]
      rw [hlines, sseLoop_message, ih fun m' hm' => h m' (List.mem_cons_of_mem m hm')]
      rfl
    | heartbeat =>
      have hlines : splitLines (sseText text (.heartbeat :: items)) =
          ": heartbeat".toList :: [] :: splitLines (sseText text items) := by
        have honeLine : ∀ line ∈ [": heartbeat".toList], ∀ c ∈ line, isLineBreak c = false := by
          decide
        have hcut := splitLines_flatMap honeLine ('\n' :: sseText text items)
        rwa [splitLines_newline] at hcut
      rw [hlines, sseLoop_heartbeat, ih h]
      rfl

variable {line t : List Char}

theorem oneLine_of_mem_splitLinesFrom (hline : ∀ c ∈ line, isLineBreak c = false) {p : List Char}
    (hp : p ∈ splitLinesFrom line t) :
    ∀ c ∈ p, isLineBreak c = false := by
  induction t generalizing line with
  | nil =>
    simp only [splitLinesFrom] at hp
    split_ifs at hp
    · cases hp
    · rw [List.mem_singleton] at hp
      subst hp
      simpa using hline
  | cons c t ih =>
    rcases PyText.mem_splitLinesFrom_cons hp with ⟨-, rfl | hrest⟩ | ⟨hc, hrest⟩
    · simpa using hline
    · exact ih (by simp) hrest
    · exact ih (List.forall_mem_cons.mpr ⟨hc, hline⟩) hrest

/-- The fields read so far are from lines. -/
structure SsePending.OneLine (p : SsePending) : Prop where
  id : ∀ value ∈ p.id, ∀ c ∈ value, isLineBreak c = false
  dataLines : ∀ line ∈ p.dataLines, ∀ c ∈ line, isLineBreak c = false

variable {c : Char}

theorem mem_of_mem_fieldValue (h : c ∈ fieldValue line) :
    c ∈ line := by
  have hsuffix := List.dropWhile_sublist (l := line) (fun c => decide (c ≠ ':'))
  unfold fieldValue at h
  split at h
  · cases h
  · rename_i heq
    rw [heq] at hsuffix
    exact hsuffix.subset (List.mem_cons_of_mem _ (List.mem_cons_of_mem _ h))
  · rename_i heq
    rw [heq] at hsuffix
    exact hsuffix.subset (List.mem_cons_of_mem _ h)

variable {p : SsePending}

theorem SsePending.OneLine.field (h : p.OneLine) (hline : ∀ c ∈ line, isLineBreak c = false) :
    (p.field line).OneLine := by
  have hvalue : ∀ c ∈ fieldValue line, isLineBreak c = false :=
    fun c hc => hline c (mem_of_mem_fieldValue hc)
  unfold SsePending.field
  simp only
  split_ifs
  · refine ⟨h.id, ?_⟩
    intro data hdata
    rcases List.mem_append.mp hdata with hold | hnew
    · exact h.dataLines data hold
    · rw [List.mem_singleton] at hnew
      subst hnew
      exact hvalue
  · exact ⟨h.id, h.dataLines⟩
  · refine ⟨?_, h.dataLines⟩
    intro value hmem
    cases hmem
    exact hvalue
  · exact h

/-- A record has line breaks in its data only, and only newlines. -/
def SseEvent.OneLine (e : SseEvent) : Prop :=
  (∀ c ∈ e.data, isLineBreak c = true → c = '\n') ∧
    ∀ value ∈ e.id, ∀ c ∈ value, isLineBreak c = false

theorem mem_joinLines (h : c ∈ joinLines lines) :
    c = '\n' ∨ ∃ line ∈ lines, c ∈ line := by
  induction lines with
  | nil => cases h
  | cons line lines ih =>
    cases lines with
    | nil => exact .inr ⟨line, List.mem_cons_self, by simpa [joinLines, List.intercalate] using h⟩
    | cons next lines =>
      have hcons : joinLines (line :: next :: lines) =
          line ++ '\n' :: joinLines (next :: lines) := by
        simp [joinLines, List.intercalate]
      rw [hcons, List.mem_append, List.mem_cons] at h
      rcases h with hline | hnewline | hrest
      · exact .inr ⟨line, List.mem_cons_self, hline⟩
      · exact .inl hnewline
      · rcases ih hrest with hnewline | ⟨other, hother, hc⟩
        · exact .inl hnewline
        · exact .inr ⟨other, List.mem_cons_of_mem _ hother, hc⟩

variable {e : SseEvent}

theorem SsePending.OneLine.flush (h : p.OneLine) (he : e ∈ p.flush) : e.OneLine := by
  unfold SsePending.flush at he
  split_ifs at he
  · cases he
  · rw [List.mem_singleton] at he
    subst he
    refine ⟨?_, h.id⟩
    intro c hc hbreak
    rcases mem_joinLines hc with hnewline | ⟨line, hline, hmem⟩
    · exact hnewline
    · rw [h.dataLines line hline c hmem] at hbreak
      cases hbreak

/-- What the client reads is made of lines. -/
theorem oneLine_of_mem_sseLoop (hp : p.OneLine)
    (hlines : ∀ line ∈ lines, ∀ c ∈ line, isLineBreak c = false) (he : e ∈ sseLoop p lines) : e.OneLine := by
  induction lines generalizing p with
  | nil => exact hp.flush he
  | cons line lines ih =>
    obtain ⟨hline, hrest⟩ := List.forall_mem_cons.mp hlines
    rw [sseLoop] at he
    split_ifs at he
    · rcases List.mem_append.mp he with hflush | hlater
      · exact hp.flush hflush
      · exact ih ⟨by simp, by simp⟩ hrest hlater
    · exact ih hp hrest he
    · exact ih (hp.field hline) hrest he

/-- A message that the client can read back: no string of its data has a separator, and its id is
a text of one line that is not empty. -/
def SseMessage.Readable (m : SseMessage F) : Prop :=
  m.data.1.AllStrings Unbroken ∧
    ∀ eventId ∈ m.eventId, eventId ≠ "" ∧ ∀ c ∈ eventId.toList, isLineBreak c = false

theorem SseMessage.oneLine_of_mem (h : m.toEvent text ∈ iterSseEvents (splitLines t)) : m.OneLine text := by
  have hline : (m.toEvent text).OneLine :=
    oneLine_of_mem_sseLoop ⟨by simp, by simp⟩
      (fun line hline => oneLine_of_mem_splitLinesFrom (by simp) hline) h
  refine ⟨?_, ?_⟩
  · intro c hc
    cases hbreak : isLineBreak c with
    | false => rfl
    | true =>
      have hnewline := hline.1 c hc hbreak
      subst hnewline
      exact absurd hc (Json.newline_not_mem_dump text m.data.1)
  · intro eventId hid
    exact hline.2 eventId.toList (by simp [SseMessage.toEvent, Option.mem_def.mp hid])

theorem SseMessage.writtenId_eq_iff (m : SseMessage F) :
    m.writtenId = m.eventId.map String.toList ↔ ∀ eventId ∈ m.eventId, eventId ≠ "" := by
  unfold SseMessage.writtenId
  cases m.eventId with
  | none => simp
  | some eventId =>
    by_cases hempty : eventId = ""
    · simp [hempty]
    · simp [hempty, Option.filter]

/-- The client reads exactly the events that were written, with any heartbeats between them, if and
only if every message can be read back. -/
theorem iterSseEvents_lines_iff (text : FloatText F) (items : List (SseItem F)) :
    iterSseEvents (splitLines (sseText text items)) =
        (sseMessages items).map (SseMessage.toEvent text) ↔
      ∀ m ∈ sseMessages items, m.Readable := by
  constructor
  · intro heq m hm
    have honeLine : ∀ m ∈ sseMessages items, m.OneLine text := by
      intro m hm
      apply SseMessage.oneLine_of_mem
      rw [heq]
      exact List.mem_map_of_mem hm
    rw [iterSseEvents_records text honeLine, List.map_inj_left] at heq
    have hid : m.writtenId = m.eventId.map String.toList := congrArg SseEvent.id (heq m hm)
    refine ⟨(Json.dump_unbroken_iff text _).mp (honeLine m hm).1, ?_⟩
    intro eventId hmem
    exact ⟨m.writtenId_eq_iff.mp hid eventId hmem, (honeLine m hm).2 eventId hmem⟩
  · intro h
    rw [iterSseEvents_records text, List.map_inj_left]
    · intro m hm
      have hid := m.writtenId_eq_iff.mpr fun eventId hmem => ((h m hm).2 eventId hmem).1
      simp only [hid]
      rfl
    · intro m hm
      exact ⟨(Json.dump_unbroken_iff text _).mpr (h m hm).1,
        fun eventId hmem => ((h m hm).2 eventId hmem).2⟩

/-- An event whose data has the line separator U+2028. -/
def separatorMessage : SseMessage Unit where
  data := ⟨.obj [("text", .str "a\u2028b")], ⟨by decide, trivial, trivial⟩⟩
  event := "message"
  eventId := some "1-0"
  oneLine := by decide

/-- The client yields the data up to the separator only. -/
theorem separator_cuts_data :
    iterSseEvents (splitLines (sseText FloatText.zero [.message separatorMessage])) ≠
      [separatorMessage.toEvent FloatText.zero] := by
  decide +kernel

end Yuanlei
