import Yuanlei.Lib.Transition
import Yuanlei.Web.RunEventClient

/-!
# What reaches the page

The ids of a run's log are strictly increasing, so the handler can tell what it has seen from the
last id alone.  The reader stands at a line of a record or between two records, wherever the network
cuts the bytes, and a record that carries its id is complete.

Main results:

- `readText_eq_foldl`: a chunk is read character by character.
- `passed_prefix_of_log`: the records that pass the guard are a prefix of the entries
  that can be read, and the ones that are dispatched are those of them that are no retryable errors.
-/

universe u

open Json (FloatText Dict loads dump)

namespace Yuanlei.WebClient

variable {F : Type u}

/-! ## Sequence numbers -/

theorem isJsSpace_of_isDigit {c : Char} (h : c.isDigit) : isJsSpace c = false := by
  have hrange : 48 ≤ c.toNat ∧ c.toNat ≤ 57 := by
    simpa [Char.isDigit, UInt32.le_iff_toNat_le] using h
  simp only [isJsSpace, List.mem_cons, List.not_mem_nil, or_false, Bool.or_eq_false_iff,
    decide_eq_false_iff_not, Bool.and_eq_false_iff]
  omega

theorem trim_of_ends {t : List Char} (hhead : ∀ c ∈ t.head?, isJsSpace c = false)
    (hlast : ∀ c ∈ t.getLast?, isJsSpace c = false) : trim t = t := by
  have hstart : trimStart t = t := by
    unfold trimStart
    cases t with
    | nil => rfl
    | cons c t => rw [List.dropWhile_cons_of_neg (by simp [hhead c rfl])]
  unfold trim
  rw [hstart, List.rdropWhile_eq_self_iff]
  intro hne
  simp [hlast _ (List.getLast?_eq_getLast_of_ne_nil hne)]

variable (t : List Char)

theorem trimStart_space : trimStart (' ' :: t) = trimStart t := by
  simp [trimStart, show isJsSpace ' ' = true by decide]

theorem trim_space : trim (' ' :: t) = trim t := by
  simp only [trim, trimStart_space]

theorem digits_toDigits (n : Nat) : Json.Digits (Nat.toDigits 10 n) :=
  (Json.intPart_toDigits n).digits

variable (id : EventId)

theorem takeWhile_idText :
    (idText id).takeWhile Char.isDigit = Nat.toDigits 10 (ofLex id).1 := by
  rw [idText, List.takeWhile_append_of_pos (digits_toDigits _).2]
  simp

theorem dropWhile_idText :
    (idText id).dropWhile Char.isDigit = '-' :: Nat.toDigits 10 (ofLex id).2 := by
  rw [idText, List.dropWhile_append_of_pos (digits_toDigits _).2]
  simp

theorem trim_idText : trim (idText id) = idText id := by
  obtain ⟨hne₁, hall₁⟩ := digits_toDigits (ofLex id).1
  obtain ⟨hne₂, hall₂⟩ := digits_toDigits (ofLex id).2
  apply trim_of_ends
  · intro c hc
    rw [idText, List.head?_append_of_ne_nil _ hne₁] at hc
    exact isJsSpace_of_isDigit (hall₁ c (List.mem_of_mem_head? hc))
  · intro c hc
    rw [idText, List.getLast?_append_of_ne_nil _ (List.cons_ne_nil _ _),
      List.getLast?_cons_of_ne_nil hne₂] at hc
    exact isJsSpace_of_isDigit (hall₂ c (List.mem_of_mem_getLast? hc))

theorem normalizeRunSeq_idText : normalizeRunSeq (idText id) = idText id := by
  have hmatches : matchesRunSeqPattern (idText id) = true := by
    simpa [matchesRunSeqPattern, dropWhile_idText, takeWhile_idText,
      (digits_toDigits (ofLex id).1).1, (digits_toDigits (ofLex id).2).1] using
      (digits_toDigits (ofLex id).2).2
  rw [normalizeRunSeq, trim_idText, if_pos hmatches]

theorem parseRunSeq_idText : parseRunSeq (idText id) = id := by
  simp only [parseRunSeq, normalizeRunSeq_idText, takeWhile_idText, dropWhile_idText,
    List.drop_one, List.tail_cons, Nat.ofDigitChars_ten_toDigits]
  rfl

theorem compareRunSeq_idText (id id' : EventId) :
    compareRunSeq (idText id) (idText id') ≤ 0 ↔ id ≤ id' := by
  simp only [compareRunSeq, parseRunSeq_idText, Prod.Lex.le_iff]
  split_ifs <;> omega

/-! ## Character by character -/

section Reading

variable (floats : Floats F) (runId : RunId) (pendingInterrupt : List (RunRecord F) → Bool)

/-- A page with another piece of a line in its buffer. -/
def Page.withBuffer (σ : Page F) (buffer : List Char) : Page F :=
  { σ with reader := { σ.reader with buffer } }

/-- One character of the response. -/
def readChar (σ : Page F) (c : Char) : Page F :=
  if c = '\n' then
    readLine floats runId pendingInterrupt (σ.withBuffer []) σ.reader.buffer
  else σ.withBuffer (σ.reader.buffer ++ [c])

theorem readLine_withBuffer (σ : Page F) (line buffer : List Char) :
    readLine floats runId pendingInterrupt (σ.withBuffer buffer) line =
      (readLine floats runId pendingInterrupt σ line).withBuffer buffer := by
  have hfield : ∀ (r : SseReader) (line : List Char),
      SseReader.field { r with buffer := buffer } line =
        { r.field line with buffer := buffer } := by
    intro r line
    unfold SseReader.field
    split_ifs <;> rfl
  by_cases hline : SseReader.dropReturn line = []
  · simp only [readLine, hline, if_true]
    rfl
  · simp only [readLine, hline, if_false, Page.withBuffer, hfield]

theorem readText_eq_foldl (t : List Char) : ∀ {σ : Page F}, '\n' ∉ σ.reader.buffer →
    readText floats runId pendingInterrupt σ t =
      t.foldl (readChar floats runId pendingInterrupt) σ := by
  induction t with
  | nil =>
    intro σ hbuffer
    have hlines : (σ.reader.buffer ++ []).splitOn '\n' = [σ.reader.buffer] := by
      rw [List.append_nil]
      exact List.splitOn_eq_singleton hbuffer
    simp only [readText, hlines]
    rfl
  | cons c t ih =>
    intro σ hbuffer
    rw [List.foldl_cons]
    by_cases hc : c = '\n'
    · subst hc
      have hlines := List.splitOn_append_cons_self_of_not_mem hbuffer t
      have hne := List.splitOn_ne_nil '\n' t
      have hline := readLine_withBuffer floats runId pendingInterrupt σ σ.reader.buffer []
      have hempty : (readLine floats runId pendingInterrupt (σ.withBuffer [])
          σ.reader.buffer).reader.buffer = [] := by
        rw [hline]
        rfl
      rw [readChar, if_pos rfl, ← ih (by rw [hempty]; exact List.not_mem_nil)]
      simp only [readText, hempty, hlines, List.nil_append, List.dropLast_cons_of_ne_nil hne,
        List.foldl_cons]
      have hlast : (σ.reader.buffer :: t.splitOn '\n').getLastD [] =
          (t.splitOn '\n').getLastD [] := by
        rw [List.getLastD_cons, List.getLastD_eq_getLast?, List.getLastD_eq_getLast?,
          List.getLast?_eq_getLast_of_ne_nil hne]
        rfl
      have hnext := readLine_withBuffer floats runId pendingInterrupt σ σ.reader.buffer
        ((t.splitOn '\n').getLastD [])
      rw [hlast, hline]
      exact congrArg (fun page => (t.splitOn '\n').dropLast.foldl
        (readLine floats runId pendingInterrupt) page) hnext
    · have hbuffer' : '\n' ∉ σ.reader.buffer ++ [c] := by
        simpa [hbuffer] using Ne.symm hc
      rw [readChar, if_neg hc, ← ih hbuffer']
      simp only [readText, Page.withBuffer, List.append_assoc, List.singleton_append]

end Reading

/-! ## The lines of a record -/

/-- The record that an entry stands for. -/
def received (e : EventId × LogEvent F) : RunRecord F where
  event := SseReader.eventName e.2.eventType.toList
  data := e.2.envelope.toJson
  eventId := some (idText e.1)

/-- `JSON.parse` reads the data of an entry. -/
def isReadable (floats : Floats F) (e : EventId × LogEvent F) : Bool :=
  finite floats e.2.envelope.toJson

/-- The entries whose data can be read. -/
def RunLog.readable (floats : Floats F) (log : RunLog F) : RunLog F where
  entries := log.entries.filter (isReadable floats)
  sorted := log.sorted.filter _
  positive := by
    intro e he
    exact log.positive e (List.mem_filter.mp he).1

section Lines

variable (floats : Floats F)

def eventLine (e : EventId × LogEvent F) : List Char :=
  sseField "event".toList e.2.eventType.toList

def dataLine (e : EventId × LogEvent F) : List Char :=
  sseField "data".toList (dump floats.toFloatText e.2.envelope.toJson)

def idLine (e : EventId × LogEvent F) : List Char :=
  sseField "id".toList (idText e.1)

theorem idText_ne_nil (id : EventId) : idText id ≠ [] := by
  simp [idText]

variable (e : EventId × LogEvent F)

theorem formatSse_sseMessage :
    formatSse floats.toFloatText (sseMessage e) =
      eventLine e ++ '\n' :: (dataLine floats e ++ '\n' :: (idLine e ++ ['\n', '\n'])) := by
  have hne : String.ofList (idText e.1) ≠ "" := by
    intro h
    exact idText_ne_nil e.1 (by simpa using congrArg String.toList h)
  have hid : idLines (some (String.ofList (idText e.1))) = [idLine e] := by
    have hfilter : (some (String.ofList (idText e.1))).filter (· ≠ "") =
        some (String.ofList (idText e.1)) := by
      rw [Option.filter_some, if_pos (by simpa using hne)]
    simp only [idLines, hfilter, String.toList_ofList]
    rfl
  simp [formatSse, sseLines, sseMessage, hid, eventLine, dataLine, Dict.value]

variable {c : Char}

theorem notMem_sseField {name value : List Char} (hname : c ∉ name) (hcolon : c ≠ ':')
    (hspace : c ≠ ' ') (hvalue : c ∉ value) : c ∉ sseField name value := by
  simp [sseField, hname, hcolon, hspace, hvalue]

theorem notMem_eventType (h : PyText.isLineBreak c = true) :
    c ∉ e.2.eventType.toList := by
  intro hc
  have hline := e.2.oneLine c hc
  rw [h] at hline
  cases hline

theorem notMem_idText (id : EventId) (h : c.isDigit = false) (hne : c ≠ '-') :
    c ∉ idText id := by
  intro hc
  rcases List.mem_append.mp hc with hmajor | hminor
  · have hdigit := (digits_toDigits _).2 c hmajor
    rw [h] at hdigit
    cases hdigit
  · rcases List.mem_cons.mp hminor with heq | hminor
    · exact hne heq
    · have hdigit := (digits_toDigits _).2 c hminor
      rw [h] at hdigit
      cases hdigit

theorem newline_notMem_eventLine : '\n' ∉ eventLine e :=
  notMem_sseField (by decide) (by decide) (by decide) (notMem_eventType e (by decide))

theorem newline_notMem_dataLine : '\n' ∉ dataLine floats e :=
  notMem_sseField (by decide) (by decide) (by decide) (Json.newline_not_mem_dump _ _)

theorem newline_notMem_idLine : '\n' ∉ idLine e :=
  notMem_sseField (by decide) (by decide) (by decide) (notMem_idText e.1 (by decide) (by decide))

theorem dropReturn_of_notMem {line : List Char} (h : line.getLast? ≠ some '\r') :
    SseReader.dropReturn line = line := by
  rw [SseReader.dropReturn, if_neg h]

theorem dropReturn_eventLine :
    SseReader.dropReturn (eventLine e) = eventLine e := by
  have hnot : '\r' ∉ eventLine e :=
    notMem_sseField (by decide) (by decide) (by decide) (notMem_eventType e (by decide))
  exact dropReturn_of_notMem fun h => hnot (List.mem_of_getLast? h)

theorem dropReturn_dataLine :
    SseReader.dropReturn (dataLine floats e) = dataLine floats e := by
  obtain ⟨t, ht⟩ := Json.dump_object floats.toFloatText e.2.envelope.fields
  apply dropReturn_of_notMem
  have hlast : (dataLine floats e).getLast? = some '}' := by
    rw [dataLine, sseField, Dict.toJson, ht, ← List.cons_append, ← List.cons_append,
      ← List.cons_append, ← List.append_assoc, List.getLast?_concat]
  rw [hlast]
  decide

theorem dropReturn_idLine :
    SseReader.dropReturn (idLine e) = idLine e := by
  have hnot : '\r' ∉ idLine e :=
    notMem_sseField (by decide) (by decide) (by decide) (notMem_idText e.1 (by decide) (by decide))
  exact dropReturn_of_notMem fun h => hnot (List.mem_of_getLast? h)

variable (r : SseReader)

theorem field_eventLine (e : EventId × LogEvent F) :
    r.field (eventLine e) = { r with eventType := (received e).event } := by
  have hname : SseReader.eventName (' ' :: e.2.eventType.toList) =
      SseReader.eventName e.2.eventType.toList := by
    simp only [SseReader.eventName, trim_space]
  simp [SseReader.field, eventLine, sseField, received, hname]

theorem field_dataLine (e : EventId × LogEvent F) : r.field (dataLine floats e) =
      { r with
        dataLines := r.dataLines ++ [dump floats.toFloatText e.2.envelope.toJson] } := by
  obtain ⟨t, ht⟩ := Json.dump_object floats.toFloatText e.2.envelope.fields
  have htrim : trimStart (' ' :: dump floats.toFloatText e.2.envelope.toJson) =
      dump floats.toFloatText e.2.envelope.toJson := by
    rw [trimStart_space, Dict.toJson, ht]
    rfl
  simp [SseReader.field, dataLine, sseField, htrim]

theorem field_idLine (e : EventId × LogEvent F) :
    r.field (idLine e) = { r with eventId := some (idText e.1) } := by
  simp [SseReader.field, idLine, sseField, trim_space, trim_idText]

end Lines

/-! ## Positions of the reader -/

/-- The collected fields of a record. -/
def SseReader.Holds (r : SseReader) (eventType : List Char) (eventId : Option (List Char))
    (dataLines : List (List Char)) : Prop :=
  r.eventType = eventType ∧ r.eventId = eventId ∧ r.dataLines = dataLines

section Positions

variable (floats : Floats F) (runId : RunId) (pendingInterrupt : List (RunRecord F) → Bool)

/-- What the server sends for some entries. -/
def serverText (beats : List Nat) (entries : List (EventId × LogEvent F)) : List Char :=
  sseText floats.toFloatText (serverItems beats entries)

/-- Where the reader stands, from the line that it is reading on: between two records, in a
heartbeat, or behind a line of the first entry. -/
inductive Position (r : SseReader) : List Char → List (EventId × LogEvent F) → Prop
  | start (beats : List Nat) (entries : List (EventId × LogEvent F))
      (h : r.Holds "message".toList none []) : Position r (serverText floats beats entries) entries
  | heartbeat (beats : List Nat) (entries : List (EventId × LogEvent F))
      (h : r.Holds "message".toList none []) :
      Position r ('\n' :: serverText floats beats entries) entries
  | data (e : EventId × LogEvent F) (beats : List Nat) (entries : List (EventId × LogEvent F))
      (h : r.Holds (received e).event none []) :
      Position r
        (dataLine floats e ++ '\n' :: (idLine e ++ '\n' :: '\n' :: serverText floats beats entries))
        (e :: entries)
  | id (e : EventId × LogEvent F) (beats : List Nat) (entries : List (EventId × LogEvent F))
      (h : r.Holds (received e).event none [dump floats.toFloatText e.2.envelope.toJson]) :
      Position r (idLine e ++ '\n' :: '\n' :: serverText floats beats entries) (e :: entries)
  | blank (e : EventId × LogEvent F) (beats : List Nat) (entries : List (EventId × LogEvent F))
      (h : r.Holds (received e).event (received e).eventId
        [dump floats.toFloatText e.2.envelope.toJson]) :
      Position r ('\n' :: serverText floats beats entries) (e :: entries)

variable {line rest : List Char}

/-- The first line of a text. -/
theorem line_unique {line' rest' : List Char} (hline : '\n' ∉ line)
    (hline' : '\n' ∉ line') (h : line ++ '\n' :: rest = line' ++ '\n' :: rest') :
    line = line' ∧ rest = rest' := by
  induction line generalizing line' with
  | nil =>
    cases line' with
    | nil => exact ⟨rfl, (List.cons.inj h).2⟩
    | cons c' line' =>
      have hc := (List.cons.inj h).1
      exact absurd (hc ▸ List.mem_cons_self) hline'
  | cons c line ih =>
    cases line' with
    | nil =>
      have hc := (List.cons.inj h).1
      exact absurd (hc ▸ List.mem_cons_self) hline
    | cons c' line' =>
      obtain ⟨rfl, htail⟩ := List.cons.inj h
      have hrest := ih (fun hmem => hline (List.mem_cons_of_mem _ hmem))
        (fun hmem => hline' (List.mem_cons_of_mem _ hmem)) htail
      exact ⟨by rw [hrest.1], hrest.2⟩

theorem serverText_cases (beats : List Nat) (entries : List (EventId × LogEvent F)) :
    serverText floats beats entries = [] ∨ (∃ beats', serverText floats beats entries =
        ": heartbeat".toList ++ '\n' :: '\n' :: serverText floats beats' entries) ∨
      ∃ e later beats', entries = e :: later ∧ serverText floats beats entries =
          eventLine e ++ '\n' :: (dataLine floats e ++ '\n' ::
            (idLine e ++ '\n' :: '\n' :: serverText floats beats' later)) := by
  have hmessage : ∀ (e : EventId × LogEvent F) items,
      sseText floats.toFloatText (.message (sseMessage e) :: items) =
        eventLine e ++ '\n' :: (dataLine floats e ++ '\n' ::
          (idLine e ++ '\n' :: '\n' :: sseText floats.toFloatText items)) := by
    intro e items
    rw [sseText, List.flatMap_cons]
    simp only [formatSse_sseMessage, List.append_assoc, List.cons_append, List.nil_append]
    rfl
  rcases beats with _ | ⟨_ | n, beats⟩
  · rcases entries with _ | ⟨e, later⟩
    · exact .inl rfl
    · exact .inr (.inr ⟨e, later, [], rfl, hmessage e _⟩)
  · rcases entries with _ | ⟨e, later⟩
    · exact .inl rfl
    · exact .inr (.inr ⟨e, later, beats, rfl, hmessage e _⟩)
  · rcases entries with _ | ⟨e, later⟩
    · exact .inr (.inl ⟨n :: beats, rfl⟩)
    · exact .inr (.inl ⟨n :: beats, rfl⟩)

variable {σ : Page F}

theorem readLine_field (hline : SseReader.dropReturn line = line) (hne : line ≠ []) :
    readLine floats runId pendingInterrupt σ line = { σ with reader := σ.reader.field line } := by
  rw [readLine]
  simp only [hline, hne, if_false]

theorem sseField_ne_nil (name value : List Char) : sseField name value ≠ [] := by
  simp [sseField]

theorem readLine_nil (σ : Page F) : readLine floats runId pendingInterrupt σ [] =
    { σ with thread := flush floats runId pendingInterrupt σ, reader := σ.reader.reset } :=
  rfl

theorem flush_of_no_data (h : σ.reader.dataLines = []) :
    flush floats runId pendingInterrupt σ = σ.thread := by
  simp [flush, SseReader.dispatch, h]

theorem flush_of_data {e : EventId × LogEvent F} {eventType : List Char}
    {eventId : Option (List Char)}
    (h : σ.reader.Holds eventType eventId [dump floats.toFloatText e.2.envelope.toJson]) :
    flush floats runId pendingInterrupt σ =
      if isReadable floats e then
        onRunEvent floats runId pendingInterrupt σ.thread
          { event := eventType, data := e.2.envelope.toJson, eventId }
      else σ.thread := by
  obtain ⟨htype, hid, hdata⟩ := h
  have hloads : loads floats.toFloatText (dump floats.toFloatText e.2.envelope.toJson) =
      some e.2.envelope.toJson :=
    Json.loads_dump floats.toFloatText e.2.envelope.wellFormed
  have hjoin : joinLines [dump floats.toFloatText e.2.envelope.toJson] =
      dump floats.toFloatText e.2.envelope.toJson := by
    simp [joinLines]
  cases hread : isReadable floats e with
  | true =>
    have hparse : jsonParse floats (dump floats.toFloatText e.2.envelope.toJson) =
        some e.2.envelope.toJson := by
      rw [isReadable] at hread
      rw [jsonParse, hloads, Option.filter_some, if_pos hread]
    simp [flush, SseReader.dispatch, htype, hid, hdata, hjoin, hparse]
  | false =>
    have hparse : jsonParse floats (dump floats.toFloatText e.2.envelope.toJson) = none := by
      rw [isReadable] at hread
      rw [jsonParse, hloads, Option.filter_some, hread, if_neg Bool.false_ne_true]
    simp [flush, SseReader.dispatch, hdata, hjoin, hparse]

theorem readLine_position {entries : List (EventId × LogEvent F)} (hline : '\n' ∉ line)
    (h : Position floats σ.reader (line ++ '\n' :: rest) entries) :
    ((readLine floats runId pendingInterrupt σ line).thread = σ.thread ∧
        Position floats (readLine floats runId pendingInterrupt σ line).reader rest entries) ∨
      ∃ e later, entries = e :: later ∧ (readLine floats runId pendingInterrupt σ line).thread =
          (if isReadable floats e then
            onRunEvent floats runId pendingInterrupt σ.thread (received e)
          else σ.thread) ∧
        Position floats (readLine floats runId pendingInterrupt σ line).reader rest later := by
  generalize htext : line ++ '\n' :: rest = text at h
  cases h with
  | start beats entries hholds =>
    rcases serverText_cases floats beats entries with hnil | ⟨beats', hbeat⟩ |
      ⟨e, later, beats', rfl, hentry⟩
    · rw [hnil] at htext
      simp at htext
    · rw [hbeat] at htext
      obtain ⟨rfl, rfl⟩ := line_unique hline (by decide) htext
      exact .inl ⟨rfl, .heartbeat beats' entries hholds⟩
    · rw [hentry] at htext
      obtain ⟨rfl, rfl⟩ := line_unique hline (newline_notMem_eventLine e) htext
      rw [readLine_field floats runId pendingInterrupt (dropReturn_eventLine e)
        (sseField_ne_nil _ _), field_eventLine]
      exact .inl ⟨rfl, .data e beats' later ⟨rfl, hholds.2⟩⟩
  | heartbeat beats entries hholds =>
    obtain ⟨rfl, rfl⟩ := line_unique hline List.not_mem_nil htext
    rw [readLine_nil, flush_of_no_data floats runId pendingInterrupt hholds.2.2]
    exact .inl ⟨rfl, .start beats entries ⟨rfl, rfl, rfl⟩⟩
  | data e beats entries hholds =>
    obtain ⟨rfl, rfl⟩ := line_unique hline (newline_notMem_dataLine floats e) htext
    rw [readLine_field floats runId pendingInterrupt (dropReturn_dataLine floats e)
      (sseField_ne_nil _ _), field_dataLine]
    refine .inl ⟨rfl, .id e beats entries ⟨hholds.1, hholds.2.1, ?_⟩⟩
    simp only [hholds.2.2, List.nil_append]
  | id e beats entries hholds =>
    obtain ⟨rfl, rfl⟩ := line_unique hline (newline_notMem_idLine e) htext
    rw [readLine_field floats runId pendingInterrupt (dropReturn_idLine e)
      (sseField_ne_nil _ _), field_idLine]
    exact .inl ⟨rfl, .blank e beats entries ⟨hholds.1, rfl, hholds.2.2⟩⟩
  | blank e beats entries hholds =>
    obtain ⟨rfl, rfl⟩ := line_unique hline List.not_mem_nil htext
    rw [readLine_nil, flush_of_data floats runId pendingInterrupt hholds]
    exact .inr ⟨e, entries, rfl, rfl, .start beats entries ⟨rfl, rfl, rfl⟩⟩

end Positions

/-! ## The handler -/

section Handler

variable (floats : Floats F) (runId : RunId) (pendingInterrupt : List (RunRecord F) → Bool)
  (log : RunLog F)

/-- The thread has seen the log up to a cursor. -/
structure Seen (ts : ThreadState F) (cursor : EventId) : Prop where
  seq : ts.runLastSeq = idText cursor
  passed : ts.passed = (log.between EventId.zero cursor).map received
  dispatched : ts.dispatched.filter (fun r => r.seq.isSome) =
    ts.passed.filter fun r => !isRetryableError r

variable {log} (ts : ThreadState F)

theorem finalizeRunStream_eq (status : String) :
    ∃ activeRunId, finalizeRunStream runId pendingInterrupt ts status = { ts with activeRunId } := by
  unfold finalizeRunStream
  split
  · exact ⟨_, rfl⟩
  · exact ⟨ts.activeRunId, rfl⟩

/-- The end of the handler only settles the run. -/
theorem settleRunEvent_eq (r : RunRecord F) :
    ∃ activeRunId, settleRunEvent runId pendingInterrupt ts r = { ts with activeRunId } := by
  have hfinalize := finalizeRunStream_eq (F := F) runId pendingInterrupt
  unfold settleRunEvent
  simp only
  split_ifs with herror hend hend
  · split
    · split_ifs
      · obtain ⟨a, ha⟩ := hfinalize ts ‹String›
        rw [ha]
        exact hfinalize { ts with activeRunId := a } ""
      · exact hfinalize ts ""
    · exact hfinalize ts ""
  · exact hfinalize ts ""
  · split
    · split_ifs
      · exact hfinalize ts _
      · exact ⟨ts.activeRunId, rfl⟩
    · exact ⟨ts.activeRunId, rfl⟩
  · exact ⟨ts.activeRunId, rfl⟩

/-- After the guard, a record is dispatched unless it is a retryable error. -/
theorem applyRunEvent_eq (r : RunRecord F) :
    ∃ activeRunId, applyRunEvent runId pendingInterrupt ts r =
      { ts with
        activeRunId
        dispatched := ts.dispatched ++ if isRetryableError r then [] else [r] } := by
  unfold applyRunEvent
  split
  · exact ⟨ts.activeRunId, by rw [List.append_nil]⟩
  · exact settleRunEvent_eq runId pendingInterrupt _ r

variable {ts : ThreadState F} {cursor : EventId}

theorem Seen.withActiveRunId (h : Seen log ts cursor)
    (activeRunId : Option RunId) : Seen log { ts with activeRunId } cursor :=
  ⟨h.seq, h.passed, h.dispatched⟩

theorem Seen.onRunEvent_of_no_id (h : Seen log ts cursor) {r : RunRecord F} (hid : r.eventId = none) :
    Seen log (onRunEvent floats runId pendingInterrupt ts r) cursor := by
  have hseq : r.seq = none := by
    simp [RunRecord.seq, hid]
  unfold onRunEvent
  split
  · exact h
  · simp only [hseq]
    obtain ⟨activeRunId, heq⟩ := applyRunEvent_eq runId pendingInterrupt ts r
    rw [heq]
    refine ⟨h.seq, h.passed, ?_⟩
    simp only [List.filter_append, h.dispatched]
    split <;> simp [hseq]

variable (e : EventId × LogEvent F)

theorem seq_received : (received e).seq = some (idText e.1) := by
  simp [RunRecord.seq, received, idText_ne_nil]

theorem isFalsy_received : isFalsy floats (received e).data = false :=
  rfl

theorem Seen.onRunEvent_next (h : Seen log ts cursor)
    (hactive : ts.activeRunId = some runId) {e : EventId × LogEvent F}
    {later : List (EventId × LogEvent F)} (hnext : log.after cursor = e :: later)
    (hcursor : EventId.zero ≤ cursor) :
    Seen log (onRunEvent floats runId pendingInterrupt ts (received e)) e.1 := by
  have hlt : cursor < e.1 := (EventLog.mem_after.mp (hnext ▸ List.mem_cons_self)).2
  have hguard : ¬ compareRunSeq (normalizeRunSeq (idText e.1)) ts.runLastSeq ≤ 0 := by
    rw [normalizeRunSeq_idText, h.seq, compareRunSeq_idText]
    exact not_le.mpr hlt
  obtain ⟨activeRunId, heq⟩ := applyRunEvent_eq runId pendingInterrupt
    { ts with
      runLastSeq := normalizeRunSeq (idText e.1)
      passed := ts.passed ++ [received e] } (received e)
  rw [onRunEvent, if_neg (by simp [isFalsy_received, hactive]), seq_received]
  simp only [hguard, if_false]
  rw [heq]
  refine ⟨normalizeRunSeq_idText e.1, ?_, ?_⟩
  · rw [(EventLog.between_next hcursor hnext).1, List.map_append, h.passed]
    rfl
  · simp only [List.filter_append, h.dispatched]
    cases hretry : isRetryableError (received e) with
    | true => simp [hretry]
    | false => simp [hretry, seq_received]

end Handler

/-! ## Connections -/

section Connections

variable (floats : Floats F) (runId : RunId) (pendingInterrupt : List (RunRecord F) → Bool)
  (log : RunLog F)

/-- The reader stands in what the server sends for the entries that the thread has not seen; a
thread that no longer follows the run may have missed some. -/
structure Following (σ : Page F) (rest : List Char) (cursor : EventId)
    (entries : List (EventId × LogEvent F)) : Prop where
  nonneg : EventId.zero ≤ cursor
  seen : Seen (log.readable floats) σ.thread cursor
  oneLine : '\n' ∉ σ.reader.buffer
  position : Position floats σ.reader (σ.reader.buffer ++ rest) entries
  following : σ.thread.activeRunId = some runId →
    entries.filter (isReadable floats) = (log.readable floats).after cursor

variable {floats runId log}

variable {t : List Char} {entries : List (EventId × LogEvent F)}

/-- The position depends on the fields of the record only. -/
theorem Position.congr {r r' : SseReader} (h : Position floats r t entries)
    (htype : r'.eventType = r.eventType)
    (hid : r'.eventId = r.eventId) (hdata : r'.dataLines = r.dataLines) :
    Position floats r' t entries := by
  have hholds : ∀ {eventType eventId dataLines}, r.Holds eventType eventId dataLines →
      r'.Holds eventType eventId dataLines := by
    intro eventType eventId dataLines hr
    exact ⟨htype.trans hr.1, hid.trans hr.2.1, hdata.trans hr.2.2⟩
  cases h with
  | start beats entries hr => exact .start beats entries (hholds hr)
  | heartbeat beats entries hr => exact .heartbeat beats entries (hholds hr)
  | data e beats entries hr => exact .data e beats entries (hholds hr)
  | id e beats entries hr => exact .id e beats entries (hholds hr)
  | blank e beats entries hr => exact .blank e beats entries (hholds hr)

variable {ts : ThreadState F}

theorem onRunEvent_of_inactive (h : ts.activeRunId ≠ some runId)
    (r : RunRecord F) : onRunEvent floats runId pendingInterrupt ts r = ts := by
  rw [onRunEvent, if_pos (.inr h)]

variable (floats) in
theorem Seen.onRunEvent_entry {cursor : EventId}
    (h : Seen (log.readable floats) ts cursor) (hnonneg : EventId.zero ≤ cursor)
    {e : EventId × LogEvent F} {later : List (EventId × LogEvent F)}
    (hfollowing : ts.activeRunId = some runId →
      (e :: later).filter (isReadable floats) = (log.readable floats).after cursor) :
    let ts' :=
      if isReadable floats e then onRunEvent floats runId pendingInterrupt ts (received e) else ts
    ∃ cursor', EventId.zero ≤ cursor' ∧ Seen (log.readable floats) ts' cursor' ∧
      (ts'.activeRunId = some runId →
        later.filter (isReadable floats) = (log.readable floats).after cursor') := by
  cases hread : isReadable floats e with
  | false =>
    simp only [List.filter_cons, hread, Bool.false_eq_true, if_false] at hfollowing ⊢
    exact ⟨cursor, hnonneg, h, hfollowing⟩
  | true =>
    simp only [List.filter_cons, hread, if_true] at hfollowing ⊢
    by_cases hactive : ts.activeRunId = some runId
    · have hafter := (hfollowing hactive).symm
      have hcursor : cursor < e.1 := (EventLog.mem_after.mp (hafter ▸ List.mem_cons_self)).2
      refine ⟨e.1, hnonneg.trans hcursor.le,
        h.onRunEvent_next floats runId pendingInterrupt hactive hafter hnonneg, ?_⟩
      intro _
      exact (EventLog.between_next hnonneg hafter).2.symm
    · rw [onRunEvent_of_inactive pendingInterrupt hactive]
      exact ⟨cursor, hnonneg, h, fun hrun => absurd hrun hactive⟩

variable {σ : Page F} {rest : List Char}

theorem Following.readLine {cursor : EventId}
    (h : Following floats runId log σ ('\n' :: rest) cursor entries) :
    ∃ cursor' entries', Following floats runId log
      (readLine floats runId pendingInterrupt (σ.withBuffer []) σ.reader.buffer) rest
      cursor' entries' := by
  have hempty : (WebClient.readLine floats runId pendingInterrupt (σ.withBuffer [])
      σ.reader.buffer).reader.buffer = [] := by
    rw [readLine_withBuffer]
    rfl
  have hposition : Position floats (σ.withBuffer []).reader
      (σ.reader.buffer ++ '\n' :: rest) entries := h.position.congr rfl rfl rfl
  have hline := readLine_position floats runId pendingInterrupt h.oneLine hposition
  generalize WebClient.readLine floats runId pendingInterrupt (σ.withBuffer []) σ.reader.buffer =
    σ' at hempty hline ⊢
  have honeLine : '\n' ∉ σ'.reader.buffer := by
    rw [hempty]
    exact List.not_mem_nil
  rcases hline with ⟨hthread, hnext⟩ | ⟨e, later, rfl, hthread, hnext⟩
  · refine ⟨cursor, entries, h.nonneg, ?_, honeLine, ?_, ?_⟩
    · rw [hthread]
      exact h.seen
    · rw [hempty]
      exact hnext
    · rw [hthread]
      exact h.following
  · obtain ⟨cursor', hnonneg, hseen, hfollowing⟩ :=
      h.seen.onRunEvent_entry floats pendingInterrupt h.nonneg h.following
    refine ⟨cursor', later, hnonneg, ?_, honeLine, ?_, ?_⟩
    · rw [hthread]
      exact hseen
    · rw [hempty]
      exact hnext
    · rw [hthread]
      exact hfollowing

/-- One character of what the server sends. -/
theorem Following.readChar {c : Char} {cursor : EventId}
    (h : Following floats runId log σ (c :: rest) cursor entries) :
    ∃ cursor' entries', Following floats runId log
      (readChar floats runId pendingInterrupt σ c) rest cursor' entries' := by
  by_cases hc : c = '\n'
  · subst hc
    rw [WebClient.readChar, if_pos rfl]
    exact h.readLine pendingInterrupt
  · refine ⟨cursor, entries, ?_⟩
    rw [WebClient.readChar, if_neg hc]
    refine ⟨h.nonneg, h.seen, ?_, ?_, h.following⟩
    · have hbuffer := h.oneLine
      simpa [Page.withBuffer, hbuffer] using Ne.symm hc
    · have hposition := h.position
      rw [List.append_cons] at hposition
      exact hposition.congr rfl rfl rfl

/-- A piece of what the server sends. -/
theorem Following.foldl : ∀ {σ : Page F} {rest : List Char} {cursor : EventId}
    {entries : List (EventId × LogEvent F)},
    Following floats runId log σ (t ++ rest) cursor entries →
      ∃ cursor' entries', Following floats runId log
        (t.foldl (WebClient.readChar floats runId pendingInterrupt) σ) rest cursor' entries' := by
  induction t with
  | nil =>
    intro σ rest cursor entries h
    exact ⟨cursor, entries, h⟩
  | cons c t ih =>
    intro σ rest cursor entries h
    obtain ⟨cursor', entries', h'⟩ := h.readChar pendingInterrupt
    exact ih h'

/-- What is left of a record at the end of a connection. -/
theorem Following.flush {cursor : EventId} (h : Following floats runId log σ rest cursor entries) :
    ∃ cursor', EventId.zero ≤ cursor' ∧
      Seen (log.readable floats) (flush floats runId pendingInterrupt σ) cursor' := by
  have hposition := h.position
  have hfollowing := h.following
  generalize σ.reader.buffer ++ rest = t at hposition
  cases hposition with
  | start beats entries hholds =>
    rw [flush_of_no_data floats runId pendingInterrupt hholds.2.2]
    exact ⟨cursor, h.nonneg, h.seen⟩
  | heartbeat beats entries hholds =>
    rw [flush_of_no_data floats runId pendingInterrupt hholds.2.2]
    exact ⟨cursor, h.nonneg, h.seen⟩
  | data e beats entries hholds =>
    rw [flush_of_no_data floats runId pendingInterrupt hholds.2.2]
    exact ⟨cursor, h.nonneg, h.seen⟩
  | id e beats entries hholds =>
    refine ⟨cursor, h.nonneg, ?_⟩
    rw [flush_of_data floats runId pendingInterrupt hholds]
    split
    · exact h.seen.onRunEvent_of_no_id floats runId pendingInterrupt rfl
    · exact h.seen
  | blank e beats entries hholds =>
    rw [flush_of_data floats runId pendingInterrupt hholds]
    obtain ⟨cursor', hnonneg, hseen, -⟩ :=
      h.seen.onRunEvent_entry floats pendingInterrupt h.nonneg hfollowing
    exact ⟨cursor', hnonneg, hseen⟩

/-! ## Runs -/

variable (floats runId log)

/-- The thread has seen a part of the log, and an open connection brings what follows. -/
structure PageInv (σ : Page F) : Prop where
  seen : ∃ cursor, EventId.zero ≤ cursor ∧ Seen (log.readable floats) σ.thread cursor
  reading : ∀ bytes, σ.incoming = some bytes → ∃ rest cursor entries,
    σ.reader.undecoded ++ bytes = Utf8.encode rest ∧
      Following floats runId log σ rest cursor entries

variable {floats runId log}

theorem idText_zero : idText EventId.zero = "0-0".toList := by
  decide

theorem pageInv_initial : PageInv floats runId log (Page.initial : Page F) where
  seen := by
    refine ⟨EventId.zero, le_rfl, idText_zero.symm, ?_, rfl⟩
    rw [EventLog.between_self]
    rfl
  reading := by
    intro bytes h
    cases h

variable (floats runId) in
theorem readChar_frame (σ : Page F) (c : Char) :
    (readChar floats runId pendingInterrupt σ c).incoming = σ.incoming ∧
      (readChar floats runId pendingInterrupt σ c).reader.undecoded = σ.reader.undecoded := by
  have hfield : ∀ (r : SseReader) line, (r.field line).undecoded = r.undecoded := by
    intro r line
    unfold SseReader.field
    split_ifs <;> rfl
  unfold readChar
  split
  · unfold readLine
    simp only
    split
    · exact ⟨rfl, rfl⟩
    · exact ⟨rfl, hfield _ _⟩
  · exact ⟨rfl, rfl⟩

variable (floats runId) in
theorem foldl_frame (t : List Char) : ∀ σ : Page F,
    (t.foldl (readChar floats runId pendingInterrupt) σ).incoming = σ.incoming ∧
      (t.foldl (readChar floats runId pendingInterrupt) σ).reader.undecoded =
        σ.reader.undecoded := by
  induction t with
  | nil =>
    intro σ
    exact ⟨rfl, rfl⟩
  | cons c t ih =>
    intro σ
    obtain ⟨hincoming, hundecoded⟩ := ih (readChar floats runId pendingInterrupt σ c)
    obtain ⟨hincoming', hundecoded'⟩ := readChar_frame floats runId pendingInterrupt σ c
    exact ⟨hincoming.trans hincoming', hundecoded.trans hundecoded'⟩

section

variable (h : PageInv floats runId log σ)
include h

/-- A new connection brings what the thread has not seen. -/
theorem PageInv.connect (beats : List Nat) :
    PageInv floats runId log (networkStep floats runId pendingInterrupt log σ (.connect beats)) := by
  obtain ⟨cursor, hnonneg, hseen⟩ := h.seen
  have hseq : normalizeRunSeq σ.thread.runLastSeq = idText cursor := by
    rw [hseen.seq, normalizeRunSeq_idText]
  have hseen' : Seen (log.readable floats)
      { σ.thread with
        activeRunId := some runId
        runLastSeq := normalizeRunSeq σ.thread.runLastSeq } cursor :=
    ⟨hseq, hseen.passed, hseen.dispatched⟩
  refine ⟨⟨cursor, hnonneg, hseen'⟩, ?_⟩
  intro bytes hbytes
  simp only [networkStep, hseq, parseRunSeq_idText, Option.some.injEq] at hbytes
  refine ⟨serverText floats beats (log.after cursor), cursor, log.after cursor, hbytes.symm,
    hnonneg, hseen', List.not_mem_nil, .start beats _ ⟨rfl, rfl, rfl⟩, ?_⟩
  intro _
  exact List.filter_comm _ _ _

theorem PageInv.receive (n : Nat) :
    PageInv floats runId log (networkStep floats runId pendingInterrupt log σ (.receive n)) := by
  cases hincoming : σ.incoming with
  | none =>
    simp only [networkStep, hincoming]
    exact h
  | some bytes =>
    obtain ⟨rest, cursor, entries, hencode, hfollowing⟩ := h.reading bytes hincoming
    have hsplit : (σ.reader.undecoded ++ bytes.take n) ++ bytes.drop n = Utf8.encode rest := by
      rw [List.append_assoc, List.take_append_drop]
      exact hencode
    obtain ⟨rest', hrest, hkept⟩ := Utf8.decode_split hsplit
    -- the page with the bytes of the chunk in the decoder
    let σ' : Page F :=
      { thread := σ.thread
        incoming := some (bytes.drop n)
        reader :=
          { σ.reader with
            undecoded := (Utf8.decode (σ.reader.undecoded ++ bytes.take n)).2 } }
    have hfollowing' : Following floats runId log σ'
        ((Utf8.decode (σ.reader.undecoded ++ bytes.take n)).1 ++ rest') cursor entries := by
      rw [← hrest]
      exact ⟨hfollowing.nonneg, hfollowing.seen, hfollowing.oneLine,
        hfollowing.position.congr rfl rfl rfl, hfollowing.following⟩
    have hread : networkStep floats runId pendingInterrupt log σ (.receive n) =
        (Utf8.decode (σ.reader.undecoded ++ bytes.take n)).1.foldl
          (readChar floats runId pendingInterrupt) σ' := by
      simp only [networkStep, hincoming, readChunk]
      exact readText_eq_foldl floats runId pendingInterrupt _ hfollowing.oneLine
    obtain ⟨cursor', entries', hnext⟩ := hfollowing'.foldl pendingInterrupt
    obtain ⟨hframe, hframe'⟩ := foldl_frame floats runId pendingInterrupt
      (Utf8.decode (σ.reader.undecoded ++ bytes.take n)).1 σ'
    rw [hread]
    refine ⟨⟨cursor', hnext.nonneg, hnext.seen⟩, ?_⟩
    intro bytes' hbytes'
    rw [hframe] at hbytes'
    cases hbytes'
    refine ⟨rest', cursor', entries', ?_, hnext⟩
    rw [hframe']
    exact hkept

theorem PageInv.close :
    PageInv floats runId log (networkStep floats runId pendingInterrupt log σ .close) := by
  cases hincoming : σ.incoming with
  | none =>
    simp only [networkStep, hincoming]
    exact h
  | some bytes =>
    obtain ⟨rest, cursor, entries, -, hfollowing⟩ := h.reading bytes hincoming
    simp only [networkStep, hincoming]
    exact ⟨hfollowing.flush pendingInterrupt, fun _ hnone => nomatch hnone⟩

end

theorem activeRunId_of_finalizeRunStream {status : String}
    (h : (finalizeRunStream runId pendingInterrupt ts status).activeRunId = some runId) :
    ts.activeRunId = some runId := by
  unfold finalizeRunStream at h
  split at h
  · assumption
  · exact h

theorem PageInv.settle (h : PageInv floats runId log σ) (status : String) :
    PageInv floats runId log
      (networkStep floats runId pendingInterrupt log σ (.settle status)) := by
  obtain ⟨activeRunId, heq⟩ := finalizeRunStream_eq runId pendingInterrupt σ.thread status
  have hactive : (finalizeRunStream runId pendingInterrupt σ.thread status).activeRunId =
      some runId → σ.thread.activeRunId = some runId :=
    activeRunId_of_finalizeRunStream pendingInterrupt
  simp only [networkStep]
  rw [heq] at hactive ⊢
  constructor
  · obtain ⟨cursor, hnonneg, hseen⟩ := h.seen
    exact ⟨cursor, hnonneg, hseen.withActiveRunId activeRunId⟩
  · intro bytes hbytes
    obtain ⟨rest, cursor, entries, hencode, hfollowing⟩ := h.reading bytes hbytes
    refine ⟨rest, cursor, entries, hencode, hfollowing.nonneg,
      hfollowing.seen.withActiveRunId activeRunId, hfollowing.oneLine, hfollowing.position, ?_⟩
    intro hrun
    exact hfollowing.following (hactive hrun)

theorem networkStep_pageInv (σ : Page F) (event : NetworkEvent) (h : PageInv floats runId log σ) :
    PageInv floats runId log (networkStep floats runId pendingInterrupt log σ event) := by
  cases event with
  | connect beats => exact h.connect pendingInterrupt beats
  | receive n => exact h.receive pendingInterrupt n
  | close => exact h.close pendingInterrupt
  | fail => exact ⟨h.seen, fun _ hnone => nomatch hnone⟩
  | settle status => exact h.settle pendingInterrupt status
  | preserve =>
    obtain ⟨cursor, hnonneg, hseen⟩ := h.seen
    refine ⟨⟨cursor, hnonneg, ?_, hseen.passed, hseen.dispatched⟩, fun _ hnone => nomatch hnone⟩
    simp only [networkStep]
    rw [hseen.seq, normalizeRunSeq_idText]

theorem between_zero_isPrefix_entries (log : RunLog F) (cursor : EventId) :
    log.between EventId.zero cursor <+: log.entries := by
  have hbetween : log.between EventId.zero cursor = log.entries.filter fun e => e.1 ≤ cursor := by
    refine List.filter_congr fun e he => ?_
    simp [log.positive e he]
  refine ⟨log.after cursor, ?_⟩
  rw [hbetween]
  exact (log.entries_eq cursor).symm

end Connections

/-- However the bytes are cut and whenever connections end, the records that carry an id and pass
the guard are a prefix of the entries that can be read, and the ones that are dispatched are those
of them that are no retryable errors. -/
theorem passed_prefix_of_log (floats : Floats F) (runId : RunId)
    (pendingInterrupt : List (RunRecord F) → Bool) (log : RunLog F) (events : List NetworkEvent) :
    let σ := Transition.exec (networkStep floats runId pendingInterrupt log) Page.initial events
    σ.thread.passed <+: (log.entries.filter (isReadable floats)).map received ∧
      σ.thread.dispatched.filter (fun r => r.seq.isSome) =
        σ.thread.passed.filter fun r => !isRetryableError r := by
  intro σ
  have hinv : PageInv floats runId log σ :=
    Transition.exec_invariant (networkStep floats runId pendingInterrupt log)
      (networkStep_pageInv pendingInterrupt) pageInv_initial events
  obtain ⟨cursor, -, hseen⟩ := hinv.seen
  refine ⟨?_, hseen.dispatched⟩
  rw [hseen.passed]
  exact (between_zero_isPrefix_entries (log.readable floats) cursor).map received

/-! ## A retryable error -/

def retryableError : LogEvent Unit where
  eventType := "error"
  envelope :=
    { fields := [("payload", .obj [("retryable", .bool true)])]
      wellFormed := ⟨by simp, ⟨by simp, trivial, trivial⟩, trivial⟩ }
  oneLine := by decide

def modelMessage : LogEvent Unit where
  eventType := "messages"
  envelope := .empty
  oneLine := by decide

/-- The worker fails, tries again and writes a message. -/
def retriedLog : RunLog Unit where
  entries := [(toLex (1, 0), retryableError), (toLex (2, 0), modelMessage)]
  sorted := by decide
  positive := by decide

/-- One connection that brings its bytes one by one and ends in front of the last newline. -/
def byteByByte : List NetworkEvent :=
  .connect [1] :: (List.replicate 107 (.receive 1) ++ [.close])

/-- The events of a log that are dispatched need not be a prefix of it. -/
theorem retryable_error_not_dispatched :
    ¬ ∀ (floats : Floats Unit) (runId : RunId) (pendingInterrupt : List (RunRecord Unit) → Bool)
      (log : RunLog Unit) (events : List NetworkEvent),
      (Transition.exec (networkStep floats runId pendingInterrupt log) Page.initial
        events).thread.dispatched.filter (fun r => r.seq.isSome) <+: log.entries.map received := by
  intro h
  have hprefix := (h Floats.zero "run" (fun _ => false) retriedLog byteByByte).map RunRecord.eventId
  exact absurd hprefix (by decide +kernel)

end Yuanlei.WebClient
