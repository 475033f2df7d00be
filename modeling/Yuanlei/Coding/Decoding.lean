import Yuanlei.Coding.Redaction
import Yuanlei.Stream.ChunkCodec

/-!
# Decoding the output of a coding tool

The adapters read the output of a tool line by line and make one event of every object.  The
lines are those of `str.splitlines`, which also ends a line at the three separators that the
tool prints as they are, so that an object with one of them in a string is lost.  The members of
an object are used as dictionaries without a look at their type.  The limits of the reader on
nesting and on the digits of an integer are left out.

Main results:

- `eventsOf_isSome`: which objects the adapters do not raise for.
- `outputs_decoded_iff`: and no output raises exactly if its members are read.
-/

universe u

namespace Yuanlei.CodingTurn

open Json (AllStrings AllStringsFields Unbroken)

variable {F : Type u} (py : PyValues F)

/-! ## Members of an object -/

/-- `v or {}` is a dictionary. -/
def dictLike : Json F → Bool
  | .obj _ => true
  | v => !truthy py v

/-- The dictionary that is read from `v or {}`. -/
def dictOf : Json F → Fields F
  | .obj fields => fields
  | _ => []

theorem orElse_of_dictLike {v : Json F} (h : dictLike py v) :
    orElse py v (.obj []) = .obj (dictOf v) := by
  by_cases htruthy : truthy py v
  · cases v <;> simp_all [orElse, dictLike, dictOf]
  · rw [orElse, if_neg htruthy]
    cases v with
    | obj fields =>
      have hnil : fields = [] := by simpa [truthy] using htruthy
      rw [hnil]
      rfl
    | _ => rfl

theorem attrGet_orElse (v : Json F) (key : String) : attrGet (orElse py v (.obj [])) key =
      if dictLike py v then some (fieldOf (dictOf v) key) else none := by
  by_cases h : dictLike py v
  · rw [orElse_of_dictLike py h, if_pos h]
    rfl
  · cases v <;> simp_all [orElse, dictLike, attrGet]

def eventTypeOf (payload : Fields F) : String :=
  strOf py (orElse py (fieldOf payload "type") (.str ""))

/-- The events of one object; `none` is an error of the adapter. -/
def eventsOf (executor : Executor) (payload : Fields F) : Option (List (Event F)) :=
  match executor with
  | .opencode => openCodeEvents py payload
  | .codex => codexEvents py payload

/-- The members that the adapter uses as dictionaries can be used so. -/
def readable (executor : Executor) (payload : Fields F) : Bool :=
  match executor with
  | .opencode =>
    let part := fieldOf payload "part"
    let error := fieldOf payload "error"
    (truthy py (fieldOf payload "sessionID") || dictLike py part) &&
      (if eventTypeOf py payload ∈ ["text", "tool", "step_finish"] then dictLike py part
      else if eventTypeOf py payload = "error" then
        dictLike py error && dictLike py (fieldOf (dictOf error) "data")
      else true)
  | .codex =>
    if eventTypeOf py payload = "item.completed" then dictLike py (fieldOf payload "item")
    else if eventTypeOf py payload ∈ ["error", "turn.failed"] then
      truthy py (fieldOf payload "message") || dictLike py (fieldOf payload "error")
    else true

/-- The objects that are defined to make no event: a session or a thread that starts without
a reference, and a turn that starts. -/
def silent (executor : Executor) (payload : Fields F) : Bool :=
  match executor with
  | .opencode =>
    eventTypeOf py payload = "step_start" && !truthy py (fieldOf payload "sessionID") &&
      !truthy py (fieldOf (dictOf (fieldOf payload "part")) "sessionID")
  | .codex =>
    (eventTypeOf py payload = "thread.started" && !truthy py (fieldOf payload "thread_id")) ||
      eventTypeOf py payload = "turn.started"

theorem map_length_openCodeEvents (payload : Fields F) :
    (openCodeEvents py payload).map List.length =
      if readable py .opencode payload then some (if silent py .opencode payload then 0 else 1)
      else none := by
  have htype : strOf py (orElse py (fieldOf payload "type") (.str "")) =
      eventTypeOf py payload := rfl
  simp only [openCodeEvents, attrGet_orElse, readable, silent, htype]
  by_cases hstart : eventTypeOf py payload = "step_start"
  · simp only [hstart]
    by_cases hsession : truthy py (fieldOf payload "sessionID") <;>
      by_cases hpart : dictLike py (fieldOf payload "part") <;>
      simp [hsession, hpart, apply_ite]
  by_cases hmembers : eventTypeOf py payload ∈ ["text", "tool", "step_finish"]
  · simp only [List.mem_cons, List.not_mem_nil, or_false] at hmembers
    by_cases hsession : truthy py (fieldOf payload "sessionID") <;>
      by_cases hpart : dictLike py (fieldOf payload "part") <;>
      rcases hmembers with hmember | hmember | hmember <;> simp [hmember, hsession, hpart]
  simp only [List.mem_cons, List.not_mem_nil, or_false, not_or] at hmembers
  by_cases herror : eventTypeOf py payload = "error"
  · simp only [herror]
    by_cases hsession : truthy py (fieldOf payload "sessionID") <;>
      by_cases hpart : dictLike py (fieldOf payload "part") <;>
      by_cases hdict : dictLike py (fieldOf payload "error") <;>
      by_cases hdata : dictLike py (fieldOf (dictOf (fieldOf payload "error")) "data") <;>
      simp [hsession, hpart, hdict, hdata]
  · by_cases hsession : truthy py (fieldOf payload "sessionID") <;>
      by_cases hpart : dictLike py (fieldOf payload "part") <;>
      simp [hstart, hmembers, herror, hsession, hpart]

theorem map_length_codexEvents (payload : Fields F) : (codexEvents py payload).map List.length =
      if readable py .codex payload then some (if silent py .codex payload then 0 else 1)
      else none := by
  have htype : strOf py (orElse py (fieldOf payload "type") (.str "")) =
      eventTypeOf py payload := rfl
  simp only [codexEvents, attrGet_orElse, readable, silent, htype]
  by_cases hthread : eventTypeOf py payload = "thread.started"
  · by_cases hid : truthy py (fieldOf payload "thread_id") <;> simp [hthread, hid]
  by_cases hturn : eventTypeOf py payload = "turn.started"
  · simp [hturn]
  by_cases hitem : eventTypeOf py payload = "item.completed"
  · by_cases hdict : dictLike py (fieldOf payload "item")
    · simp only [hitem, orElse_of_dictLike py hdict]
      by_cases hmessage : strOf py (orElse py (fieldOf (dictOf (fieldOf payload "item")) "type")
          (.str "")) = "agent_message"
      · simp [hdict, hmessage]
      by_cases hcommand : strOf py (orElse py (fieldOf (dictOf (fieldOf payload "item")) "type")
          (.str "")) = "command_execution"
      · simp [hdict, hcommand]
      by_cases hfile : strOf py (orElse py (fieldOf (dictOf (fieldOf payload "item")) "type")
          (.str "")) = "file_change" ∨ strOf py (orElse py
            (fieldOf (dictOf (fieldOf payload "item")) "type") (.str "")) = "patch_apply"
      · simp [hdict, hmessage, hcommand, hfile]
      · simp [hdict, hmessage, hcommand, hfile]
    · simp [hitem, hdict]
  by_cases hcompleted : eventTypeOf py payload = "turn.completed"
  · simp [hcompleted]
  by_cases herror : eventTypeOf py payload = "error" ∨ eventTypeOf py payload = "turn.failed"
  · by_cases hmessage : truthy py (fieldOf payload "message") <;>
      by_cases hdict : dictLike py (fieldOf payload "error") <;>
      rcases herror with herror | herror <;> simp [herror, hmessage, hdict]
  · simp only [not_or] at herror
    simp [hthread, hturn, hitem, hcompleted, herror]

/-- The same for either adapter. -/
theorem map_length_eventsOf (executor : Executor) (payload : Fields F) :
    (eventsOf py executor payload).map List.length =
      if readable py executor payload then some (if silent py executor payload then 0 else 1)
      else none := by
  cases executor with
  | opencode => exact map_length_openCodeEvents py payload
  | codex => exact map_length_codexEvents py payload

variable {executor : Executor} {payload : Fields F}

/-- The adapters raise for an object exactly if it is not readable. -/
theorem eventsOf_isSome :
    (eventsOf py executor payload).isSome ↔ readable py executor payload := by
  have hlength := congrArg Option.isSome (map_length_eventsOf py executor payload)
  rw [Option.isSome_map] at hlength
  rw [hlength]
  by_cases hreadable : readable py executor payload <;> simp [hreadable]

theorem length_eventsOf {events : List (Event F)} (h : eventsOf py executor payload = some events) :
    events.length = if silent py executor payload then 0 else 1 := by
  have hlength := map_length_eventsOf py executor payload
  have hreadable : readable py executor payload := by
    rw [← eventsOf_isSome, h]
    rfl
  rw [h, if_pos hreadable] at hlength
  exact Option.some.inj hlength

/-! ## Outputs -/

/-- A line of the output: an object, or a text that is no JSON object. -/
inductive OutputLine where
  | object (object : Json.Dict F)
  | other (text : List Char) (newline : '\n' ∉ text)
      (notObject : ∀ fields, Json.loads py.float (PyText.stripChars text) ≠ some (.obj fields))

namespace OutputLine

variable {py}

/-- The line as the tool prints it, up to the blanks between its tokens. -/
def text : OutputLine py → List Char
  | .object dict => Json.dump py.float dict.toJson ++ ['\n']
  | .other text _ _ => text ++ ['\n']

/-- The objects on a line. -/
def payloads : OutputLine py → List (Fields F)
  | .object dict => [dict.fields]
  | .other .. => []

/-- The lines that are decoded: an object without separators whose members can be read, and
a text of which the separators cut off no object. -/
def Decodable (executor : Executor) : OutputLine py → Prop
  | .object dict =>
    dict.toJson.AllStrings Unbroken ∧ readable py executor dict.fields
  | .other text _ _ => ∀ piece ∈ PyText.splitLines (text ++ ['\n']),
      (PyText.stripChars piece).head? = some '{' →
        ∀ fields, Json.loads py.float (PyText.stripChars piece) ≠ some (.obj fields)

end OutputLine

/-- The output is decoded completely: on every line its objects are read and nothing else, and
they make one event each unless they are silent, in order, whose texts are the result. -/
structure Decoded (executor : Executor) (lines : List (OutputLine py)) : Prop where
  read : ∀ line ∈ lines, iterJsonLines py line.text = line.payloads
  events : ∃ groups : List (List (Event F)),
    List.Forall₂ (fun payload group => eventsOf py executor payload = some group ∧
      group.length = if silent py executor payload then 0 else 1)
      (lines.flatMap OutputLine.payloads) groups ∧
    parseEvents py executor (lines.flatMap OutputLine.text) = some groups.flatten ∧
    (extractTurnResult py groups.flatten).outputText =
      PyText.stripChars ((deltaTexts py groups.flatten).map String.toList).flatten

variable (lines : List (OutputLine py))

/-- The objects of an output are those of its lines. -/
theorem iterJsonLines_flatMap :
    iterJsonLines py (lines.flatMap OutputLine.text) =
      lines.flatMap fun line => iterJsonLines py line.text := by
  induction lines with
  | nil => rfl
  | cons line lines ih =>
    rw [List.flatMap_cons, List.flatMap_cons, ← ih]
    cases line with
    | object object =>
      rw [OutputLine.text, List.append_assoc, List.singleton_append, iterJsonLines_append]
    | other text newline notObject =>
      rw [OutputLine.text, List.append_assoc, List.singleton_append, iterJsonLines_append]

/-- An object is read from its line exactly if it has no separators. -/
theorem iterJsonLines_dump_iff (object : Json.Dict F) :
    iterJsonLines py (Json.dump py.float object.toJson ++ ['\n']) = [object.fields] ↔
      object.toJson.AllStrings Unbroken := by
  constructor
  · intro heq
    have hmem : object.fields ∈ iterJsonLines py (Json.dump py.float object.toJson ++ ['\n']) := by
      rw [heq]
      exact List.mem_singleton_self _
    obtain ⟨line, hline, hread⟩ := List.mem_filterMap.mp hmem
    simp only at hread
    split_ifs at hread with hhead
    split at hread
    · rename_i fields hload
      cases hread
      refine @unbroken_of_mem_decodeText F py.float object _
        (List.mem_filterMap.mpr ⟨line, hline, ?_⟩)
      have hne : PyText.stripChars line ≠ [] := by
        intro hnil
        rw [hnil] at hhead
        cases hhead
      simp only [if_neg hne]
      exact hload
    · cases hread
  · exact iterJsonLines_dump py

/-- A line is read as what it is, and its objects are readable, exactly if it can be decoded. -/
theorem decodable_iff (line : OutputLine py) :
    line.Decodable executor ↔ iterJsonLines py line.text = line.payloads ∧
      ∀ payload ∈ line.payloads, readable py executor payload := by
  cases line with
  | object object =>
    simp only [OutputLine.Decodable, OutputLine.text, OutputLine.payloads,
      iterJsonLines_dump_iff, List.forall_mem_singleton]
  | other text newline notObject =>
    rw [OutputLine.payloads, and_iff_left (List.forall_mem_nil _), OutputLine.Decodable,
      OutputLine.text, iterJsonLines, List.filterMap_eq_nil_iff]
    refine forall₂_congr fun piece _ => ?_
    simp only
    split_ifs with hhead
    · simp only [hhead, true_imp_iff]
      cases hload : Json.loads py.float (PyText.stripChars piece) with
      | none => simp
      | some v => cases v <;> simp
    · simp [hhead]

variable {α β : Type*}

theorem mapM_isSome_iff {f : α → Option β} {l : List α} :
    (l.mapM f).isSome ↔ ∀ x ∈ l, (f x).isSome := by
  induction l with
  | nil => simp
  | cons x l ih =>
    rw [List.forall_mem_cons, ← ih, List.mapM_cons]
    cases f x with
    | none => simp
    | some y => cases l.mapM f <;> simp

theorem forall₂_of_mapM {f : α → Option β} {l : List α} {l' : List β}
    (h : l.mapM f = some l') : List.Forall₂ (fun x y => f x = some y) l l' := by
  induction l generalizing l' with
  | nil =>
    cases h
    exact .nil
  | cons x l ih =>
    simp only [List.mapM_cons, Option.bind_eq_bind, Option.bind_eq_some_iff] at h
    obtain ⟨y, hy, ys, hys, heq⟩ := h
    cases heq
    exact .cons hy (ih hys)

variable (output : List Char)

theorem parseEvents_eq : parseEvents py executor output =
      ((iterJsonLines py output).mapM (eventsOf py executor)).map List.flatten := by
  cases executor <;> rfl

/-- An output makes the adapter raise exactly if an object in it does. -/
theorem parseEvents_isSome : (parseEvents py executor output).isSome ↔
      ∀ payload ∈ iterJsonLines py output, readable py executor payload := by
  rw [parseEvents_eq, Option.isSome_map, mapM_isSome_iff]
  exact forall₂_congr fun payload _ => eventsOf_isSome py

theorem decoded_iff :
    Decoded py executor lines ↔ ∀ line ∈ lines, line.Decodable executor := by
  have hpayloads (hread : ∀ line ∈ lines, iterJsonLines py line.text = line.payloads) :
      iterJsonLines py (lines.flatMap OutputLine.text) = lines.flatMap OutputLine.payloads := by
    rw [iterJsonLines_flatMap]
    exact List.flatMap_congr hread
  constructor
  · intro h line hline
    obtain ⟨groups, -, hparse, -⟩ := h.events
    refine (decodable_iff py line).mpr ⟨h.read line hline, ?_⟩
    intro payload hpayload
    refine (parseEvents_isSome py _).mp (by rw [hparse]; rfl) payload ?_
    rw [hpayloads h.read]
    exact List.mem_flatMap.mpr ⟨line, hline, hpayload⟩
  · intro h
    have hread : ∀ line ∈ lines, iterJsonLines py line.text = line.payloads :=
      fun line hline => ((decodable_iff py line).mp (h line hline)).1
    have hsome : ((lines.flatMap OutputLine.payloads).mapM (eventsOf py executor)).isSome := by
      refine mapM_isSome_iff.mpr fun payload hpayload => ?_
      obtain ⟨line, hline, hmem⟩ := List.mem_flatMap.mp hpayload
      exact (eventsOf_isSome py).mpr (((decodable_iff py line).mp (h line hline)).2 payload hmem)
    obtain ⟨groups, hgroups⟩ := Option.isSome_iff_exists.mp hsome
    refine ⟨hread, groups, ?_, ?_, ?_⟩
    · exact (forall₂_of_mapM hgroups).imp fun payload group hgroup =>
        ⟨hgroup, length_eventsOf py hgroup⟩
    · rw [parseEvents_eq, hpayloads hread, hgroups]
      rfl
    · rw [TurnResult.outputText, extractTurnResult_texts]

end Yuanlei.CodingTurn
