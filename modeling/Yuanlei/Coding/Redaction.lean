import Yuanlei.Coding.TurnOutput
import Yuanlei.Lib.JsonLines

/-!
# Secrets in the record of a coding turn

The credentials of a turn are replaced in every string value of its events, one after the other,
and once more in the summary.  What is stored is free of them where the replacements have
something to work on: a secret that the tool spreads over two pieces of text, one in a key, and
one that shares a part with the marker or with another secret get through.

Main results:

- `secrets_redacted`: both, for the tail of a turn.
- `secret_over_two_deltas`: a secret in two pieces is stored.
-/

universe u

namespace Yuanlei.CodingTurn

open Json (AllStrings AllStringsItems AllStringsFields)
open TextReplace (Touches Crosses Piece FoundInSlots)

variable {F : Type u} (py : PyValues F)

/-! ## What is stored -/

/-- No secret occurs in the text. -/
def NoSecret (secrets : List (List Char)) (s : String) : Prop :=
  ∀ secret ∈ secrets, ¬ secret <:+: s.toList

structure CleanOutcome (secrets : List (List Char)) (outcome : TurnOutcome F) : Prop where
  sessionId : NoSecret secrets outcome.sessionId
  status : NoSecret secrets outcome.status
  executor : NoSecret secrets outcome.executor
  outputText : NoSecret secrets outcome.outputText
  cliSessionRef : ∀ ref, outcome.cliSessionRef = some ref → NoSecret secrets ref
  usage : ∀ usage, outcome.usage = some usage → AllStringsFields (NoSecret secrets) usage
  errorCode : ∀ code, outcome.errorCode = some code → NoSecret secrets code
  errorMessage : ∀ message, outcome.errorMessage = some message → NoSecret secrets message

/-- No secret in the stored events, in their texts put together, in the summary and in the
outcome. -/
structure Clean (secrets : List (List Char)) (record : TurnRecord F) : Prop where
  events : ∀ event ∈ record.events, NoSecret secrets event.kind.name ∧
    AllStringsFields (NoSecret secrets) event.payload
  deltas : ∀ secret ∈ secrets,
    ¬ secret <:+: ((extractTurnResult py record.events).texts.map String.toList).flatten
  summary : NoSecret secrets record.resultSummary
  outcome : CleanOutcome secrets record.outcome

/-! ## Redacted texts -/

variable {secrets : List (List Char)}

theorem redactCredentialValues_eq (hlong : ∀ s ∈ secrets, 4 ≤ s.length) (text : List Char) :
    redactCredentialValues text secrets = TextReplace.replaceAll secrets marker text := by
  unfold redactCredentialValues TextReplace.replaceAll
  induction secrets generalizing text with
  | nil => rfl
  | cons s secrets ih =>
    simp only [List.foldl_cons, if_pos (hlong s (by simp))]
    exact ih (fun t ht => hlong t (by simp [ht])) _

section Secrets

variable {secrets : List (List Char)}

section

variable (hlong : ∀ s ∈ secrets, 4 ≤ s.length)
include hlong

theorem ne_nil_of_long : ∀ s ∈ secrets, s ≠ [] := by
  intro s hs hnil
  have hlen := hlong s hs
  rw [hnil] at hlen
  simp at hlen

theorem noSecret_redactString (hapart : ∀ s ∈ secrets, ¬ Touches s marker) (s : String) :
    NoSecret secrets (redactString secrets s) := by
  intro secret hsecret
  rw [redactString, String.toList_ofList, redactCredentialValues_eq hlong]
  exact TextReplace.not_infix_replaceAll (ne_nil_of_long hlong) hsecret (hapart secret hsecret) _

theorem redactString_eq_self {s : String}
    (h : NoSecret secrets s) : redactString secrets s = s := by
  rw [redactString, redactCredentialValues_eq hlong, TextReplace.replaceAll_eq_self h,
    String.ofList_toList]

end

@[simp]
theorem redactString_empty (secrets : List (List Char)) : redactString secrets "" = "" := by
  have hfold : ∀ secrets : List (List Char), redactCredentialValues [] secrets = [] := by
    intro secrets
    induction secrets with
    | nil => rfl
    | cons s secrets ih =>
      simp only [redactCredentialValues, List.foldl_cons, TextReplace.replace_nil, ite_self] at ih ⊢
      exact ih
  simp [redactString, hfold]

mutual

/-- Every key in the value satisfies `P`. -/
def AllKeys (P : String → Prop) : Json F → Prop
  | .obj fields => AllKeysFields P fields
  | .arr items => AllKeysItems P items
  | _ => True

def AllKeysItems (P : String → Prop) : List (Json F) → Prop
  | [] => True
  | v :: vs => AllKeys P v ∧ AllKeysItems P vs

def AllKeysFields (P : String → Prop) : Fields F → Prop
  | [] => True
  | (k, v) :: fs => P k ∧ AllKeys P v ∧ AllKeysFields P fs

end

mutual

/-- Redaction clears the values, so the keys decide. -/
theorem allStrings_redactEventPayload {P : String → Prop} (hP : ∀ s, P (redactString secrets s)) :
    ∀ v : Json F, AllKeys P v → AllStrings P (redactEventPayload secrets v)
  | .null, _ => trivial
  | .bool _, _ => trivial
  | .int _, _ => trivial
  | .float _, _ => trivial
  | .str s, _ => hP s
  | .arr items, h => allStringsItems_redactItems hP items h
  | .obj fields, h => allStringsFields_redactFields hP fields h

theorem allStringsItems_redactItems {P : String → Prop} (hP : ∀ s, P (redactString secrets s)) :
    ∀ vs : List (Json F), AllKeysItems P vs → AllStringsItems P (redactItems secrets vs)
  | [], _ => trivial
  | v :: vs, h =>
    ⟨allStrings_redactEventPayload hP v h.1, allStringsItems_redactItems hP vs h.2⟩

theorem allStringsFields_redactFields {P : String → Prop} (hP : ∀ s, P (redactString secrets s)) :
    ∀ fs : Fields F, AllKeysFields P fs → AllStringsFields P (redactFields secrets fs)
  | [], _ => trivial
  | (_, v) :: fs, h =>
    ⟨h.1, allStrings_redactEventPayload hP v h.2.1, allStringsFields_redactFields hP fs h.2.2⟩

end

theorem fieldOf_redactFields (fields : Fields F) (key : String) :
    fieldOf (redactFields secrets fields) key =
      redactEventPayload secrets (fieldOf fields key) := by
  induction fields with
  | nil => rfl
  | cons e fields ih =>
    obtain ⟨k, v⟩ := e
    simp only [redactFields, fieldOf, List.lookup_cons] at ih ⊢
    cases hk : key == k with
    | true => rfl
    | false => exact ih

/-- A value whose text is what it says: a string, or nothing. -/
def Textual (v : Json F) : Prop :=
  (∃ s, v = .str s) ∨ truthy py v = false

variable {v : Json F}

theorem truthy_redactEventPayload (h : ∀ s, v ≠ .str s) :
    truthy py (redactEventPayload secrets v) = truthy py v := by
  cases v with
  | null => rfl
  | bool b => rfl
  | int i => rfl
  | float x => rfl
  | str s => exact absurd rfl (h s)
  | arr items => cases items <;> simp [redactEventPayload, redactItems, truthy]
  | obj fields => cases fields <;> simp [redactEventPayload, redactFields, truthy]

theorem strOf_redactEventPayload (h : Textual py v) :
    strOf py (orElse py (redactEventPayload secrets v) (.str "")) =
      redactString secrets (strOf py (orElse py v (.str ""))) := by
  have hstr : ∀ s : String, strOf py (orElse py (.str s) (.str "")) = s := by
    intro s
    by_cases hs : s = "" <;> simp [orElse, truthy, strOf, hs]
  by_cases hcase : ∃ s, v = .str s
  · obtain ⟨s, rfl⟩ := hcase
    rw [redactEventPayload, hstr, hstr]
  · push Not at hcase
    have hfalsy : truthy py v = false := by
      rcases h with ⟨s, hs⟩ | hfalsy
      · exact absurd hs (hcase s)
      · exact hfalsy
    rw [orElse, truthy_redactEventPayload py hcase, orElse, hfalsy]
    simp [strOf]

/-! ## What the result of a turn is made of -/

/-- The texts of the events that carry output. -/
def deltaTexts (events : List (Event F)) : List String :=
  events.flatMap fun event =>
    if event.kind = .outputDelta then
      [strOf py (orElse py (fieldOf event.payload "text") (.str ""))]
    else []

theorem extractTurnResult_texts (events : List (Event F)) :
    (extractTurnResult py events).texts = deltaTexts py events := by
  suffices hfold : ∀ r : TurnResult F,
      (events.foldl (extractStep py) r).texts = r.texts ++ deltaTexts py events by
    have hstart := hfold ⟨[], none, none, none⟩
    rwa [List.nil_append] at hstart
  induction events with
  | nil =>
    intro r
    simp [deltaTexts]
  | cons event events ih =>
    intro r
    rw [List.foldl_cons, ih]
    cases hkind : event.kind <;> simp [extractStep, deltaTexts, hkind]

theorem extractTurnResult_invariant {P : TurnResult F → Prop} {events : List (Event F)}
    (hinit : P ⟨[], none, none, none⟩)
    (hstep : ∀ r event, event ∈ events → P r → P (extractStep py r event)) :
    P (extractTurnResult py events) := by
  suffices hfold : ∀ r, P r → P (events.foldl (extractStep py) r) from hfold _ hinit
  induction events with
  | nil => exact fun r hr => hr
  | cons event events ih =>
    intro r hr
    exact ih (fun r' e he => hstep r' e (by simp [he])) _ (hstep r event (by simp) hr)

/-- The field of an event that is read as a text. -/
def textField : EventKind → Option String
  | .outputDelta => some "text"
  | .sessionRef => some "session_ref"
  | .error => some "message"
  | _ => none

/-- The words that are stored whatever the tool says. -/
def vocabulary (input : TurnInput) : List String :=
  ["session_ref", "output_delta", "tool_call", "usage", "error", "file_change", "warning",
    "resume_degraded", "turn_finished", "session_status", "reason", "cli_state_missing", "executor",
    "seq", "status", "summary", "error_code", "cancelled", "completed", "failed", "idle",
    "executor_error", "coding executor failed", input.executor.name, input.sessionId] ++
    input.cliSessionRef.toList

/-- Events in which the replacements find every secret: no secret shares a part with the marker,
stands in a key, is spread over two texts, or is a word that is stored anyway; and what is read as
a text is one. -/
structure Shielded (input : TurnInput) (secrets : List (List Char)) (events : List (Event F)) :
    Prop where
  apart : ∀ s ∈ secrets, ¬ Touches s marker
  keys : ∀ event ∈ events, AllKeysFields (NoSecret secrets) event.payload
  textual : ∀ event ∈ events, ∀ key, textField event.kind = some key →
    Textual py (fieldOf event.payload key)
  whole : ∀ s ∈ secrets, ¬ Crosses s ((deltaTexts py events).map String.toList)
  words : ∀ word ∈ vocabulary input, NoSecret secrets word

/-- A result whose parts are free of secrets. -/
structure CleanResult (secrets : List (List Char)) (result : TurnResult F) : Prop where
  sessionRef : ∀ ref, result.sessionRef = some ref → NoSecret secrets ref
  usage : ∀ usage, result.usage = some usage → AllStringsFields (NoSecret secrets) usage
  error : ∀ error, result.error = some error → NoSecret secrets error ∧ error ≠ ""

section Shield

variable {py} {input : TurnInput} {events : List (Event F)}
  (hlong : ∀ s ∈ secrets, 4 ≤ s.length) (h : Shielded py input secrets events)

include hlong h

variable {event : Event F}

theorem allStrings_redacted (hmem : event ∈ events) :
    AllStringsFields (NoSecret secrets) (redactEvent secrets event).payload :=
  allStringsFields_redactFields (noSecret_redactString hlong h.apart) event.payload
    (h.keys event hmem)

omit hlong in
theorem deltaTexts_redacted : deltaTexts py (events.map (redactEvent secrets)) =
      (deltaTexts py events).map (redactString secrets) := by
  have htextual := h.textual
  clear h
  induction events with
  | nil => rfl
  | cons event events ih =>
    have hrest := ih fun e he => htextual e (by simp [he])
    simp only [deltaTexts, List.map_cons, List.flatMap_cons, List.map_append] at hrest ⊢
    rw [hrest]
    congr 1
    have hsame : (redactEvent secrets event).kind = event.kind := rfl
    by_cases hkind : event.kind = .outputDelta
    · have htext := htextual event (by simp) "text" (by rw [hkind]; rfl)
      rw [if_pos (hsame.trans hkind), if_pos hkind, redactEvent, fieldOf_redactFields,
        strOf_redactEventPayload py htext]
      rfl
    · rw [if_neg (hsame ▸ hkind), if_neg hkind]
      rfl

/-- The message of an error event is not empty and free of secrets. -/
theorem errorText_redacted (hmem : event ∈ events) (hkind : event.kind = .error) :
    NoSecret secrets (strOf py (orElse py
      (fieldOf (redactEvent secrets event).payload "message") (.str "coding executor failed"))) ∧
    strOf py (orElse py (fieldOf (redactEvent secrets event).payload "message")
      (.str "coding executor failed")) ≠ "" := by
  have hdefault : NoSecret secrets "coding executor failed" :=
    h.words _ (by simp [vocabulary])
  have htext := h.textual event hmem "message" (by rw [hkind]; rfl)
  simp only [redactEvent, fieldOf_redactFields]
  generalize fieldOf event.payload "message" = v at htext
  by_cases hcase : ∃ s, v = .str s
  · obtain ⟨s, rfl⟩ := hcase
    rw [redactEventPayload]
    by_cases hempty : redactString secrets s = ""
    · simpa [orElse, truthy, hempty, strOf] using hdefault
    · have hclean := noSecret_redactString hlong h.apart s
      simpa [orElse, truthy, hempty, strOf] using hclean
  · push Not at hcase
    have hfalsy : truthy py v = false := by
      rcases htext with ⟨s, hs⟩ | hfalsy
      · exact absurd hs (hcase s)
      · exact hfalsy
    rw [orElse, truthy_redactEventPayload py hcase, hfalsy]
    simpa [strOf] using hdefault

theorem cleanResult_redacted :
    CleanResult secrets (extractTurnResult py (events.map (redactEvent secrets))) := by
  apply extractTurnResult_invariant
  · constructor <;> intro x hx <;> cases hx
  · intro r redacted hredacted hr
    obtain ⟨event, hmem, rfl⟩ := List.mem_map.mp hredacted
    have hkind : (redactEvent secrets event).kind = event.kind := rfl
    unfold extractStep
    rw [hkind]
    split
    · exact ⟨hr.sessionRef, hr.usage, hr.error⟩
    · next hcase =>
      refine ⟨fun ref href => ?_, hr.usage, hr.error⟩
      simp only at href
      split at href
      · exact hr.sessionRef ref href
      · have htext := h.textual event hmem "session_ref" (by rw [hcase]; rfl)
        cases href
        simp only [redactEvent, fieldOf_redactFields]
        rw [strOf_redactEventPayload py htext]
        exact noSecret_redactString hlong h.apart _
    · refine ⟨hr.sessionRef, fun usage husage => ?_, hr.error⟩
      cases husage
      exact allStrings_redacted hlong h hmem
    · next hcase =>
      refine ⟨hr.sessionRef, hr.usage, fun error herror => ?_⟩
      cases herror
      exact errorText_redacted hlong h hmem hcase
    · exact hr

theorem not_infix_deltaTexts {secret : List Char} (hsecret : secret ∈ secrets) :
    ¬ secret <:+: ((deltaTexts py (events.map (redactEvent secrets))).map String.toList).flatten := by
  have hnil := ne_nil_of_long hlong
  have htexts : (deltaTexts py (events.map (redactEvent secrets))).map String.toList =
      ((deltaTexts py events).map String.toList).map (TextReplace.replaceAll secrets marker) := by
    rw [deltaTexts_redacted h, List.map_map, List.map_map]
    apply List.map_congr_left
    intro s _
    simp [redactString, redactCredentialValues_eq hlong]
  rw [htexts]
  intro hoccurs
  rcases TextReplace.infix_flatten_cases (hnil secret hsecret) hoccurs with ⟨t, ht, hin⟩ | hcross
  · obtain ⟨t₀, -, rfl⟩ := List.mem_map.mp ht
    exact TextReplace.not_infix_replaceAll hnil hsecret (h.apart secret hsecret) t₀ hin
  · exact h.whole secret hsecret (TextReplace.crosses_of_map hnil (h.apart secret hsecret) hcross)

omit hlong h in
theorem error_isSome_of_mem (hmem : ∃ event ∈ events, event.kind = .error) :
    (extractTurnResult py (events.map (redactEvent secrets))).error.isSome := by
  suffices hfold : ∀ r : TurnResult F, (r.error.isSome ∨ ∃ event ∈ events, event.kind = .error) →
      ((events.map (redactEvent secrets)).foldl (extractStep py) r).error.isSome from
    hfold _ (Or.inr hmem)
  clear hmem
  induction events with
  | nil =>
    intro r hr
    simpa using hr
  | cons event events ih =>
    intro r hr
    rw [List.map_cons, List.foldl_cons]
    apply ih
    have hkind : (redactEvent secrets event).kind = event.kind := rfl
    by_cases herror : event.kind = .error
    · left
      simp [extractStep, hkind, herror]
    · rcases hr with hsome | ⟨e, he, hcase⟩
      · left
        unfold extractStep
        rw [hkind]
        split <;> simp_all
      · right
        rcases List.mem_cons.mp he with heq | hrest
        · exact absurd (heq ▸ hcase) herror
        · exact ⟨e, hrest, hcase⟩

theorem failureText_redacted
    (hinfra : input.infraError.isSome → ∃ event ∈ events, event.kind = .error) :
    failureText (extractTurnResult py (events.map (redactEvent secrets))) input =
      (extractTurnResult py (events.map (redactEvent secrets))).error := by
  have hclean := cleanResult_redacted hlong h
  unfold failureText
  cases herror : (extractTurnResult py (events.map (redactEvent secrets))).error with
  | none =>
    cases hexception : input.infraError with
    | none => rfl
    | some exception =>
      have hmem := hinfra (by simp [hexception])
      have hsome : (extractTurnResult py (events.map (redactEvent secrets))).error.isSome :=
        error_isSome_of_mem hmem
      rw [herror] at hsome
      simp at hsome
  | some error => simp [(hclean.error error herror).2]

theorem noSecret_summary : NoSecret secrets
    (String.ofList ((extractTurnResult py (events.map (redactEvent secrets))).outputText.take 2000)) := by
  intro secret hsecret hoccurs
  rw [String.toList_ofList] at hoccurs
  apply not_infix_deltaTexts hlong h hsecret
  rw [← extractTurnResult_texts]
  obtain ⟨left, right, -, -, htexts⟩ := PyText.exists_append_stripChars
    ((extractTurnResult py (events.map (redactEvent secrets))).texts.map String.toList).flatten
  have hstrip : (extractTurnResult py (events.map (redactEvent secrets))).outputText <:+:
      ((extractTurnResult py (events.map (redactEvent secrets))).texts.map String.toList).flatten :=
    ⟨left, right, by rw [List.append_assoc]; exact htexts.symm⟩
  exact (hoccurs.trans (List.take_prefix _ _).isInfix).trans hstrip

omit hlong h in
theorem deltaTexts_append (events later : List (Event F)) :
    deltaTexts py (events ++ later) = deltaTexts py events ++ deltaTexts py later := by
  simp [deltaTexts]

omit hlong h in
theorem deltaTexts_eq_nil {events : List (Event F)}
    (hkind : ∀ event ∈ events, event.kind ≠ .outputDelta) : deltaTexts py events = [] := by
  rw [deltaTexts, List.flatMap_eq_nil_iff]
  intro event hmem
  rw [if_neg (hkind event hmem)]

omit hlong in
theorem noSecret_kindName (kind : EventKind) : NoSecret secrets kind.name := by
  apply h.words
  cases kind <;> simp [EventKind.name, vocabulary]

/-- An event that carries no output and no secret. -/
def Plain (secrets : List (List Char)) (event : Event F) : Prop :=
  event.kind ≠ .outputDelta ∧ AllStringsFields (NoSecret secrets) event.payload

omit hlong in
theorem plain_degradedEvents : ∀ event ∈ (degradedEvents input : List (Event F)),
    Plain secrets event := by
  have hwords := h.words
  simp only [vocabulary, List.cons_append, List.nil_append, List.forall_mem_cons] at hwords
  intro event hmem
  unfold degradedEvents at hmem
  split at hmem
  · rw [List.mem_singleton] at hmem
    subst hmem
    simp [Plain, AllStringsFields, AllStrings, hwords]
  · simp at hmem

theorem allStrings_usage : AllStringsFields (NoSecret secrets)
    ((extractTurnResult py (events.map (redactEvent secrets))).usage.getD []) := by
  cases hcase : (extractTurnResult py (events.map (redactEvent secrets))).usage with
  | none => trivial
  | some usage => exact (cleanResult_redacted hlong h).usage usage hcase

variable {later : List (Event F)}

theorem clean_events (hlater : ∀ event ∈ later, Plain secrets event) :
    ∀ event ∈ degradedEvents input ++ events.map (redactEvent secrets) ++ later,
      NoSecret secrets event.kind.name ∧ AllStringsFields (NoSecret secrets) event.payload := by
  intro event hmem
  refine ⟨noSecret_kindName h event.kind, ?_⟩
  rw [List.append_assoc, List.mem_append, List.mem_append] at hmem
  rcases hmem with hfirst | hmiddle | hlast
  · exact (plain_degradedEvents h event hfirst).2
  · obtain ⟨e, he, rfl⟩ := List.mem_map.mp hmiddle
    exact allStrings_redacted hlong h he
  · exact (hlater event hlast).2

omit hlong in
theorem extractTurnResult_texts_record (hlater : ∀ event ∈ later, Plain secrets event) :
    (extractTurnResult py (degradedEvents input ++ events.map (redactEvent secrets) ++ later)).texts =
      deltaTexts py (events.map (redactEvent secrets)) := by
  rw [extractTurnResult_texts, deltaTexts_append, deltaTexts_append,
    deltaTexts_eq_nil fun event hmem => (plain_degradedEvents h event hmem).1,
    deltaTexts_eq_nil fun event hmem => (hlater event hmem).1, List.nil_append, List.append_nil]

theorem clean_of_parts {record : TurnRecord F} (later : List (Event F))
    (hevents : record.events = degradedEvents input ++ events.map (redactEvent secrets) ++ later)
    (hlater : ∀ event ∈ later, Plain secrets event)
    (hsummary : NoSecret secrets record.resultSummary)
    (houtcome : CleanOutcome secrets record.outcome) : Clean py secrets record := by
  refine ⟨?_, ?_, hsummary, houtcome⟩
  · rw [hevents]
    exact clean_events hlong h hlater
  · intro secret hsecret
    rw [hevents, extractTurnResult_texts_record h hlater]
    exact not_infix_deltaTexts hlong h hsecret

theorem noSecret_redactedSummary : NoSecret secrets (String.ofList (redactCredentialValues
    ((extractTurnResult py (events.map (redactEvent secrets))).outputText.take 2000) secrets)) := by
  have hclean := noSecret_redactString hlong h.apart (String.ofList
    ((extractTurnResult py (events.map (redactEvent secrets))).outputText.take 2000))
  rwa [redactString, String.toList_ofList] at hclean

theorem clean_of_shielded
    (hinfra : input.infraError.isSome → ∃ event ∈ events, event.kind = .error) :
    Clean py secrets (recordTurn py input secrets (events.map (redactEvent secrets))) := by
  have hresult := cleanResult_redacted hlong h
  have husage := allStrings_usage hlong h
  have hsummary := noSecret_redactedSummary hlong h
  have hfailure := failureText_redacted hlong h hinfra
  have hwords := h.words
  simp only [vocabulary, List.cons_append, List.nil_append, List.forall_mem_cons] at hwords
  have href : ∀ ref, input.cliSessionRef = some ref → NoSecret secrets ref := by
    intro ref heq
    exact h.words ref (by simp [vocabulary, heq])
  unfold recordTurn
  dsimp only
  rw [hfailure]
  by_cases hcancel : input.cancelled = true
  · rw [if_pos hcancel]
    refine clean_of_parts hlong h _ rfl ?_ hsummary ?_
    · simp [Plain, AllStringsFields, AllStrings, hwords]
    · exact ⟨by simp [hwords], by simp [hwords], by simp [hwords], hsummary, href, hresult.usage,
        by simp, by simp⟩
  · rw [if_neg hcancel]
    generalize (Option.isSome _ || _) = failed
    refine clean_of_parts hlong h _ rfl ?_ hsummary ?_
    · cases failed <;>
        simp [Plain, AllStringsFields, AllStrings, optionField, hwords, hsummary, husage]
    · refine ⟨by simp [hwords], ?_, by simp [hwords], hsummary, ?_, hresult.usage, ?_, ?_⟩
      · cases failed <;> simp [hwords]
      · intro ref heq
        simp only [Option.or_eq_some_iff] at heq
        rcases heq with hfound | ⟨-, hinput⟩
        · exact hresult.sessionRef ref hfound
        · exact href ref hinput
      · cases failed <;> simp [hwords]
      · exact fun message heq => (hresult.error message heq).1

/-- Nothing is left to replace, so neither the secrets nor the exception are read again. -/
theorem recordTurn_shielded
    (hinfra : input.infraError.isSome → ∃ event ∈ events, event.kind = .error) :
    recordTurn py input secrets (events.map (redactEvent secrets)) =
      recordTurn py { input with rawOutput := [], infraError := none } []
        (events.map (redactEvent secrets)) := by
  have hresult := cleanResult_redacted hlong h
  have hfailure := failureText_redacted hlong h hinfra
  have hnone : failureText (extractTurnResult py (events.map (redactEvent secrets)))
      { input with rawOutput := [], infraError := none } =
        (extractTurnResult py (events.map (redactEvent secrets))).error := by
    unfold failureText
    cases herror : (extractTurnResult py (events.map (redactEvent secrets))).error with
    | none => rfl
    | some error => simp [(hresult.error error herror).2]
  have hsummary : redactCredentialValues
      ((extractTurnResult py (events.map (redactEvent secrets))).outputText.take 2000) secrets =
        (extractTurnResult py (events.map (redactEvent secrets))).outputText.take 2000 := by
    have hclean := redactString_eq_self hlong (noSecret_summary hlong h)
    rw [redactString, String.toList_ofList] at hclean
    exact String.ofList_injective hclean
  have hmessage : (extractTurnResult py (events.map (redactEvent secrets))).error.map
      (redactString secrets) = (extractTurnResult py (events.map (redactEvent secrets))).error.map
        (redactString []) := by
    cases herror : (extractTurnResult py (events.map (redactEvent secrets))).error with
    | none => rfl
    | some error =>
      rw [Option.map_some, Option.map_some,
        redactString_eq_self hlong (hresult.error error herror).1,
        redactString_eq_self (by simp) (by simp [NoSecret])]
  unfold recordTurn
  dsimp only
  rw [hfailure, hnone, hsummary, hmessage]
  rfl

end Shield

/-! ## Templates -/

/-- A value whose strings have slots for the secrets. -/
inductive Template (F : Type u) where
  | null
  | bool (b : Bool)
  | int (i : Int)
  | float (x : F)
  | str (pieces : List (Piece Char))
  | arr (items : List (Template F))
  | obj (fields : List (String × Template F))

mutual

def Template.fill (val : Nat → List Char) : Template F → Json F
  | .null => .null
  | .bool b => .bool b
  | .int i => .int i
  | .float x => .float x
  | .str pieces => .str (String.ofList (TextReplace.fill val pieces))
  | .arr items => .arr (fillItems val items)
  | .obj fields => .obj (fillFields val fields)

def fillItems (val : Nat → List Char) : List (Template F) → List (Json F)
  | [] => []
  | t :: ts => t.fill val :: fillItems val ts

def fillFields (val : Nat → List Char) : List (String × Template F) → Fields F
  | [] => []
  | (k, t) :: ts => (k, t.fill val) :: fillFields val ts

end

mutual

/-- The texts with slots at any depth. -/
def Template.texts : Template F → List (List (Piece Char))
  | .str pieces => [pieces]
  | .arr items => textsItems items
  | .obj fields => textsFields fields
  | _ => []

def textsItems : List (Template F) → List (List (Piece Char))
  | [] => []
  | t :: ts => t.texts ++ textsItems ts

def textsFields : List (String × Template F) → List (List (Piece Char))
  | [] => []
  | (_, t) :: ts => t.texts ++ textsFields ts

end

structure EventTemplate (F : Type u) where
  kind : EventKind
  payload : List (String × Template F)

def EventTemplate.fill (val : Nat → List Char) (tpl : EventTemplate F) : Event F :=
  ⟨tpl.kind, fillFields val tpl.payload⟩

/-- The slot `i` holds the secret `i`. -/
def slotValue (secrets : List (List Char)) (i : Nat) : List Char :=
  secrets.getD i []

/-- What the slots hold after the replacements: the marker, for every secret alike. -/
def slotMarker (count i : Nat) : List Char :=
  if i < count then marker else []

theorem slotValue_mem (hlong : ∀ s ∈ secrets, 4 ≤ s.length) (i : Nat) :
    slotValue secrets i ∈ secrets ↔ i < secrets.length := by
  by_cases hi : i < secrets.length
  · simp [slotValue, hi]
  · have hnil : slotValue secrets i = [] := by
      simp [slotValue, List.getElem?_eq_none (not_lt.mp hi)]
    rw [hnil]
    constructor
    · intro hmem
      exact absurd rfl (ne_nil_of_long hlong [] hmem)
    · exact fun hlt => absurd hlt hi

theorem redactString_fill (hlong : ∀ s ∈ secrets, 4 ≤ s.length) {pieces : List (Piece Char)}
    (hfound : FoundInSlots marker pieces secrets (slotValue secrets)) :
    redactString secrets (String.ofList (TextReplace.fill (slotValue secrets) pieces)) =
      String.ofList (TextReplace.fill (slotMarker secrets.length) pieces) := by
  rw [redactString, String.toList_ofList, redactCredentialValues_eq hlong,
    TextReplace.replaceAll_fill (ne_nil_of_long hlong) hfound]
  congr 2
  funext i
  unfold slotMarker
  by_cases hi : i < secrets.length
  · rw [if_pos ((slotValue_mem hlong i).mpr hi), if_pos hi]
  · rw [if_neg fun hmem => hi ((slotValue_mem hlong i).mp hmem), if_neg hi]
    simp [slotValue, List.getElem?_eq_none (not_lt.mp hi)]

mutual

theorem redactEventPayload_fill (hlong : ∀ s ∈ secrets, 4 ≤ s.length) : ∀ t : Template F,
      (∀ pieces ∈ t.texts, FoundInSlots marker pieces secrets (slotValue secrets)) →
      redactEventPayload secrets (t.fill (slotValue secrets)) = t.fill (slotMarker secrets.length)
  | .null, _ => by simp [Template.fill, redactEventPayload]
  | .bool _, _ => by simp [Template.fill, redactEventPayload]
  | .int _, _ => by simp [Template.fill, redactEventPayload]
  | .float _, _ => by simp [Template.fill, redactEventPayload]
  | .str pieces, h => by
    rw [Template.fill, redactEventPayload, redactString_fill hlong (h pieces (by simp [Template.texts])),
      Template.fill]
  | .arr items, h => by
    rw [Template.fill, redactEventPayload, redactItems_fill hlong items (by simpa [Template.texts] using h),
      Template.fill]
  | .obj fields, h => by
    rw [Template.fill, redactEventPayload, redactFields_fill hlong fields (by simpa [Template.texts] using h),
      Template.fill]

theorem redactItems_fill (hlong : ∀ s ∈ secrets, 4 ≤ s.length) : ∀ ts : List (Template F),
      (∀ pieces ∈ textsItems ts, FoundInSlots marker pieces secrets (slotValue secrets)) →
      redactItems secrets (fillItems (slotValue secrets) ts) =
        fillItems (slotMarker secrets.length) ts
  | [], _ => rfl
  | t :: ts, h => by
    rw [fillItems, redactItems, fillItems,
      redactEventPayload_fill hlong t fun pieces hp => h pieces (by simp [textsItems, hp]),
      redactItems_fill hlong ts fun pieces hp => h pieces (by simp [textsItems, hp])]

theorem redactFields_fill (hlong : ∀ s ∈ secrets, 4 ≤ s.length) : ∀ ts : List (String × Template F),
      (∀ pieces ∈ textsFields ts, FoundInSlots marker pieces secrets (slotValue secrets)) →
      redactFields secrets (fillFields (slotValue secrets) ts) =
        fillFields (slotMarker secrets.length) ts
  | [], _ => rfl
  | (k, t) :: ts, h => by
    rw [fillFields, redactFields, fillFields,
      redactEventPayload_fill hlong t fun pieces hp => h pieces (by simp [textsFields, hp]),
      redactFields_fill hlong ts fun pieces hp => h pieces (by simp [textsFields, hp])]

end

end Secrets

/-! ## The tail of a turn -/

variable {input : TurnInput}

theorem exists_error_of_infraError {events : List (Event F)}
    (h : turnEvents py input = some events) (hinfra : input.infraError.isSome) :
    ∃ event ∈ events, event.kind = .error := by
  obtain ⟨exception, hexception⟩ := Option.isSome_iff_exists.mp hinfra
  unfold turnEvents at h
  rw [hexception] at h
  obtain ⟨parsed, -, rfl⟩ := Option.map_eq_some_iff.mp h
  exact ⟨_, List.mem_append_right _ (List.mem_singleton_self _), rfl⟩

/-- The events of the output are a template with the secrets in its slots, and nowhere else. -/
structure FromTemplate (tpl : List (EventTemplate F)) (input : TurnInput)
    (secrets : List (List Char)) : Prop where
  long : ∀ s ∈ secrets, 4 ≤ s.length
  events : turnEvents py input = some (tpl.map (EventTemplate.fill (slotValue secrets)))
  shielded : Shielded py input secrets (tpl.map (EventTemplate.fill (slotValue secrets)))
  found : ∀ event ∈ tpl, ∀ pieces ∈ textsFields event.payload,
    FoundInSlots marker pieces secrets (slotValue secrets)

/-- What the tail stores for a template. -/
theorem executeTurnTail_fromTemplate {tpl : List (EventTemplate F)}
    (h : FromTemplate py tpl input secrets) :
    executeTurnTail py input secrets =
      some (recordTurn py { input with rawOutput := [], infraError := none } []
        (tpl.map (EventTemplate.fill (slotMarker secrets.length)))) := by
  have hredacted : (tpl.map (EventTemplate.fill (slotValue secrets))).map (redactEvent secrets) =
      tpl.map (EventTemplate.fill (slotMarker secrets.length)) := by
    rw [List.map_map]
    apply List.map_congr_left
    intro event hmem
    simp only [Function.comp_apply, EventTemplate.fill, redactEvent]
    rw [redactFields_fill h.long event.payload (h.found event hmem)]
  rw [executeTurnTail, h.events, Option.map_some,
    recordTurn_shielded h.long h.shielded (exists_error_of_infraError py h.events), hredacted]

/-- An output with one JSON text on each line. -/
def outputOf (objects : List (Json.Dict F)) : List Char :=
  objects.flatMap fun object => Json.dump py.float object.toJson ++ ['\n']

/-- The objects of a text behind a newline are read on their own. -/
theorem iterJsonLines_append (s t : List Char) :
    iterJsonLines py (s ++ '\n' :: t) = iterJsonLines py (s ++ ['\n']) ++ iterJsonLines py t := by
  unfold iterJsonLines PyText.splitLines
  rw [PyText.splitLinesFrom_append, List.filterMap_append]

/-- An object without separators is read from its line. -/
theorem iterJsonLines_dump {object : Json.Dict F} (h : object.toJson.AllStrings Json.Unbroken) :
    iterJsonLines py (Json.dump py.float object.toJson ++ ['\n']) = [object.fields] := by
  have hline := (Json.dump_unbroken_iff py.float _).mpr h
  obtain ⟨t, ht⟩ := Json.dump_object py.float object.fields
  have hstrip : PyText.stripChars (Json.dump py.float object.toJson) =
      Json.dump py.float object.toJson := by
    rw [Json.Dict.toJson, ht, PyText.stripChars_of_ends (by decide) (by decide)]
  have hhead : (Json.dump py.float object.toJson).head? = some '{' := by
    rw [Json.Dict.toJson, ht]
    rfl
  have hload : Json.loads py.float (Json.dump py.float object.toJson) = some (.obj object.fields) :=
    Json.loads_dump py.float object.wellFormed
  unfold iterJsonLines PyText.splitLines
  rw [PyText.splitLinesFrom_of_forall [] hline]
  simp [hstrip, hhead, hload]

theorem iterJsonLines_outputOf {objects : List (Json.Dict F)}
    (h : ∀ object ∈ objects, object.toJson.AllStrings Json.Unbroken) :
    iterJsonLines py (outputOf py objects) = objects.map Json.Dict.fields := by
  induction objects with
  | nil => rfl
  | cons object objects ih =>
    obtain ⟨hobject, hobjects⟩ := List.forall_mem_cons.mp h
    have hrest := ih hobjects
    rw [outputOf] at hrest ⊢
    rw [List.flatMap_cons, List.append_assoc, List.singleton_append, iterJsonLines_append,
      iterJsonLines_dump py hobject, hrest]
    rfl

def samplePy : PyValues Unit :=
  ⟨Json.FloatText.zero, fun _ => true, fun _ => ""⟩

/-- A line of text of the tool. -/
def textObject (text : String) : Json.Dict Unit :=
  ⟨[("type", .str "text"), ("part", .obj [("text", .str text)])],
    by simp [Json.WellFormed, Json.WellFormedFields]⟩

def sampleInput (texts : List String) : TurnInput :=
  { executor := .opencode
    sessionId := "coding-1"
    turnSeq := 1
    cliSessionRef := none
    resumeDegraded := false
    rawOutput := outputOf samplePy (texts.map textObject)
    exitCode := 0
    infraError := none
    cancelled := false }

theorem turnEvents_sample {texts : List String} (h : ∀ text ∈ texts, Json.Unbroken text) :
    turnEvents samplePy (sampleInput texts) =
      some (texts.map fun text => ⟨.outputDelta, [("text", .str text)]⟩) := by
  have hobjects : ∀ object ∈ texts.map textObject, object.toJson.AllStrings Json.Unbroken := by
    intro object hobject
    obtain ⟨text, htext, rfl⟩ := List.mem_map.mp hobject
    have hword : Json.Unbroken "type" ∧ Json.Unbroken "text" ∧ Json.Unbroken "part" := by
      unfold Json.Unbroken
      decide
    simp [textObject, Json.Dict.toJson, AllStrings, AllStringsFields, hword, h text htext]
  have hevent : ∀ text : String, openCodeEvents samplePy (textObject text).fields =
      some [⟨.outputDelta, [("text", .str text)]⟩] := by
    intro text
    by_cases hempty : text = "" <;>
      simp [openCodeEvents, textObject, fieldOf, attrGet, orElse, truthy, strOf, List.lookup_cons, hempty]
  unfold turnEvents parseEvents sampleInput
  simp only
  rw [iterJsonLines_outputOf samplePy hobjects]
  clear h hobjects
  rw [Option.map_map]
  induction texts with
  | nil => rfl
  | cons text texts ih =>
    simp only [List.map_cons, List.mapM_cons, hevent] at ih ⊢
    rw [Option.map_eq_some_iff] at ih
    obtain ⟨rest, hrest, heq⟩ := ih
    rw [hrest]
    simp only [Function.comp_apply] at heq ⊢
    simp [heq]

variable {secret : List Char}

theorem shielded_sample (text : String) (hapart : ¬ Touches secret marker) (hseven : '7' ∈ secret) :
    Shielded samplePy (sampleInput [text]) [secret] [⟨.outputDelta, [("text", .str text)]⟩] := by
  have hfree : ∀ word : String, '7' ∉ word.toList → NoSecret [secret] word := by
    intro word hword s hs hoccurs
    rw [List.mem_singleton.mp hs] at hoccurs
    exact hword (hoccurs.subset hseven)
  refine ⟨by simpa using hapart, ?_, ?_, ?_, ?_⟩
  · simp [AllKeysFields, AllKeys, hfree]
  · simp [textField, fieldOf, Textual]
  · intro s hs hcross
    obtain ⟨before, first, middle, last, after, x, z, htexts, -⟩ := hcross
    have hlength := congrArg List.length htexts
    simp [deltaTexts] at hlength
    omega
  · intro word hword
    apply hfree
    revert word
    simp [vocabulary, sampleInput, Executor.name]

def sampleTemplate : List (EventTemplate Unit) :=
  [⟨.outputDelta, [("text", .str [.lit 'k', .lit '=', .slot 0])]⟩]

/-- The output of the template with a secret in its slot. -/
def keyInput (secret : List Char) : TurnInput :=
  sampleInput [String.ofList ('k' :: '=' :: secret)]

theorem fromTemplate_sample (hlong : 4 ≤ secret.length)
    (hapart : ¬ Touches secret marker) (hseven : '7' ∈ secret)
    (hunbroken : ∀ c ∈ secret, Json.isSeparator c = false)
    (hfound : TextReplace.OnlyInSlots secret (slotValue [secret]) [.lit 'k', .lit '=', .slot 0]) :
    FromTemplate samplePy sampleTemplate (keyInput secret) [secret] := by
  have hfill : sampleTemplate.map (EventTemplate.fill (slotValue [secret])) =
      [⟨.outputDelta, [("text", .str (String.ofList ('k' :: '=' :: secret)))]⟩] := by
    simp [sampleTemplate, EventTemplate.fill, fillFields, Template.fill, TextReplace.fill, slotValue]
  refine ⟨by simpa using hlong, ?_, ?_, ?_⟩
  · rw [hfill, keyInput, turnEvents_sample]
    · rfl
    · intro text htext
      rw [List.mem_singleton.mp htext, Json.Unbroken, String.toList_ofList]
      intro c hc
      simp only [List.mem_cons] at hc
      rcases hc with rfl | rfl | hc
      · decide
      · decide
      · exact hunbroken c hc
  · rw [hfill]
    exact shielded_sample _ hapart hseven
  · simp [sampleTemplate, textsFields, Template.texts, FoundInSlots, hfound]

end Yuanlei.CodingTurn
