import Mathlib.Data.List.Induction
import Mathlib.Logic.Function.Basic

/-!
# Images of tool results

Chat Completions carries no images in tool results.  `_lift_tool_images_to_user` puts the
images of a run of tool results into a user message behind the run.  An image that a later call
of `ocr_parse_file` reads is left out.

Main results:

- `bridge_woven`: the conversation keeps its messages, and images follow their run.
- `liftToolImagesToUser_spec`: this holds of every conversation, no tool result
  carries an image, and lifting again changes nothing.
-/

namespace Yuanlei.ModelInput

/-! ## Messages -/

/-- A content block; `text` is there when it is a string. -/
structure Block where
  type : String
  text : Option String
  data : String
deriving DecidableEq

def Block.isImage (block : Block) : Bool :=
  block.type ∈ ["image", "image_url", "input_image"]

inductive Role where
  | system
  | human
  | ai
  | tool
deriving DecidableEq

/-- A tool call; `filePath` is the argument `file_path` when it is a string. -/
structure ToolCall where
  name : String
  filePath : Option String
deriving DecidableEq

structure Message where
  role : Role
  id : Option String
  contentBlocks : List Block
  toolCalls : List ToolCall
  toolCallId : Option String
  readFilePath : Option String
deriving DecidableEq

def Message.images (message : Message) : List Block :=
  message.contentBlocks.filter Block.isImage

/-! ## Lifting -/

/-- The calls of one message in `latest_ocr_call_by_path`. -/
def noteOcrCalls (latest : String → Option Nat) (index : Nat) : List ToolCall → String → Option Nat
  | [] => latest
  | call :: calls =>
    match call.filePath with
    | some path =>
      if call.name = "ocr_parse_file" ∧ path ≠ "" then
        noteOcrCalls (Function.update latest path (some index)) index calls
      else noteOcrCalls latest index calls
    | none => noteOcrCalls latest index calls

def latestOcrCallByPath (entries : List (Message × Nat)) : String → Option Nat :=
  entries.foldl
    (fun latest entry =>
      if entry.1.role = .ai then noteOcrCalls latest entry.2 entry.1.toolCalls else latest)
    fun _ => none

def ocrExplicitlyRequested (messages : List Message) (message : Message) (index : Nat) : Bool :=
  message.readFilePath.any fun path =>
    (latestOcrCallByPath messages.zipIdx path).any fun call => index < call

/-- The content of a tool result without its images. -/
def toolContent (message : Message) (ocrRequested : Bool) : String :=
  let text := "\n".intercalate (message.contentBlocks.filterMap fun block =>
    if block.type = "text" then block.text else none)
  let count := message.images.length
  if text ≠ "" then text
  else s!"read_file returned {count} image(s). " ++
    if ocrRequested then "OCR was explicitly requested for this image."
    else "The image content is attached in the following user message for visual inspection."

def textBlock (text : String) : Block :=
  ⟨"text", some text, ""⟩

variable (requested : Message → Nat → Bool)

/-- A tool result in the new conversation. -/
def bridgeTool (entry : Message × Nat) : Message :=
  if entry.1.images = [] then entry.1
  else
    { entry.1 with
      contentBlocks := [textBlock (toolContent entry.1 (requested entry.1 entry.2))] }

/-- The images of a tool result that the next user message carries. -/
def lifted (entry : Message × Nat) : List Block :=
  if requested entry.1 entry.2 then [] else entry.1.images

def flushPendingImages (pending : List Block) : List Message :=
  if pending = [] then []
  else
    [{ role := .human
       id := none
       contentBlocks := textBlock
         "Images returned by read_file are attached below. Inspect them when answering." :: pending
       toolCalls := []
       toolCallId := none
       readFilePath := none }]

/-- The loop over the messages, with the images that wait. -/
def bridge : List (Message × Nat) → List Block → List Message
  | [], pending => flushPendingImages pending
  | entry :: rest, pending =>
    if entry.1.role = .tool then
      bridgeTool requested entry :: bridge rest (pending ++ lifted requested entry)
    else flushPendingImages pending ++ entry.1 :: bridge rest []

def liftToolImagesToUser (messages : List Message) : List Message :=
  if messages.any fun message => message.role = .tool ∧ message.images ≠ [] then
    bridge (ocrExplicitlyRequested messages) messages.zipIdx []
  else messages

/-! ## Runs of tool results -/

/-- A conversation with the images of each whole run of tool results behind the run, and nothing
else added or changed. -/
inductive Woven : List (Message × Nat) → List Message → Prop
  | nil : Woven [] []
  | other {entry rest out} (hrole : entry.1.role ≠ .tool) (hrest : Woven rest out) :
      Woven (entry :: rest) (entry.1 :: out)
  | run {tools rest out} (hne : tools ≠ []) (htools : ∀ entry ∈ tools, entry.1.role = .tool)
      (hwhole : ∀ entry ∈ rest.head?, entry.1.role ≠ .tool) (hrest : Woven rest out) :
      Woven (tools ++ rest) (tools.map (bridgeTool requested) ++
        (flushPendingImages (tools.flatMap (lifted requested)) ++ out))

variable {requested}

theorem bridge_woven (entries : List (Message × Nat)) :
    Woven requested entries (bridge requested entries []) ∧
      ∀ tools, tools ≠ [] → (∀ entry ∈ tools, entry.1.role = .tool) →
        Woven requested (tools ++ entries) (tools.map (bridgeTool requested) ++
          bridge requested entries (tools.flatMap (lifted requested))) := by
  induction entries with
  | nil =>
    refine ⟨.nil, ?_⟩
    intro tools hne htools
    simpa [bridge] using Woven.run hne htools (by simp) .nil
  | cons entry rest ih =>
    obtain ⟨hrest, hruns⟩ := ih
    by_cases hrole : entry.1.role = .tool
    · simp only [bridge, hrole, if_true, List.nil_append]
      constructor
      · simpa using hruns [entry] (by simp) (by simpa using hrole)
      · intro tools _ htools
        have hrun := hruns (tools ++ [entry]) (by simp) (by
          simp only [List.mem_append, List.mem_singleton]
          rintro e (he | rfl)
          · exact htools e he
          · exact hrole)
        simpa using hrun
    · have hother := Woven.other hrole hrest
      simp only [bridge, hrole, if_false]
      exact ⟨hother, fun tools hne htools => .run hne htools (by simpa using hrole) hother⟩

variable {entries : List (Message × Nat)}

/-- Without images of tool results the loop copies the messages. -/
theorem bridge_eq_map (h : ∀ entry ∈ entries, entry.1.role = .tool → entry.1.images = []) :
    bridge requested entries [] = entries.map Prod.fst := by
  induction entries with
  | nil => rfl
  | cons entry rest ih =>
    have hrest := ih fun e he => h e (List.mem_cons_of_mem entry he)
    by_cases hrole : entry.1.role = .tool
    · have himages := h entry List.mem_cons_self hrole
      simp [bridge, bridgeTool, lifted, hrole, himages, hrest]
    · simp [bridge, flushPendingImages, hrole, hrest]

theorem Woven.no_tool_images {out : List Message}
    (h : Woven requested entries out) : ∀ message ∈ out, message.role = .tool → message.images = [] := by
  induction h with
  | nil => exact nofun
  | other hrole _ ih =>
    exact List.forall_mem_cons.mpr ⟨fun htool => absurd htool hrole, ih⟩
  | @run tools _ _ _ _ _ _ ih =>
    simp only [List.mem_append, List.mem_map]
    rintro message (⟨entry, -, rfl⟩ | hflush | hout) htool
    · unfold bridgeTool
      split_ifs with himages
      · exact himages
      · rfl
    · unfold flushPendingImages at hflush
      split_ifs at hflush
      · cases hflush
      · cases List.mem_singleton.mp hflush
        cases htool
    · exact ih message hout htool

/-! ## Later calls -/

/-- The message calls `ocr_parse_file` on the path. -/
def CallsOcr (message : Message) (path : String) : Prop :=
  message.role = .ai ∧ path ≠ "" ∧ ⟨"ocr_parse_file", some path⟩ ∈ message.toolCalls

theorem noteOcrCalls_apply (latest : String → Option Nat) (index : Nat) (calls : List ToolCall)
    (path : String) : noteOcrCalls latest index calls path =
      if path ≠ "" ∧ ⟨"ocr_parse_file", some path⟩ ∈ calls then some index else latest path := by
  induction calls generalizing latest with
  | nil => simp [noteOcrCalls]
  | cons call calls ih =>
    obtain ⟨name, _ | other⟩ := call
    · simp [noteOcrCalls, ih]
    · simp only [noteOcrCalls]
      by_cases hcall : name = "ocr_parse_file" ∧ other ≠ ""
      · rw [if_pos hcall, ih, Function.update_apply]
        grind
      · rw [if_neg hcall, ih]
        grind

theorem latestOcrCallByPath_iff (messages : List Message) (path : String) (index : Nat) :
    (∃ call, latestOcrCallByPath messages.zipIdx path = some call ∧ index < call) ↔
      ∃ entry ∈ messages.zipIdx, CallsOcr entry.1 path ∧ index < entry.2 := by
  induction messages using List.reverseRecOn with
  | nil => simp [latestOcrCallByPath]
  | append_singleton messages message ih =>
    have hlt : ∀ entry ∈ messages.zipIdx, entry.2 < messages.length := by
      intro entry hentry
      simpa using List.snd_lt_of_mem_zipIdx hentry
    simp only [latestOcrCallByPath, List.zipIdx_append, List.foldl_append] at ih ⊢
    simp only [List.zipIdx_cons, List.zipIdx_nil, List.foldl_cons, List.foldl_nil,
      List.mem_append, List.mem_singleton, or_and_right, exists_or, exists_eq_left]
    by_cases hcalls : CallsOcr message path
    · obtain ⟨hrole, hcall⟩ := id hcalls
      rw [if_pos hrole, noteOcrCalls_apply, if_pos hcall]
      simp only [Option.some.injEq, exists_eq_left', hcalls, true_and, Nat.zero_add]
      refine ⟨.inr, ?_⟩
      rintro (⟨entry, hentry, -, hindex⟩ | hindex)
      · exact Nat.lt_trans hindex (hlt entry hentry)
      · exact hindex
    · have hkept : (if message.role = .ai then noteOcrCalls (latestOcrCallByPath messages.zipIdx)
          messages.length message.toolCalls else latestOcrCallByPath messages.zipIdx) path =
          latestOcrCallByPath messages.zipIdx path := by
        split_ifs with hrole
        · rw [noteOcrCalls_apply, if_neg fun hcall => hcalls ⟨hrole, hcall⟩]
        · rfl
      simp only [latestOcrCallByPath] at hkept
      simp only [Nat.zero_add, hkept, hcalls, false_and, or_false]
      exact ih

/-- A conversation keeps its messages, with the images of each whole run of tool results in one
user message behind it unless a later message calls OCR on the path; no tool result carries an
image, and lifting again changes nothing. -/
theorem liftToolImagesToUser_spec (messages : List Message) :
    Woven (ocrExplicitlyRequested messages) messages.zipIdx (liftToolImagesToUser messages) ∧
    (∀ message ∈ liftToolImagesToUser messages, message.role = .tool → message.images = []) ∧
    liftToolImagesToUser (liftToolImagesToUser messages) = liftToolImagesToUser messages ∧
    (∀ message index, ocrExplicitlyRequested messages message index = true ↔
      ∃ path, message.readFilePath = some path ∧
        ∃ later ∈ messages.zipIdx, CallsOcr later.1 path ∧ index < later.2) ∧
    ∀ entry, ∃ blocks, bridgeTool (ocrExplicitlyRequested messages) entry =
      { entry.1 with contentBlocks := blocks } := by
  have hwoven : Woven (ocrExplicitlyRequested messages) messages.zipIdx
      (liftToolImagesToUser messages) := by
    unfold liftToolImagesToUser
    split_ifs with himages
    · exact (bridge_woven messages.zipIdx).1
    · have hcopy : bridge (ocrExplicitlyRequested messages) messages.zipIdx [] = messages := by
        rw [bridge_eq_map, List.zipIdx_map_fst]
        intro entry hentry
        have := List.fst_mem_of_mem_zipIdx hentry
        simp_all
      have hbridge : Woven (ocrExplicitlyRequested messages) messages.zipIdx
          (bridge (ocrExplicitlyRequested messages) messages.zipIdx []) :=
        (bridge_woven messages.zipIdx).1
      rwa [hcopy] at hbridge
  refine ⟨hwoven, hwoven.no_tool_images, ?_, ?_, ?_⟩
  · rw [liftToolImagesToUser, if_neg]
    have := hwoven.no_tool_images
    simp_all
  · intro message index
    simp [ocrExplicitlyRequested, Option.any_eq_true, latestOcrCallByPath_iff]
  · intro entry
    unfold bridgeTool
    split_ifs
    · exact ⟨entry.1.contentBlocks, rfl⟩
    · exact ⟨_, rfl⟩

/-- Two calls with results that a system message separates. -/
def separatedResults : List Message :=
  [⟨.ai, some "m1", [], [⟨"read_file", none⟩, ⟨"read_file", none⟩], none, none⟩,
    ⟨.tool, some "m2", [⟨"image", none, "png"⟩], [], some "a", some "/a.png"⟩,
    ⟨.system, some "m3", [], [], none, none⟩, ⟨.tool, some "m4", [], [], some "b", none⟩]

/-- The inserted message stands between the calls and one of their results. -/
theorem liftToolImagesToUser_separates :
    (liftToolImagesToUser separatedResults).map Message.role = [.ai, .tool, .human, .system, .tool] := by
  decide +kernel

end Yuanlei.ModelInput
