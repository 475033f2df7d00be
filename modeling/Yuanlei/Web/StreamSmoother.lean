import Yuanlei.Lib.Transition
import Yuanlei.Web.MessageChunks

/-!
# Smoothing a stream

The page does not show text as it arrives: `useStreamSmoother` buffers it for every message and
emits it in small pieces, frame by frame.  A message that is buffered starts with a skeleton, a
chunk without text; chunks with tool calls go past the buffer after it has been emptied.  How much a
frame emits depends on the clock and is arbitrary here, and so is the cut into graphemes.

Main results:

- `step_smoothed`: what is stored, followed by what is buffered, is what has arrived.
- `smoothed_message_eq`: after `flushThread` the merged message is the one of the
  original chunks, with an empty text for missing reasoning, and before the content is a prefix of
  it.
- `frames_drain`: the frames alone empty a buffer, and then stop.
-/

namespace Yuanlei.WebClient

abbrev ThreadId := String
abbrev MessageId := String

/-- The parts of `Intl.Segmenter` on a text. -/
structure Segmenter where
  segments : JsString → List JsString
  flatten_segments : ∀ value, (segments value).flatten = value
  ne_nil : ∀ value, ∀ segment ∈ segments value, segment ≠ []

/-! ## The smoother -/

/-- The text that a message has buffered. -/
structure Controller where
  skeleton : MessageChunk
  contentBuffer : JsString
  reasoningBuffer : JsString

/-- The controllers and the chunks of the ongoing conversations. -/
structure Smoother where
  controllers : ThreadId → MessageId → Option Controller
  msgChunks : ThreadId → MessageId → List MessageChunk

def Smoother.initial : Smoother where
  controllers _ _ := none
  msgChunks _ _ := []

def stripBufferedFields (chunk : MessageChunk) : MessageChunk :=
  { chunk with content := some [], reasoningContent := some [] }

/-- `{...skeleton, ...stripped}` -/
def spread (skeleton stripped : MessageChunk) : MessageChunk where
  id := stripped.id
  type := stripped.type <|> skeleton.type
  runId := stripped.runId <|> skeleton.runId
  content := stripped.content <|> skeleton.content
  reasoningContent := stripped.reasoningContent <|> skeleton.reasoningContent
  toolCalls := stripped.toolCalls <|> skeleton.toolCalls
  toolCallChunks :=
    if stripped.toolCallChunks = [] then skeleton.toolCallChunks else stripped.toolCallChunks

/-- The end of the loop of `takeFromBuffer`, from an index on. -/
def takeSegments (count : Int) : Nat → List JsString → Nat
  | stop, [] => stop
  | stop, segment :: segments =>
    if (stop + segment.length : Int) > count ∧ 0 < stop then stop
    else if (stop + segment.length : Int) ≥ count then stop + segment.length
    else takeSegments count (stop + segment.length) segments

/-- `takeFromBuffer`: what is emitted, and the rest. -/
def takeFromBuffer (segmenter : Segmenter) (value : JsString) (count : Int) : JsString × JsString :=
  if value = [] ∨ count ≤ 0 then ([], value)
  else if count ≥ value.length then (value, [])
  else
    let stop := takeSegments count 0 (segmenter.segments value)
    (value.take stop, value.drop stop)

/-- A value of one message is replaced. -/
def setAt {α : Type} (f : ThreadId → MessageId → α) (threadId : ThreadId) (messageId : MessageId)
    (value : α) : ThreadId → MessageId → α :=
  fun t m => if t = threadId ∧ m = messageId then value else f t m

namespace Smoother

/-- `appendLoadingChunk` -/
def append (s : Smoother) (threadId : ThreadId) (chunk : MessageChunk) : Smoother :=
  { s with
    msgChunks := setAt s.msgChunks threadId chunk.id (s.msgChunks threadId chunk.id ++ [chunk]) }

def setController (s : Smoother) (threadId : ThreadId) (messageId : MessageId)
    (controller : Option Controller) : Smoother :=
  { s with controllers := setAt s.controllers threadId messageId controller }

end Smoother

/-- The chunk with a part of the buffered text. -/
def Controller.delta (c : Controller) (content reasoning : JsString) : MessageChunk :=
  { stripBufferedFields c.skeleton with
    content := some content
    reasoningContent := some reasoning }

/-- Nothing is buffered. -/
def Controller.drained (c : Controller) : Bool :=
  c.contentBuffer.isEmpty && c.reasoningBuffer.isEmpty

def flushMessage (s : Smoother) (threadId : ThreadId) (messageId : MessageId) : Smoother :=
  match s.controllers threadId messageId with
  | none => s
  | some c =>
    let s := if c.drained then s else s.append threadId (c.delta c.contentBuffer c.reasoningBuffer)
    s.setController threadId messageId none

/-- What a frame with a budget emits. -/
def emit (segmenter : Segmenter) (c : Controller) (budget : Nat) : Controller × MessageChunk :=
  let content := takeFromBuffer segmenter c.contentBuffer budget
  let reasoning := takeFromBuffer segmenter c.reasoningBuffer (budget - content.1.length)
  ({ c with contentBuffer := content.2, reasoningBuffer := reasoning.2 },
    c.delta content.1 reasoning.1)

/-- `tick` with the budget of the frame; without one the frame comes too early. -/
def tick (segmenter : Segmenter) (s : Smoother) (threadId : ThreadId) (messageId : MessageId)
    (budget : Option Nat) : Smoother :=
  match s.controllers threadId messageId with
  | none => s
  | some c =>
    let emitted :=
      match budget with
      | some (n + 1) => (s.append threadId (emit segmenter c (n + 1)).2,
          (emit segmenter c (n + 1)).1)
      | _ => (s, c)
    emitted.1.setController threadId messageId (if emitted.2.drained then none else some emitted.2)

/-- The controller takes the text of a chunk. -/
def Controller.push (c : Controller) (chunk : MessageChunk) : Controller :=
  { c with
    contentBuffer := c.contentBuffer ++ chunk.text
    reasoningBuffer := c.reasoningBuffer ++ chunk.reasoning }

def pushChunk (s : Smoother) (chunk : MessageChunk) (threadId : ThreadId) (reduceMotion : Bool) :
    Smoother :=
  if chunk.id = "" then s
  else if chunk.toolCallChunks ≠ [] ∨ reduceMotion then
    (flushMessage s threadId chunk.id).append threadId chunk
  else if chunk.text = [] ∧ chunk.reasoning = [] then s.append threadId chunk
  else
    match s.controllers threadId chunk.id with
    | none =>
      let c : Controller :=
        { skeleton := stripBufferedFields chunk, contentBuffer := [], reasoningBuffer := [] }
      (s.append threadId c.skeleton).setController threadId chunk.id (some (c.push chunk))
    | some c =>
      let c := { c with skeleton := spread c.skeleton (stripBufferedFields chunk) }
      s.setController threadId chunk.id (some (c.push chunk))

/-- `flushThread`: the messages of a thread do not share chunks. -/
def flushThread (s : Smoother) (threadId : ThreadId) : Smoother where
  controllers t m := if t = threadId then none else s.controllers t m
  msgChunks t m :=
    if t = threadId then (flushMessage s threadId m).msgChunks threadId m else s.msgChunks t m

/-! ## Runs -/

inductive SmootherAction where
  | pushChunk (chunk : MessageChunk) (threadId : ThreadId) (reduceMotion : Bool)
  | tick (threadId : ThreadId) (messageId : MessageId) (budget : Option Nat)
  | flushThread (threadId : ThreadId)

def smootherStep (segmenter : Segmenter) (s : Smoother) : SmootherAction → Smoother
  | .pushChunk chunk threadId reduceMotion => pushChunk s chunk threadId reduceMotion
  | .tick threadId messageId budget => tick segmenter s threadId messageId budget
  | .flushThread threadId => flushThread s threadId

/-- The chunk that an action brings for a message. -/
def SmootherAction.arrives (threadId : ThreadId) (messageId : MessageId) :
    SmootherAction → List MessageChunk
  | .pushChunk chunk t _ =>
    if t = threadId ∧ chunk.id = messageId ∧ chunk.id ≠ "" then [chunk] else []
  | _ => []

/-- The original chunks of a message in the order of their arrival. -/
def arrived (as : List SmootherAction) (threadId : ThreadId) (messageId : MessageId) :
    List MessageChunk :=
  as.flatMap (SmootherAction.arrives threadId messageId)

/-! ## One message -/

/-- The fields that a merged message has from its first chunk. -/
def MessageChunk.identity (chunk : MessageChunk) :
    String × Option String × Option String × Option (List ToolCall) :=
  (chunk.id, chunk.type, chunk.runId, chunk.toolCalls)

/-- What is buffered for a message. -/
def buffered (buffer : Controller → JsString) (controller : Option Controller) : JsString :=
  (controller.map buffer).getD []

/-- The stored chunks of a message and its buffer make up the chunks that have arrived. -/
structure Smoothed (messageId : MessageId) (stored arrived : List MessageChunk)
    (controller : Option Controller) : Prop where
  identity : stored.head?.map MessageChunk.identity = arrived.head?.map MessageChunk.identity
  content : arrived.flatMap MessageChunk.text =
    stored.flatMap MessageChunk.text ++ buffered Controller.contentBuffer controller
  reasoning : arrived.flatMap MessageChunk.reasoning =
    stored.flatMap MessageChunk.reasoning ++ buffered Controller.reasoningBuffer controller
  tools : arrived.flatMap MessageChunk.toolCallChunks = stored.flatMap MessageChunk.toolCallChunks
  skeleton : ∀ c ∈ controller, c.skeleton.id = messageId ∧ c.skeleton.toolCallChunks = []
  live : controller.isSome → stored ≠ []

namespace Smoothed

variable {messageId : MessageId} {stored arrived : List MessageChunk}
  {controller : Option Controller}

theorem initial : Smoothed messageId [] [] none where
  identity := rfl
  content := rfl
  reasoning := rfl
  tools := rfl
  skeleton := nofun
  live := nofun

variable {chunk : MessageChunk}

/-- Chunks with one identity are added behind lists whose first chunks have one identity. -/
theorem head_append (h : Smoothed messageId stored arrived controller) {chunk' : MessageChunk}
    (hchunk : chunk.identity = chunk'.identity) :
    (stored ++ [chunk]).head?.map MessageChunk.identity =
      (arrived ++ [chunk']).head?.map MessageChunk.identity := by
  have hidentity := h.identity
  cases stored with
  | nil =>
    cases arrived with
    | nil => simp [hchunk]
    | cons first later => simp at hidentity
  | cons first later =>
    cases arrived with
    | nil => simp at hidentity
    | cons first' later' => simpa using hidentity

/-- A chunk goes past an empty buffer. -/
theorem pass (h : Smoothed messageId stored arrived none) (chunk : MessageChunk) :
    Smoothed messageId (stored ++ [chunk]) (arrived ++ [chunk]) none where
  identity := h.head_append rfl
  content := by simp [h.content, buffered]
  reasoning := by simp [h.reasoning, buffered]
  tools := by simp [h.tools]
  skeleton := nofun
  live := nofun

theorem passEmpty (h : Smoothed messageId stored arrived controller) (htext : chunk.text = [])
    (hreasoning : chunk.reasoning = [])
    (htools : chunk.toolCallChunks = []) :
    Smoothed messageId (stored ++ [chunk]) (arrived ++ [chunk]) controller where
  identity := h.head_append rfl
  content := by simp [h.content, htext]
  reasoning := by simp [h.reasoning, hreasoning]
  tools := by simp [h.tools, htools]
  skeleton := h.skeleton
  live := by simp

theorem start (h : Smoothed messageId stored arrived none) (hid : chunk.id = messageId)
    (htools : chunk.toolCallChunks = []) :
    Smoothed messageId (stored ++ [stripBufferedFields chunk]) (arrived ++ [chunk]) (some
        { skeleton := stripBufferedFields chunk
          contentBuffer := chunk.text
          reasoningBuffer := chunk.reasoning }) where
  identity := h.head_append rfl
  content := by
    simp [h.content, buffered, stripBufferedFields, MessageChunk.text]
  reasoning := by
    simp [h.reasoning, buffered, stripBufferedFields, MessageChunk.reasoning]
  tools := by simp [h.tools, stripBufferedFields]
  skeleton := by
    intro c hc
    cases hc
    exact ⟨hid, htools⟩
  live := by simp

variable {c : Controller}

section

variable (h : Smoothed messageId stored arrived (some c))
include h

/-- A chunk with text goes behind the buffer. -/
theorem push
    (hid : chunk.id = messageId) (htools : chunk.toolCallChunks = []) :
    Smoothed messageId stored (arrived ++ [chunk]) (some
        { skeleton := spread c.skeleton (stripBufferedFields chunk)
          contentBuffer := c.contentBuffer ++ chunk.text
          reasoningBuffer := c.reasoningBuffer ++ chunk.reasoning }) where
  identity := by
    rw [h.identity]
    have hne : arrived ≠ [] := by
      intro hnil
      have hidentity := h.identity
      rw [hnil] at hidentity
      exact h.live rfl (by simpa using hidentity)
    rw [List.head?_append_of_ne_nil _ hne]
  content := by simp [h.content, buffered]
  reasoning := by simp [h.reasoning, buffered]
  tools := by simp [h.tools, htools]
  skeleton := by
    intro c' hc'
    cases hc'
    refine ⟨hid, ?_⟩
    simp [spread, stripBufferedFields, htools, (h.skeleton c rfl).2]
  live := fun _ => h.live rfl

/-- A part of the buffered text is emitted. -/
theorem emitDelta {c' : Controller}
    {content reasoning : JsString} (hskeleton : c'.skeleton = c.skeleton)
    (hcontent : content ++ c'.contentBuffer = c.contentBuffer)
    (hreasoning : reasoning ++ c'.reasoningBuffer = c.reasoningBuffer) :
    Smoothed messageId (stored ++ [c.delta content reasoning]) arrived (some c') where
  identity := by
    rw [List.head?_append_of_ne_nil _ (h.live rfl)]
    exact h.identity
  content := by
    simp [h.content, buffered, Controller.delta, MessageChunk.text, ← hcontent]
  reasoning := by
    simp [h.reasoning, buffered, Controller.delta, MessageChunk.reasoning, ← hreasoning]
  tools := by
    simp [h.tools, Controller.delta, stripBufferedFields, (h.skeleton c rfl).2]
  skeleton := by
    intro c'' hc''
    cases hc''
    rw [hskeleton]
    exact h.skeleton c rfl
  live := by simp

/-- An empty buffer can be dropped. -/
theorem drop (hdrained : c.drained) : Smoothed messageId stored arrived none := by
  simp only [Controller.drained, Bool.and_eq_true, List.isEmpty_iff] at hdrained
  refine ⟨h.identity, ?_, ?_, h.tools, nofun, nofun⟩
  · simpa [buffered, hdrained.1] using h.content
  · simpa [buffered, hdrained.2] using h.reasoning

end

end Smoothed

/-! ## All messages -/

variable {α : Type}

@[simp]
theorem setAt_same (f : ThreadId → MessageId → α) (t : ThreadId) (m : MessageId)
    (value : α) : setAt f t m value t m = value := by
  simp [setAt]

variable {t : ThreadId} {m : MessageId}

theorem setAt_other (f : ThreadId → MessageId → α) {t' : ThreadId} {m' : MessageId}
    (value : α) (h : ¬ (t' = t ∧ m' = m)) : setAt f t m value t' m' = f t' m' := by
  simp [setAt, h]

/-- Every message is smoothed, with respect to the chunks that have arrived for it. -/
def SmootherInv (s : Smoother) (acc : ThreadId → MessageId → List MessageChunk) : Prop :=
  ∀ t m, Smoothed m (s.msgChunks t m) (acc t m) (s.controllers t m)

/-- The other messages are left alone. -/
def Untouched (s s' : Smoother) (t : ThreadId) (m : MessageId) : Prop :=
  ∀ t' m', ¬ (t' = t ∧ m' = m) →
    s'.msgChunks t' m' = s.msgChunks t' m' ∧ s'.controllers t' m' = s.controllers t' m'

theorem untouched_append (s : Smoother) (t : ThreadId) (chunk : MessageChunk) :
    Untouched s (s.append t chunk) t chunk.id := by
  intro t' m' h
  exact ⟨setAt_other _ _ h, rfl⟩

theorem untouched_setController (s : Smoother) (t : ThreadId) (m : MessageId)
    (controller : Option Controller) : Untouched s (s.setController t m controller) t m := by
  intro t' m' h
  exact ⟨rfl, setAt_other _ _ h⟩

theorem Untouched.refl (s : Smoother) (t : ThreadId) (m : MessageId) : Untouched s s t m :=
  fun _ _ _ => ⟨rfl, rfl⟩

variable {s : Smoother}

variable {s' : Smoother}

theorem Untouched.trans {s'' : Smoother} (h : Untouched s s' t m) (h' : Untouched s' s'' t m) : Untouched s s'' t m := by
  intro t' m' hother
  obtain ⟨hchunks, hcontrollers⟩ := h t' m' hother
  obtain ⟨hchunks', hcontrollers'⟩ := h' t' m' hother
  exact ⟨hchunks'.trans hchunks, hcontrollers'.trans hcontrollers⟩

/-- A step on one message keeps the invariant if it keeps it for that message. -/
theorem SmootherInv.of_untouched {acc : ThreadId → MessageId → List MessageChunk}
    {chunks : List MessageChunk} (h : SmootherInv s acc)
    (hother : Untouched s s' t m)
    (hsame : Smoothed m (s'.msgChunks t m) (acc t m ++ chunks) (s'.controllers t m)) :
    SmootherInv s' fun t' m' => acc t' m' ++ if t' = t ∧ m' = m then chunks else [] := by
  intro t' m'
  by_cases heq : t' = t ∧ m' = m
  · obtain ⟨rfl, rfl⟩ := heq
    simpa using hsame
  · obtain ⟨hchunks, hcontrollers⟩ := hother t' m' heq
    simp only [hchunks, hcontrollers, if_neg heq, List.append_nil]
    exact h t' m'

variable {acc : List MessageChunk}

theorem flushMessage_smoothed (h : Smoothed m (s.msgChunks t m) acc (s.controllers t m)) :
    Smoothed m ((flushMessage s t m).msgChunks t m) acc none ∧
      (flushMessage s t m).controllers t m = none ∧ Untouched s (flushMessage s t m) t m := by
  unfold flushMessage
  cases hcontroller : s.controllers t m with
  | none =>
    rw [hcontroller] at h
    exact ⟨h, hcontroller, .refl s t m⟩
  | some c =>
    rw [hcontroller] at h
    have hid : (c.delta c.contentBuffer c.reasoningBuffer).id = m := (h.skeleton c rfl).1
    simp only
    split
    · next hdrained =>
        exact ⟨h.drop hdrained, setAt_same _ _ _ _, untouched_setController s t m none⟩
    · refine ⟨?_, setAt_same _ _ _ _, ?_⟩
      · have hemit : Smoothed m (s.msgChunks t m ++ [c.delta c.contentBuffer c.reasoningBuffer]) acc
            (some { c with contentBuffer := [], reasoningBuffer := [] }) :=
          h.emitDelta rfl (List.append_nil _) (List.append_nil _)
        simpa [Smoother.append, Smoother.setController, hid] using hemit.drop rfl
      · have happend := untouched_append s t (c.delta c.contentBuffer c.reasoningBuffer)
        rw [hid] at happend
        exact happend.trans (untouched_setController _ t m none)

variable (segmenter : Segmenter)

theorem takeFromBuffer_append (value : JsString) (count : Int) :
    (takeFromBuffer segmenter value count).1 ++ (takeFromBuffer segmenter value count).2 =
      value := by
  unfold takeFromBuffer
  split_ifs
  · exact List.nil_append _
  · exact List.append_nil _
  · exact List.take_append_drop _ _

variable {stored : List MessageChunk}

/-- The controller after a frame is dropped once its buffer is empty. -/
theorem Smoothed.settle {arrived : List MessageChunk} {c : Controller}
    (h : Smoothed m stored arrived (some c)) :
    Smoothed m stored arrived (if c.drained then none else some c) := by
  split
  · next hdrained => exact h.drop hdrained
  · exact h

theorem tick_smoothed (h : Smoothed m (s.msgChunks t m) acc (s.controllers t m))
    (budget : Option Nat) :
    Smoothed m ((tick segmenter s t m budget).msgChunks t m) acc
        ((tick segmenter s t m budget).controllers t m) ∧
      Untouched s (tick segmenter s t m budget) t m := by
  unfold tick
  cases hcontroller : s.controllers t m with
  | none =>
    simp only
    exact ⟨h, .refl s t m⟩
  | some c =>
    rw [hcontroller] at h
    match budget with
    | none | some 0 =>
      simp only [Smoother.setController, setAt_same]
      exact ⟨h.settle, untouched_setController s t m _⟩
    | some (n + 1) =>
      have hid : (emit segmenter c (n + 1)).2.id = m := (h.skeleton c rfl).1
      have hemit : Smoothed m (s.msgChunks t m ++ [(emit segmenter c (n + 1)).2]) acc
          (some (emit segmenter c (n + 1)).1) :=
        h.emitDelta rfl (takeFromBuffer_append segmenter _ _) (takeFromBuffer_append segmenter _ _)
      have happend := untouched_append s t (emit segmenter c (n + 1)).2
      rw [hid] at happend
      refine ⟨?_, happend.trans (untouched_setController _ t m _)⟩
      simpa [Smoother.append, Smoother.setController, hid] using hemit.settle

theorem pushChunk_smoothed {chunk : MessageChunk} (hne : chunk.id ≠ "")
    (h : Smoothed chunk.id (s.msgChunks t chunk.id) acc (s.controllers t chunk.id))
    (reduceMotion : Bool) :
    Smoothed chunk.id ((pushChunk s chunk t reduceMotion).msgChunks t chunk.id) (acc ++ [chunk])
        ((pushChunk s chunk t reduceMotion).controllers t chunk.id) ∧
      Untouched s (pushChunk s chunk t reduceMotion) t chunk.id := by
  unfold pushChunk
  rw [if_neg hne]
  split
  · -- the buffer is emptied first
    obtain ⟨hflush, hnone, hother⟩ := flushMessage_smoothed h
    refine ⟨?_, hother.trans (untouched_append _ t chunk)⟩
    simpa [Smoother.append, hnone] using hflush.pass chunk
  · next hpast =>
      have htools : chunk.toolCallChunks = [] := by
        by_contra hchunks
        exact hpast (.inl hchunks)
      split
      · next hempty =>
          refine ⟨?_, untouched_append s t chunk⟩
          simpa [Smoother.append] using h.passEmpty hempty.1 hempty.2 htools
      · cases hcontroller : s.controllers t chunk.id with
        | none =>
          rw [hcontroller] at h
          refine ⟨?_, (untouched_append s t (stripBufferedFields chunk)).trans
            (untouched_setController _ t chunk.id _)⟩
          simpa [Smoother.append, Smoother.setController, stripBufferedFields, Controller.push]
            using h.start rfl htools
        | some c =>
          rw [hcontroller] at h
          refine ⟨?_, untouched_setController s t chunk.id _⟩
          simpa [Smoother.setController, Controller.push] using h.push rfl htools

theorem flushThread_inv {acc : ThreadId → MessageId → List MessageChunk}
    (h : SmootherInv s acc) (t : ThreadId) : SmootherInv (flushThread s t) acc := by
  intro t' m'
  by_cases ht : t' = t
  · subst ht
    simpa [flushThread] using (flushMessage_smoothed (h t' m')).1
  · simpa [flushThread, ht] using h t' m'

/-- What is stored, followed by what is buffered, is what has arrived. -/
theorem step_smoothed {acc : ThreadId → MessageId → List MessageChunk} (h : SmootherInv s acc)
    (a : SmootherAction) :
    SmootherInv (smootherStep segmenter s a) fun t m => acc t m ++ a.arrives t m := by
  cases a with
  | pushChunk chunk t reduceMotion =>
    by_cases hne : chunk.id = ""
    · have hsame : pushChunk s chunk t reduceMotion = s := by
        rw [pushChunk, if_pos hne]
      simp only [smootherStep, hsame, SmootherAction.arrives, hne, ne_eq, not_true_eq_false,
        and_false, if_false, List.append_nil]
      exact h
    · obtain ⟨hsame, hother⟩ := pushChunk_smoothed hne (h t chunk.id) reduceMotion
      have hinv := h.of_untouched hother hsame
      intro t' m'
      simpa [smootherStep, SmootherAction.arrives, hne, eq_comm] using hinv t' m'
  | tick t m budget =>
    obtain ⟨hsame, hother⟩ := tick_smoothed segmenter (h t m) budget
    rw [← List.append_nil (acc t m)] at hsame
    have hinv := h.of_untouched hother hsame
    intro t' m'
    simpa [smootherStep, SmootherAction.arrives] using hinv t' m'
  | flushThread t =>
    simp only [smootherStep, SmootherAction.arrives, List.append_nil]
    exact flushThread_inv h t

/-- The invariant along a run. -/
theorem exec_smoothed (as : List SmootherAction) : ∀ {s : Smoother}
    {acc : ThreadId → MessageId → List MessageChunk}, SmootherInv s acc →
      SmootherInv (Transition.exec (smootherStep segmenter) s as) fun t m =>
        acc t m ++ arrived as t m := by
  induction as with
  | nil =>
    intro s acc h
    simpa [arrived] using h
  | cons a as ih =>
    intro s acc h
    have hrest := ih (step_smoothed segmenter h a)
    simpa [arrived, List.append_assoc] using hrest

/-! ## Merged messages -/

/-- The messages agree, where missing reasoning counts as an empty text. -/
def SameMessage (m m' : Message) : Prop :=
  m.id = m'.id ∧ m.type = m'.type ∧ m.runId = m'.runId ∧ m.content = m'.content ∧
    m.reasoningContent.getD [] = m'.reasoningContent.getD [] ∧ m.toolCalls = m'.toolCalls

theorem Smoothed.merge {arrived : List MessageChunk}
    {controller : Option Controller} (h : Smoothed m stored arrived controller) :
    (mergeMessageChunk stored = none ∧ mergeMessageChunk arrived = none) ∨
      ∃ message original, mergeMessageChunk stored = some message ∧
        mergeMessageChunk arrived = some original ∧ message.content <+: original.content ∧
        (controller = none → SameMessage message original) := by
  have hidentity := h.identity
  cases stored with
  | nil =>
    cases arrived with
    | nil => exact .inl ⟨rfl, rfl⟩
    | cons first later => simp at hidentity
  | cons chunk chunks =>
    cases arrived with
    | nil => simp at hidentity
    | cons chunk' chunks' =>
      simp only [List.head?_cons, Option.map_some, Option.some.injEq, MessageChunk.identity,
        Prod.mk.injEq] at hidentity
      obtain ⟨hid, htype, hrunId, hcalls⟩ := hidentity
      obtain ⟨reasoning, hmerge, hreasoning⟩ := mergeMessageChunk_eq chunk chunks
      obtain ⟨reasoning', hmerge', hreasoning'⟩ := mergeMessageChunk_eq chunk' chunks'
      refine .inr ⟨_, _, hmerge, hmerge', ?_, ?_⟩
      · exact ⟨_, h.content.symm⟩
      · intro hnone
        subst hnone
        refine ⟨hid, by rw [htype], hrunId, ?_, ?_, ?_⟩
        · simpa [buffered] using h.content.symm
        · rw [hreasoning, hreasoning']
          simpa [buffered] using h.reasoning.symm
        · rw [hcalls, h.tools]

/-- After `flushThread` the merged message is the one of the original chunks, and at every
moment its content is a prefix of what has arrived. -/
theorem smoothed_message_eq (segmenter : Segmenter) (as : List SmootherAction)
    (threadId : ThreadId) (messageId : MessageId) :
    let s := Transition.exec (smootherStep segmenter) Smoother.initial as
    let original := mergeMessageChunk (arrived as threadId messageId)
    Option.Rel (fun m m' => m.content <+: m'.content)
        (mergeMessageChunk (s.msgChunks threadId messageId)) original ∧
      Option.Rel SameMessage
        (mergeMessageChunk ((flushThread s threadId).msgChunks threadId messageId)) original := by
  intro s original
  have hinitial : SmootherInv Smoother.initial fun _ _ => [] := fun _ _ => .initial
  have hinv : SmootherInv s (arrived as) := by
    simpa using exec_smoothed segmenter as hinitial
  constructor
  · rcases (hinv threadId messageId).merge with ⟨hstored, harrived⟩ |
      ⟨message, original', hstored, harrived, hcontent, -⟩
    · rw [hstored, show original = none from harrived]
      exact .none
    · rw [hstored, show original = some original' from harrived]
      exact .some hcontent
  · have hflushed := flushThread_inv hinv threadId threadId messageId
    have hnone : (flushThread s threadId).controllers threadId messageId = none := by
      simp [flushThread]
    rcases hflushed.merge with ⟨hstored, harrived⟩ |
      ⟨message, original', hstored, harrived, -, hsame⟩
    · rw [hstored, show original = none from harrived]
      exact .none
    · rw [hstored, show original = some original' from harrived]
      exact .some (hsame hnone)

/-! ## Frames -/

/-- The number of characters that a message has buffered. -/
def pendingLength (controller : Option Controller) : Nat :=
  (buffered Controller.contentBuffer controller).length +
    (buffered Controller.reasoningBuffer controller).length

theorem le_takeSegments (count : Int) (segments : List JsString) (stop : Nat) :
    stop ≤ takeSegments count stop segments := by
  induction segments generalizing stop with
  | nil => exact Nat.le_refl _
  | cons segment segments ih =>
    rw [takeSegments]
    split_ifs
    · exact Nat.le_refl _
    · exact Nat.le_add_right _ _
    · exact Nat.le_trans (Nat.le_add_right _ _) (ih _)

/-- A frame with a budget takes a character of a buffer that has one: the first segment is taken
even if it is longer than the budget. -/
theorem takeFromBuffer_length_lt {value : JsString} {count : Int} (hvalue : value ≠ [])
    (hcount : 0 < count) : (takeFromBuffer segmenter value count).2.length < value.length := by
  have hpos := List.length_pos_of_ne_nil hvalue
  unfold takeFromBuffer
  rw [if_neg (by simp [hvalue, hcount])]
  split_ifs
  · exact hpos
  · have hstop : 0 < takeSegments count 0 (segmenter.segments value) := by
      cases hsegments : segmenter.segments value with
      | nil =>
        have hflatten := segmenter.flatten_segments value
        rw [hsegments] at hflatten
        exact absurd hflatten.symm hvalue
      | cons segment segments =>
        have hsegment := List.length_pos_of_ne_nil
          (segmenter.ne_nil value segment (by simp [hsegments]))
        rw [takeSegments, if_neg (by simp)]
        split_ifs
        · omega
        · exact Nat.lt_of_lt_of_le (by omega) (le_takeSegments _ _ _)
    simp only [List.length_drop]
    omega

theorem takeFromBuffer_length_le (value : JsString) (count : Int) :
    (takeFromBuffer segmenter value count).2.length ≤ value.length := by
  have hlength := congrArg List.length (takeFromBuffer_append segmenter value count)
  rw [List.length_append] at hlength
  omega

/-- A frame with a budget leaves a message with less in its buffer, or with nothing. -/
theorem tick_pendingLength (s : Smoother) (t : ThreadId) (m : MessageId) (n : Nat) :
    pendingLength ((tick segmenter s t m (some (n + 1))).controllers t m) ≤
        pendingLength (s.controllers t m) - 1 ∧
      (pendingLength ((tick segmenter s t m (some (n + 1))).controllers t m) = 0 →
        (tick segmenter s t m (some (n + 1))).controllers t m = none) := by
  unfold tick
  cases hcontroller : s.controllers t m with
  | none => simp [hcontroller, pendingLength, buffered]
  | some c =>
    simp only [Smoother.setController, setAt_same]
    have hless : (emit segmenter c (n + 1)).1.contentBuffer.length +
        (emit segmenter c (n + 1)).1.reasoningBuffer.length ≤
        c.contentBuffer.length + c.reasoningBuffer.length - 1 := by
      have hbudget : (0 : Int) < ((n + 1 : Nat) : Int) := by omega
      simp only [emit]
      by_cases hcontent : c.contentBuffer = []
      · by_cases hreasoning : c.reasoningBuffer = []
        · simp [hcontent, hreasoning, takeFromBuffer]
        · have hlt := takeFromBuffer_length_lt segmenter hreasoning hbudget
          have hnil : takeFromBuffer segmenter [] ((n + 1 : Nat) : Int) = ([], []) := by
            simp [takeFromBuffer]
          rw [hcontent, hnil]
          simp only [List.length_nil, Int.ofNat_zero, Int.sub_zero, Nat.zero_add]
          omega
      · have hlt := takeFromBuffer_length_lt segmenter hcontent hbudget
        have hle := takeFromBuffer_length_le segmenter c.reasoningBuffer
          (((n + 1 : Nat) : Int) - (takeFromBuffer segmenter c.contentBuffer (n + 1 : Nat)).1.length)
        omega
    split_ifs with hdrained
    · simp [pendingLength, buffered]
    · refine ⟨by simpa [pendingLength, buffered] using hless, fun hzero => ?_⟩
      simp [pendingLength, buffered] at hzero
      simp [Controller.drained, hzero] at hdrained

theorem frames_of_none (h : s.controllers t m = none) (budgets : List Nat) :
    Transition.exec (smootherStep segmenter) s
      (budgets.map fun n => .tick t m (some (n + 1))) = s := by
  induction budgets with
  | nil => rfl
  | cons n budgets ih =>
    have hstay : smootherStep segmenter s (.tick t m (some (n + 1))) = s := by
      simp [smootherStep, tick, h]
    rw [List.map_cons, Transition.exec_cons, hstay, ih]

/-- Whatever has happened before, a message is emitted completely by more frames with a budget
than it has characters in its buffer, and what is stored then is what has arrived. -/
theorem frames_drain (segmenter : Segmenter) (as : List SmootherAction) (t : ThreadId)
    (m : MessageId) (budgets : List Nat) (hbudgets : pendingLength
      ((Transition.exec (smootherStep segmenter) Smoother.initial as).controllers t m) <
        budgets.length) :
    let s := Transition.exec (smootherStep segmenter) Smoother.initial
      (as ++ budgets.map fun n => .tick t m (some (n + 1)))
    s.controllers t m = none ∧
      (s.msgChunks t m).flatMap MessageChunk.text = (arrived as t m).flatMap MessageChunk.text ∧
      (s.msgChunks t m).flatMap MessageChunk.reasoning =
        (arrived as t m).flatMap MessageChunk.reasoning := by
  intro s
  have hnone : s.controllers t m = none := by
    simp only [s, Transition.exec_append]
    clear s
    generalize Transition.exec (smootherStep segmenter) Smoother.initial as = s at hbudgets
    induction budgets generalizing s with
    | nil => cases hbudgets
    | cons n budgets ih =>
      obtain ⟨hless, hdone⟩ := tick_pendingLength segmenter s t m n
      rw [List.map_cons, Transition.exec_cons, smootherStep]
      rw [List.length_cons] at hbudgets
      by_cases hzero : pendingLength
          ((tick segmenter s t m (some (n + 1))).controllers t m) = 0
      · rw [frames_of_none segmenter (hdone hzero)]
        exact hdone hzero
      · exact ih _ (by omega)
  have hinv : SmootherInv s (arrived (as ++ budgets.map fun n => .tick t m (some (n + 1)))) := by
    have hinitial : SmootherInv Smoother.initial fun _ _ => [] := fun _ _ => .initial
    simpa using exec_smoothed segmenter _ hinitial
  have harrived : arrived (as ++ budgets.map fun n => .tick t m (some (n + 1))) t m =
      arrived as t m := by
    simp [arrived, List.flatMap_append, List.flatMap_map, SmootherAction.arrives]
  have hsmoothed := hinv t m
  rw [hnone, harrived] at hsmoothed
  exact ⟨hnone, by simpa [buffered] using hsmoothed.content.symm,
    by simpa [buffered] using hsmoothed.reasoning.symm⟩

/-! ## A message without reasoning -/

/-- A chunk of the stream, which has the field `reasoning_content` only if it is not empty. -/
def plainChunk : MessageChunk where
  id := "m"
  type := some "AIMessageChunk"
  runId := some "run"
  content := some [104, 105]
  reasoningContent := none
  toolCalls := none
  toolCallChunks := []

def wholeText : Segmenter where
  segments value := if value = [] then [] else [value]
  flatten_segments value := by
    split
    · next h => rw [h]; rfl
    · simp
  ne_nil value segment h := by
    split at h
    · cases h
    · next hne => exact List.mem_singleton.mp h ▸ hne

theorem frames_drain_plainChunk : ((Transition.exec (smootherStep wholeText) Smoother.initial
    ([.pushChunk plainChunk "a" false] ++ [0, 4, 1].map fun n => .tick "a" "m" (some (n + 1)))
      ).controllers "a" "m") = none :=
  (frames_drain wholeText [.pushChunk plainChunk "a" false] "a" "m" [0, 4, 1] (by decide)).1

/-- A message without reasoning gets an empty one. -/
theorem reasoning_becomes_empty :
    ¬ ∀ (segmenter : Segmenter) (as : List SmootherAction) (threadId : ThreadId)
      (messageId : MessageId),
      let s := Transition.exec (smootherStep segmenter) Smoother.initial as
      mergeMessageChunk ((flushThread s threadId).msgChunks threadId messageId) =
        mergeMessageChunk (arrived as threadId messageId) := by
  intro h
  exact absurd (h wholeText [.pushChunk plainChunk "a" false] "a" "m") (by decide)

end Yuanlei.WebClient
