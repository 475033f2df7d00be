import Yuanlei.Lib.RowSession
import Yuanlei.Lib.Transition
import Yuanlei.Storage.Business

/-!
# Transactions on the attachments of a conversation

The attachments of a conversation are a list in the JSON column `extra_metadata`.  Confirming,
referencing and deleting attachments, submitting a request with attachments, and updating the
metadata each load the conversation and write the whole column back.  All of them but the last
lock the row before; only a submitted request replaces the attributes it has loaded by those of
the locked row.

Next to the row the state records what the transactions committed.

Main definitions:

- `Job.run`: what a request handler does with the value it has loaded.
- `step`: one step of one of the handlers.
-/

namespace Yuanlei

namespace Attachments

open RowSession

/-! ## The column -/

/-- What `confirm_tmp_thread_attachments_view` and `reference_attachments_view` record;
`fields` are the fields that no operation on the list reads. -/
structure AttachmentRecord where
  fileId : String
  source : Option String
  fields : JsonObject
deriving DecidableEq

/-- An item of the list. -/
structure Attachment where
  record : AttachmentRecord
  requestId : Option String
deriving DecidableEq

def Attachment.fileId (item : Attachment) : String :=
  item.record.fileId

/-- The value of `extra_metadata`.  Every item of the stored list is an object, so
`_ensure_metadata` copies it. -/
structure Metadata where
  attachments : List Attachment
  others : JsonObject
deriving DecidableEq

def setModelSpec (metadata : Metadata) (modelSpec : String) : Metadata :=
  { metadata with
    others := ("model_spec", modelSpec) :: metadata.others.filter (·.1 ≠ "model_spec") }

def addAttachments (metadata : Metadata) (attachmentInfos : List AttachmentRecord) : Metadata :=
  let incomingIds := attachmentInfos.map AttachmentRecord.fileId
  { metadata with
    attachments := metadata.attachments.filter (fun item => !incomingIds.contains item.fileId) ++
      attachmentInfos.map fun record => { record := record, requestId := none } }

/-- `remove_attachment`; `none` where it returns `False`. -/
def removeAttachment (metadata : Metadata) (fileId : String) : Option Metadata :=
  let newAttachments := metadata.attachments.filter (·.fileId ≠ fileId)
  if newAttachments.length = metadata.attachments.length then none
  else some { metadata with attachments := newAttachments }

/-- The item has no request yet. -/
def Attachment.unbound (item : Attachment) : Bool :=
  item.requestId.all (· == "")

/-- The loop body of `bind_attachments_to_request`. -/
def bindItem (requestId : String) (fileIds : List String) (item : Attachment) : Attachment :=
  if fileIds.contains item.fileId && item.unbound then { item with requestId := some requestId }
  else item

/-- `bind_attachments_to_request`: the value to save, if it changed, and the attachments of
the request. -/
def bindAttachmentsToRequest (metadata : Metadata) (requestId : String) (fileIds : List String) :
    Option Metadata × List Attachment :=
  let fileIdSet := (fileIds.map PyText.strip).filter (· ≠ "")
  if requestId = "" ∨ fileIdSet = [] then (none, [])
  else
    let attachments := metadata.attachments.map (bindItem requestId fileIdSet)
    let changed := metadata.attachments.any fun item =>
      fileIdSet.contains item.fileId && item.unbound
    (if changed then some { metadata with attachments := attachments } else none,
      attachments.filter (·.requestId == some requestId))

/-- `_normalize_attachment_file_ids`, on the texts of the items. -/
def normalizeAttachmentFileIds (value : List String) : List String :=
  value.foldl (fun normalized fileId =>
    let current := PyText.strip fileId
    if current ≠ "" ∧ current ∉ normalized then normalized ++ [current] else normalized) []

/-! ## The handlers -/

/-- What a request handler was called with. -/
inductive Job where
  /-- `confirm_tmp_thread_attachments_view` or `reference_attachments_view`. -/
  | add (records : List AttachmentRecord)
  /-- `delete_thread_attachment_view`. -/
  | delete (fileId : String)
  /-- `submit_agent_request`. -/
  | submit (requestId : String) (attachmentFileIds : List String)
  /-- `update_thread_view`. -/
  | update (metadata : JsonObject)
deriving DecidableEq

/-- What a handler finds in other tables. -/
structure Checks where
  /-- The request with this id is still queued. -/
  requestQueued : String → Bool
  /-- The conversation has an active run. -/
  activeRun : Bool
  /-- A request with the queue policy `reject` cannot be dispatched. -/
  rejected : Bool
  /-- The model that `set_model_spec` stores. -/
  modelSpec : Option String

/-- A change of the list that was committed. -/
inductive Change where
  | added (records : List AttachmentRecord)
  | removed (fileId : String)
  | bound (requestId : String) (fileIds : List String)
deriving DecidableEq

/-- What a transaction writes and the change it makes. -/
abbrev Outcome := Option Metadata × Option Change

/-- `delete_thread_attachment_view` after the lock. -/
def deleteAttachment (metadata : Metadata) (fileId : String) (checks : Checks) :
    Except String Outcome :=
  match metadata.attachments.find? (·.fileId == fileId) with
  | none => .error "附件不存在或已被删除"
  | some target =>
    if target.requestId.any fun r => r != "" && checks.requestQueued r then
      .error "附件正在被请求使用，暂时不能删除"
    else if checks.activeRun then .error "对话正在运行，暂时不能删除附件"
    else
      match removeAttachment metadata fileId with
      | none => .error "附件不存在或已被删除"
      | some metadata' => .ok (some metadata', some (.removed fileId))

/-- The value that a submitted request leaves after `set_model_spec`. -/
def saveModelSpec (metadata : Metadata) (saved : Option Metadata) (modelSpec : Option String) :
    Option Metadata :=
  match modelSpec with
  | none => saved
  | some modelSpec => some (setModelSpec (saved.getD metadata) modelSpec)

/-- `_persist_request` after the lock. -/
def persistRequest (metadata : Metadata) (requestId : String) (fileIds : List String)
    (checks : Checks) : Except String Outcome :=
  let attachmentFileIds := normalizeAttachmentFileIds fileIds
  if checks.rejected then .ok (none, none)
  else if attachmentFileIds = [] then
    .ok (saveModelSpec metadata none checks.modelSpec, none)
  else
    let (saved, boundAttachments) := bindAttachmentsToRequest metadata requestId attachmentFileIds
    let missingIds := attachmentFileIds.filter
      (fun fileId => !(boundAttachments.map Attachment.fileId).contains fileId)
    if missingIds ≠ [] then
      .error ("附件不存在、已被使用或已被删除: " ++ ", ".intercalate missingIds)
    else
      .ok (saveModelSpec metadata saved checks.modelSpec, some (.bound requestId attachmentFileIds))

/-- `update_conversation`; an equal value is not written. -/
def updateConversation (metadata : Metadata) (changes : JsonObject) : Option Metadata :=
  if changes.all fun e => metadata.others.lookup e.1 == changes.lookup e.1 then none
  else
    some { metadata with
      others := changes ++ metadata.others.filter fun e => (changes.lookup e.1).isNone }

/-- What a request handler does with the value it has loaded. -/
def Job.run (job : Job) (metadata : Metadata) (checks : Checks) : Except String Outcome :=
  match job with
  | .add records => .ok (some (addAttachments metadata records), some (.added records))
  | .delete fileId => deleteAttachment metadata fileId checks
  | .submit requestId attachmentFileIds =>
    persistRequest metadata requestId attachmentFileIds checks
  | .update changes => .ok (updateConversation metadata changes, none)

/-- The handler locks the row before it changes the value. -/
def Job.locks : Job → Bool
  | .update _ => false
  | _ => true

/-- `populate_existing` of the locking statement: `lock_conversation_by_thread_id` has it,
`_lock_conversation_by_id` does not. -/
def Job.populatesExisting : Job → Bool
  | .submit _ _ => true
  | _ => false

/-- The ids that `uuid4` drew for a handler. -/
def Job.drawnIds : Job → List String
  | .add records => records.map AttachmentRecord.fileId
  | _ => []

/-! ## The system -/

abbrev SessionId := Nat

/-- The conversation, the handlers at work, the requests, the ids drawn, and what was committed. -/
structure System where
  row : State SessionId Metadata
  jobs : SessionId → Option Job
  requests : List String
  drawn : List String
  committed : List Change

/-- A conversation without attachments. -/
def System.created (others : JsonObject) : System where
  row := { row := ⟨[], others⟩, holder := none, loaded := fun _ => none }
  jobs := fun _ => none
  requests := []
  drawn := []
  committed := []

inductive Event where
  /-- A handler starts and loads the conversation. -/
  | start (s : SessionId) (job : Job)
  | lock (s : SessionId)
  /-- The handler changes the value it has, writes it and commits, or raises. -/
  | finish (s : SessionId) (checks : Checks)
  /-- The handler raises for another reason, or its process dies. -/
  | abort (s : SessionId)

/-- The session ends. -/
def System.close (st : System) (s : SessionId) : System :=
  { st with row := st.row.close s, jobs := Function.update st.jobs s none }

/-- The request row that the transaction inserts. -/
def Job.requestRow : Job → List String
  | .submit requestId _ => [requestId]
  | _ => []

/-- The end of a handler with the value it has loaded. -/
def finish (st : System) (s : SessionId) (job : Job) (metadata : Metadata) (checks : Checks) :
    System :=
  if job.requestRow.any (st.requests.contains ·) then st.close s
  else
    match job.run metadata checks with
    | .error _ => st.close s
    | .ok (written, change) =>
      match st.row.commit s written with
      | none => st
      | some row =>
        { row := row
          jobs := Function.update st.jobs s none
          requests := st.requests ++ job.requestRow
          drawn := st.drawn
          committed := st.committed ++ change.toList }

/-- One step of one of the handlers; a step that is not possible yet changes nothing. -/
def step (st : System) : Event → System
  | .start s job =>
    if st.jobs s = none ∧ job.drawnIds.Nodup ∧ ∀ fileId ∈ job.drawnIds, fileId ∉ st.drawn then
      { st with
        row := st.row.load s
        jobs := Function.update st.jobs s (some job)
        drawn := st.drawn ++ job.drawnIds }
    else st
  | .lock s =>
    match st.jobs s with
    | none => st
    | some job =>
      if job.locks then
        match st.row.lock s job.populatesExisting with
        | none => st
        | some row => { st with row := row }
      else st
  | .finish s checks =>
    match st.jobs s, st.row.loaded s with
    | some job, some metadata =>
      if job.locks ∧ st.row.holder ≠ some s then st else finish st s job metadata checks
    | _, _ => st
  | .abort s => st.close s

end Attachments

end Yuanlei
