import Yuanlei.Attachment.Transactions

/-!
# Updates of attachments

The list of attachments compared with the history of committed changes.  The lock orders the
writers, but a writer that loaded the conversation before it waited for the lock writes an old list
back.  A run in which every writer still has the list of the row loses nothing.

Main results:

- `Ledger`: the list is what the committed changes say.
- `updates_kept`: no run of such steps loses an update.
-/

namespace Yuanlei

namespace Attachments

open RowSession

/-! ## What the history says -/

/-- The attachments a change is about. -/
def Change.fileIds : Change → List String
  | .added records => records.map AttachmentRecord.fileId
  | .removed fileId => [fileId]
  | .bound _ fileIds => fileIds

/-- An add of the history drew the id. -/
def Added (committed : List Change) (fileId : String) : Prop :=
  ∃ records, .added records ∈ committed ∧ fileId ∈ records.map AttachmentRecord.fileId

/-- The list holds exactly the records that were added and not removed, each once and with the
request that bound it, and no attachment was bound to two requests. -/
structure Ledger (committed : List Change) (attachments : List Attachment) : Prop where
  listed : ∀ {item}, item ∈ attachments →
    (∃ records, .added records ∈ committed ∧ item.record ∈ records) ∧
      .removed item.fileId ∉ committed
  kept : ∀ {records record}, .added records ∈ committed → record ∈ records →
    .removed record.fileId ∉ committed → ∃ item ∈ attachments, item.record = record
  once : (attachments.map Attachment.fileId).Nodup
  bound_iff : ∀ {item}, item ∈ attachments → ∀ requestId, item.requestId = some requestId ↔
    ∃ fileIds, .bound requestId fileIds ∈ committed ∧ item.fileId ∈ fileIds
  single : ∀ {r r' fileIds fileIds'}, .bound r fileIds ∈ committed → .bound r' fileIds' ∈ committed →
    ∀ fileId ∈ fileIds, fileId ∈ fileIds' → r = r'

/-- Changes are about attachments that were added, and requests have names. -/
structure History (committed : List Change) : Prop where
  known : ∀ {change}, change ∈ committed → ∀ fileId ∈ change.fileIds, Added committed fileId
  named : ∀ {requestId fileIds}, .bound requestId fileIds ∈ committed → requestId ≠ ""

variable {committed : List Change} {fileId : String}

theorem Added.append (h : Added committed fileId)
    (change : Change) : Added (committed ++ [change]) fileId := by
  obtain ⟨records, hrecords, hmem⟩ := h
  exact ⟨records, List.mem_append_left _ hrecords, hmem⟩

variable {attachments : List Attachment} {item : Attachment}

theorem Ledger.added (h : Ledger committed attachments) (hitem : item ∈ attachments) :
    Added committed item.fileId := by
  obtain ⟨⟨records, hrecords, hmem⟩, -⟩ := h.listed hitem
  exact ⟨records, hrecords, List.mem_map_of_mem hmem⟩

theorem eq_of_fileId_eq (h : (attachments.map Attachment.fileId).Nodup) {a b : Attachment}
    (ha : a ∈ attachments)
    (hb : b ∈ attachments) (hab : a.fileId = b.fileId) : a = b :=
  List.inj_on_of_nodup_map h ha hb hab

theorem History.append (h : History committed) {change : Change}
    (hknown : ∀ fileId ∈ change.fileIds, Added (committed ++ [change]) fileId)
    (hnamed : ∀ {requestId fileIds}, change = .bound requestId fileIds → requestId ≠ "") :
    History (committed ++ [change]) where
  known := by
    intro c hc fileId hfileId
    rcases List.mem_append.mp hc with hold | hnew
    · exact (h.known hold fileId hfileId).append change
    · rw [List.mem_singleton] at hnew
      exact hknown fileId (hnew ▸ hfileId)
  named := by
    intro requestId fileIds hbound
    rcases List.mem_append.mp hbound with hold | hnew
    · exact h.named hold
    · rw [List.mem_singleton] at hnew
      exact hnamed hnew.symm

/-! ## One change -/

variable {metadata : Metadata} {records : List AttachmentRecord}

theorem addAttachments_of_fresh
    (hfresh : ∀ item ∈ metadata.attachments, item.fileId ∉ records.map AttachmentRecord.fileId) :
    (addAttachments metadata records).attachments =
      metadata.attachments ++ records.map fun record => ⟨record, none⟩ := by
  simp only [addAttachments]
  congr 1
  rw [List.filter_eq_self]
  intro item hitem
  simpa using hfresh item hitem

/-- Adding records with new ids. -/
theorem Ledger.add (h : Ledger committed metadata.attachments) (hhistory : History committed)
    (hnodup : (records.map AttachmentRecord.fileId).Nodup)
    (hfresh : ∀ fileId ∈ records.map AttachmentRecord.fileId, ¬ Added committed fileId) :
    Ledger (committed ++ [.added records]) (addAttachments metadata records).attachments := by
  have hnew : ∀ item ∈ metadata.attachments, item.fileId ∉ records.map AttachmentRecord.fileId :=
    fun item hitem hmem => hfresh _ hmem (h.added hitem)
  rw [addAttachments_of_fresh hnew]
  constructor
  · intro item hitem
    rcases List.mem_append.mp hitem with hold | hadded
    · obtain ⟨⟨earlier, hearlier, hmem⟩, hnot⟩ := h.listed hold
      refine ⟨⟨earlier, List.mem_append_left _ hearlier, hmem⟩, ?_⟩
      simpa using hnot
    · obtain ⟨record, hrecord, rfl⟩ := List.mem_map.mp hadded
      refine ⟨⟨records, by simp, hrecord⟩, ?_⟩
      intro hremoved
      have hold : .removed record.fileId ∈ committed := by simpa [Attachment.fileId] using hremoved
      exact hfresh record.fileId (List.mem_map_of_mem hrecord)
        (hhistory.known hold record.fileId (by simp [Change.fileIds]))
  · intro batch record hbatch hrecord hnot
    rcases List.mem_append.mp hbatch with hold | hlast
    · obtain ⟨item, hitem, hsame⟩ := h.kept hold hrecord (by simpa using hnot)
      exact ⟨item, List.mem_append_left _ hitem, hsame⟩
    · have hbatchEq : batch = records := by simpa using hlast
      subst hbatchEq
      exact ⟨⟨record, none⟩, List.mem_append_right _ (List.mem_map.mpr ⟨record, hrecord, rfl⟩), rfl⟩
  · rw [List.map_append, List.map_map]
    refine List.nodup_append.mpr ⟨h.once, hnodup, ?_⟩
    intro a ha b hb hab
    obtain ⟨item, hitem, rfl⟩ := List.mem_map.mp ha
    exact hnew item hitem (hab ▸ hb)
  · intro item hitem requestId
    rcases List.mem_append.mp hitem with hold | hadded
    · rw [h.bound_iff hold requestId]
      simp
    · obtain ⟨record, hrecord, rfl⟩ := List.mem_map.mp hadded
      constructor
      · intro hbound
        cases hbound
      · rintro ⟨fileIds, hbound, hmem⟩
        have hold : .bound requestId fileIds ∈ committed := by simpa using hbound
        exact absurd (hhistory.known hold record.fileId hmem)
          (hfresh record.fileId (List.mem_map_of_mem hrecord))
  · intro r r' fileIds fileIds' hbound hbound'
    exact h.single (by simpa using hbound) (by simpa using hbound')

theorem Ledger.remove {metadata' : Metadata}
    (h : Ledger committed metadata.attachments)
    (hremove : removeAttachment metadata fileId = some metadata') :
    Ledger (committed ++ [.removed fileId]) metadata'.attachments := by
  have hlist : metadata'.attachments = metadata.attachments.filter (·.fileId ≠ fileId) := by
    unfold removeAttachment at hremove
    simp only at hremove
    split_ifs at hremove
    cases hremove
    rfl
  rw [hlist]
  constructor
  · intro item hitem
    obtain ⟨hold, hne⟩ := List.mem_filter.mp hitem
    obtain ⟨⟨records, hrecords, hmem⟩, hnot⟩ := h.listed hold
    refine ⟨⟨records, List.mem_append_left _ hrecords, hmem⟩, ?_⟩
    simpa [hnot] using hne
  · intro records record hrecords hrecord hnot
    simp only [List.mem_append, List.mem_singleton, Change.removed.injEq, not_or] at hnot
    obtain ⟨item, hitem, hsame⟩ := h.kept (by simpa using hrecords) hrecord hnot.1
    refine ⟨item, List.mem_filter.mpr ⟨hitem, ?_⟩, hsame⟩
    simpa [Attachment.fileId, hsame] using hnot.2
  · exact h.once.sublist (List.filter_sublist.map _)
  · intro item hitem requestId
    rw [h.bound_iff (List.mem_of_mem_filter hitem) requestId]
    simp
  · intro r r' fileIds fileIds' hbound hbound'
    exact h.single (by simpa using hbound) (by simpa using hbound')

@[simp]
theorem bindItem_record (requestId : String) (fileIds : List String) (item : Attachment) :
    (bindItem requestId fileIds item).record = item.record := by
  unfold bindItem
  split <;> rfl

@[simp]
theorem bindItem_fileId (requestId : String) (fileIds : List String) (item : Attachment) :
    (bindItem requestId fileIds item).fileId = item.fileId := by
  rw [Attachment.fileId, bindItem_record, Attachment.fileId]

variable {requestId : String} {fileIds : List String}

theorem bindItem_of_bound {r : String} (hr : item.requestId = some r) (hne : r ≠ "") : bindItem requestId fileIds item = item := by
  unfold bindItem Attachment.unbound
  simp [hr, hne]

theorem Ledger.bind (h : Ledger committed attachments) (hhistory : History committed)
    (hrequest : requestId ≠ "")
    (hall : ∀ fileId ∈ fileIds, ∃ item ∈ attachments.map (bindItem requestId fileIds),
      item.fileId = fileId ∧ item.requestId = some requestId) :
    Ledger (committed ++ [.bound requestId fileIds])
      (attachments.map (bindItem requestId fileIds)) := by
  -- an attachment that an earlier request has bound is not bound again
  have hearlier : ∀ {item}, item ∈ attachments → ∀ {r ids}, .bound r ids ∈ committed →
      item.fileId ∈ ids → item.fileId ∈ fileIds → r = requestId := by
    intro item hitem r ids hbound hmem hnew
    have hr := (h.bound_iff hitem r).mpr ⟨ids, hbound, hmem⟩
    obtain ⟨other, hother, hsame, hother'⟩ := hall item.fileId hnew
    obtain ⟨item', hitem', rfl⟩ := List.mem_map.mp hother
    rw [bindItem_fileId] at hsame
    rw [eq_of_fileId_eq h.once hitem' hitem hsame,
      bindItem_of_bound hr (hhistory.named hbound), hr] at hother'
    exact Option.some.inj hother'
  constructor
  · intro item hitem
    obtain ⟨before, hbefore, rfl⟩ := List.mem_map.mp hitem
    obtain ⟨⟨records, hrecords, hmem⟩, hnot⟩ := h.listed hbefore
    refine ⟨⟨records, List.mem_append_left _ hrecords, by rwa [bindItem_record]⟩, ?_⟩
    simpa using hnot
  · intro records record hrecords hrecord hnot
    obtain ⟨item, hitem, hsame⟩ := h.kept (by simpa using hrecords) hrecord (by simpa using hnot)
    exact ⟨_, List.mem_map_of_mem hitem, by rw [bindItem_record, hsame]⟩
  · have hids : (attachments.map (bindItem requestId fileIds)).map Attachment.fileId =
        attachments.map Attachment.fileId := by
      rw [List.map_map]
      exact List.map_congr_left fun item _ => bindItem_fileId requestId fileIds item
    rw [hids]
    exact h.once
  · intro item hitem r
    obtain ⟨before, hbefore, rfl⟩ := List.mem_map.mp hitem
    rw [bindItem_fileId]
    by_cases hnew : before.fileId ∈ fileIds
    · -- the request is the one that binds now, whoever bound the attachment
      obtain ⟨other, hother, hsame, hrequestId⟩ := hall before.fileId hnew
      obtain ⟨before', hbefore', rfl⟩ := List.mem_map.mp hother
      rw [bindItem_fileId] at hsame
      rw [eq_of_fileId_eq h.once hbefore' hbefore hsame] at hrequestId
      rw [hrequestId]
      constructor
      · intro hr
        cases hr
        exact ⟨fileIds, by simp, hnew⟩
      · rintro ⟨ids, hbound, hmem⟩
        simp only [List.mem_append, List.mem_singleton, Change.bound.injEq] at hbound
        rcases hbound with hold | ⟨rfl, -⟩
        · rw [hearlier hbefore hold hmem hnew]
        · rfl
    · have hsame : bindItem requestId fileIds before = before := by
        simp [bindItem, hnew]
      rw [hsame, h.bound_iff hbefore r]
      constructor
      · rintro ⟨ids, hbound, hmem⟩
        exact ⟨ids, List.mem_append_left _ hbound, hmem⟩
      · rintro ⟨ids, hbound, hmem⟩
        simp only [List.mem_append, List.mem_singleton, Change.bound.injEq] at hbound
        rcases hbound with hold | ⟨-, rfl⟩
        · exact ⟨ids, hold, hmem⟩
        · exact absurd hmem hnew
  · -- an id of the new bind is in the list, so an earlier bind of it is still there to be seen
    have hagree : ∀ {r ids}, .bound r ids ∈ committed → ∀ fileId ∈ ids, fileId ∈ fileIds →
        r = requestId := by
      intro r ids hbound fileId hmem hnew
      obtain ⟨item, hitem, hid, -⟩ := hall fileId hnew
      obtain ⟨before, hbefore, rfl⟩ := List.mem_map.mp hitem
      rw [bindItem_fileId] at hid
      subst hid
      exact hearlier hbefore hbound hmem hnew
    intro r r' ids ids' hbound hbound' fileId hmem hmem'
    simp only [List.mem_append, List.mem_singleton, Change.bound.injEq] at hbound hbound'
    rcases hbound with hold | ⟨rfl, rfl⟩
    · rcases hbound' with hold' | ⟨rfl, rfl⟩
      · exact h.single hold hold' fileId hmem hmem'
      · exact hagree hold fileId hmem hmem'
    · rcases hbound' with hold' | ⟨rfl, -⟩
      · exact (hagree hold' fileId hmem' hmem).symm
      · rfl

/-! ## One handler -/

theorem mem_normalizeAttachmentFileIds {value : List String}
    (h : fileId ∈ normalizeAttachmentFileIds value) :
    PyText.strip fileId = fileId ∧ fileId ≠ "" := by
  have hgeneral : ∀ (value normalized : List String),
      (∀ x ∈ normalized, PyText.strip x = x ∧ x ≠ "") →
      ∀ x ∈ value.foldl (fun normalized fileId =>
        let current := PyText.strip fileId
        if current ≠ "" ∧ current ∉ normalized then normalized ++ [current] else normalized)
        normalized, PyText.strip x = x ∧ x ≠ "" := by
    intro value
    induction value with
    | nil => exact fun _ hnormalized => hnormalized
    | cons y value ih =>
      intro normalized hnormalized
      apply ih
      intro x hx
      simp only at hx
      split_ifs at hx with hkeep
      · rcases List.mem_append.mp hx with hold | hnew
        · exact hnormalized x hold
        · rw [List.mem_singleton] at hnew
          subst hnew
          exact ⟨PyText.strip_strip y, hkeep.1⟩
      · exact hnormalized x hx
  exact hgeneral value [] (by simp) fileId h

theorem stripped_normalizeAttachmentFileIds (value : List String) :
    ((normalizeAttachmentFileIds value).map PyText.strip).filter (· ≠ "") =
      normalizeAttachmentFileIds value := by
  have hmap : (normalizeAttachmentFileIds value).map PyText.strip =
      normalizeAttachmentFileIds value := by
    rw [List.map_congr_left fun x hx => (mem_normalizeAttachmentFileIds hx).1]
    exact List.map_id' _
  rw [hmap, List.filter_eq_self]
  intro x hx
  simpa using (mem_normalizeAttachmentFileIds hx).2

@[simp]
theorem saveModelSpec_attachments (metadata : Metadata) (saved : Option Metadata)
    (modelSpec : Option String) :
    ((saveModelSpec metadata saved modelSpec).getD metadata).attachments =
      (saved.getD metadata).attachments := by
  cases modelSpec with
  | none => rfl
  | some modelSpec => rfl

section Bind

variable (metadata : Metadata) {requestId : String} {fileIds : List String}
  (hrequest : requestId ≠ "") (hids : (fileIds.map PyText.strip).filter (· ≠ "") = fileIds)
  (hsome : fileIds ≠ [])

include hrequest hids hsome

theorem bindAttachmentsToRequest_attachments :
    ((bindAttachmentsToRequest metadata requestId fileIds).1.getD metadata).attachments =
      metadata.attachments.map (bindItem requestId fileIds) := by
  unfold bindAttachmentsToRequest
  simp only [hids]
  rw [if_neg (by simp [hrequest, hsome])]
  split_ifs with hchanged
  · rfl
  · have hsame : ∀ item ∈ metadata.attachments, bindItem requestId fileIds item = item := by
      intro item hitem
      apply if_neg
      intro hbinds
      exact hchanged (List.any_eq_true.mpr ⟨item, hitem, hbinds⟩)
    rw [Option.getD_none, List.map_congr_left hsame, List.map_id']

theorem bindAttachmentsToRequest_bound : (bindAttachmentsToRequest metadata requestId fileIds).2 =
      (metadata.attachments.map (bindItem requestId fileIds)).filter
        (·.requestId == some requestId) := by
  unfold bindAttachmentsToRequest
  simp only [hids]
  rw [if_neg (by simp [hrequest, hsome])]

end Bind

variable {change : Option Change} {checks : Checks} {written : Option Metadata}

/-- What a handler that does not raise does to the list it has loaded. -/
theorem persistRequest_eq_ok
    (h : persistRequest metadata requestId fileIds checks = .ok (written, change)) :
    change = none ∧ (written.getD metadata).attachments = metadata.attachments ∨
    ∃ ids, ids = normalizeAttachmentFileIds fileIds ∧ change = some (.bound requestId ids) ∧
      requestId ≠ "" ∧
      (written.getD metadata).attachments = metadata.attachments.map (bindItem requestId ids) ∧
      ∀ fileId ∈ ids, ∃ item ∈ metadata.attachments.map (bindItem requestId ids),
        item.fileId = fileId ∧ item.requestId = some requestId := by
  unfold persistRequest at h
  simp only at h
  split_ifs at h with hrejected hnone hmissing
  · cases h
    exact .inl ⟨rfl, rfl⟩
  · cases h
    exact .inl ⟨rfl, saveModelSpec_attachments metadata none checks.modelSpec⟩
  · cases h
    have hrequest : requestId ≠ "" := by
      rintro rfl
      apply hnone
      simpa [bindAttachmentsToRequest] using hmissing
    have hids := stripped_normalizeAttachmentFileIds fileIds
    refine .inr ⟨normalizeAttachmentFileIds fileIds, rfl, rfl, hrequest, ?_, ?_⟩
    · rw [saveModelSpec_attachments]
      exact bindAttachmentsToRequest_attachments metadata hrequest hids hnone
    · intro fileId hmem
      rw [bindAttachmentsToRequest_bound metadata hrequest hids hnone, not_not,
        List.filter_eq_nil_iff] at hmissing
      have hfound := hmissing fileId hmem
      simp only [Bool.not_eq_true', Bool.not_eq_false, List.contains_iff_mem] at hfound
      obtain ⟨item, hitem, hid⟩ := List.mem_map.mp hfound
      obtain ⟨hlisted, hbound⟩ := List.mem_filter.mp hitem
      exact ⟨item, hlisted, hid, by simpa using hbound⟩

theorem deleteAttachment_eq_ok (h : deleteAttachment metadata fileId checks = .ok (written, change)) :
    change = some (.removed fileId) ∧ (∃ item ∈ metadata.attachments, item.fileId = fileId) ∧
      ∃ metadata', written = some metadata' ∧
        removeAttachment metadata fileId = some metadata' := by
  unfold deleteAttachment at h
  split at h
  · cases h
  · rename_i target hfound
    split_ifs at h
    split at h
    · cases h
    · rename_i metadata' hremove
      cases h
      refine ⟨rfl, ⟨target, List.mem_of_find?_eq_some hfound, ?_⟩, metadata', rfl, hremove⟩
      simpa using List.find?_some hfound

theorem updateConversation_attachments (metadata : Metadata) (changes : JsonObject) :
    ((updateConversation metadata changes).getD metadata).attachments = metadata.attachments := by
  unfold updateConversation
  split <;> rfl

/-- The records of a handler have new and distinct ids. -/
def FreshIds (committed : List Change) (job : Job) : Prop :=
  job.drawnIds.Nodup ∧ ∀ fileId ∈ job.drawnIds, ¬ Added committed fileId

variable {job : Job}

theorem Job.run_ledger (h : Ledger committed metadata.attachments) (hhistory : History committed)
    (hfresh : FreshIds committed job) (hrun : job.run metadata checks = .ok (written, change)) :
    Ledger (committed ++ change.toList) (written.getD metadata).attachments ∧
      History (committed ++ change.toList) := by
  cases job with
  | add records =>
    cases hrun
    refine ⟨h.add hhistory hfresh.1 hfresh.2, hhistory.append ?_ ?_⟩
    · intro fileId hmem
      exact ⟨records, by simp, hmem⟩
    · intro requestId fileIds hbound
      cases hbound
  | delete fileId =>
    obtain ⟨rfl, ⟨item, hitem, hid⟩, metadata', rfl, hremove⟩ := deleteAttachment_eq_ok hrun
    refine ⟨h.remove hremove, hhistory.append ?_ ?_⟩
    · intro x hx
      have hxid : x = fileId := by simpa [Change.fileIds] using hx
      rw [hxid, ← hid]
      exact (h.added hitem).append _
    · intro requestId fileIds hbound
      cases hbound
  | submit requestId attachmentFileIds =>
    rcases persistRequest_eq_ok hrun with ⟨rfl, hsame⟩ | ⟨ids, -, rfl, hrequest, hlist, hall⟩
    · rw [hsame]
      simpa using ⟨h, hhistory⟩
    · rw [hlist]
      refine ⟨h.bind hhistory hrequest hall, hhistory.append ?_ ?_⟩
      · intro fileId hmem
        obtain ⟨item, hitem, hid, -⟩ := hall fileId hmem
        obtain ⟨before, hbefore, rfl⟩ := List.mem_map.mp hitem
        rw [bindItem_fileId] at hid
        rw [← hid]
        exact (h.added hbefore).append _
      · intro r fileIds hbound
        cases hbound
        exact hrequest
  | update changes =>
    cases hrun
    rw [updateConversation_attachments]
    simpa using ⟨h, hhistory⟩

theorem Job.added_of_run (hrun : job.run metadata checks = .ok (written, change))
    (h : Added (committed ++ change.toList) fileId) :
    Added committed fileId ∨ fileId ∈ job.drawnIds := by
  obtain ⟨records, hrecords, hmem⟩ := h
  rcases List.mem_append.mp hrecords with hold | hnew
  · exact .inl ⟨records, hold, hmem⟩
  · have hchange : change = some (.added records) := by simpa using hnew
    subst hchange
    cases job with
    | add batch =>
      cases hrun
      exact .inr hmem
    | delete target =>
      obtain ⟨hother, -⟩ := deleteAttachment_eq_ok hrun
      cases hother
    | submit requestId attachmentFileIds =>
      rcases persistRequest_eq_ok hrun with ⟨hother, -⟩ | ⟨ids, -, hother, -⟩
      · cases hother
      · cases hother
    | update changes => cases hrun

/-! ## The invariant -/

/-- List, history and handlers agree. -/
structure AttachmentInv (st : System) : Prop where
  ledger : Ledger st.committed st.row.row.attachments
  history : History st.committed
  drawn : ∀ {fileId}, Added st.committed fileId → fileId ∈ st.drawn
  pending : ∀ {s job}, st.jobs s = some job →
    (∀ fileId ∈ job.drawnIds, fileId ∈ st.drawn) ∧ FreshIds st.committed job
  apart : ∀ {s t job job'}, s ≠ t → st.jobs s = some job → st.jobs t = some job' →
    ∀ fileId ∈ job.drawnIds, fileId ∉ job'.drawnIds
  /-- A submitted request that holds the lock has the value of the row. -/
  current : ∀ {s}, (∀ {job}, st.jobs s = some job → job.populatesExisting = true) → Current st.row s

/-- A handler that did not replace the attributes it had loaded has an old list. -/
def System.staleList (st : System) (s : SessionId) : Bool :=
  match st.jobs s, st.row.loaded s with
  | some job, some metadata =>
    !job.populatesExisting && metadata.attachments != st.row.row.attachments
  | _, _ => false

/-- No handler finishes with an old list. -/
def UpToDate (st : System) : Event → Prop
  | .finish s _ => st.staleList s = false
  | _ => True

instance (st : System) : ∀ e, Decidable (UpToDate st e)
  | .finish s _ => inferInstanceAs (Decidable (st.staleList s = false))
  | .start _ _ => inferInstanceAs (Decidable True)
  | .lock _ => inferInstanceAs (Decidable True)
  | .abort _ => inferInstanceAs (Decidable True)

theorem attachmentInv_created (others : JsonObject) : AttachmentInv (.created others) where
  ledger := by
    constructor <;> simp [System.created]
  history := by
    constructor <;> simp [System.created]
  drawn := by
    rintro fileId ⟨records, hrecords, -⟩
    simp [System.created] at hrecords
  pending := by
    intro s job hjob
    cases hjob
  apart := by
    intro s t job job' _ hjob
    cases hjob
  current := by
    intro s _ hholder
    cases hholder

variable {s : SessionId}

theorem job_of_update {jobs : SessionId → Option Job} {t : SessionId}
    (h : Function.update jobs s none t = some job) : t ≠ s ∧ jobs t = some job := by
  by_cases hts : t = s
  · subst hts
    rw [Function.update_self] at h
    cases h
  · rw [Function.update_of_ne hts] at h
    exact ⟨hts, h⟩

variable {st : System}

section

variable (h : AttachmentInv st)
include h

/-- Ending a session that writes nothing. -/
theorem AttachmentInv.close (s : SessionId) :
    AttachmentInv (st.close s) where
  ledger := h.ledger
  history := h.history
  drawn := h.drawn
  pending := fun hjob => h.pending (job_of_update hjob).2
  apart := fun hst hjob hjob' => h.apart hst (job_of_update hjob).2 (job_of_update hjob').2
  current := by
    intro t ht
    by_cases hts : t = s
    · subst hts
      exact current_close_self st.row t
    · apply Current.close
      apply h.current
      intro job hjob
      apply ht
      simp only [System.close, Function.update_of_ne hts]
      exact hjob

theorem AttachmentInv.start (hidle : st.jobs s = none) (hnodup : job.drawnIds.Nodup)
    (hnew : ∀ fileId ∈ job.drawnIds, fileId ∉ st.drawn) :
    AttachmentInv
      { st with
        row := st.row.load s
        jobs := Function.update st.jobs s (some job)
        drawn := st.drawn ++ job.drawnIds } where
  ledger := h.ledger
  history := h.history
  drawn := fun hadded => List.mem_append_left _ (h.drawn hadded)
  pending := by
    intro t job' hjob'
    by_cases hts : t = s
    · subst hts
      simp only [Function.update_self, Option.some.injEq] at hjob'
      subst hjob'
      exact ⟨fun fileId hmem => List.mem_append_right _ hmem, hnodup,
        fun fileId hmem hadded => hnew fileId hmem (h.drawn hadded)⟩
    · simp only [Function.update_of_ne hts] at hjob'
      obtain ⟨hdrawn, hfresh⟩ := h.pending hjob'
      exact ⟨fun fileId hmem => List.mem_append_left _ (hdrawn fileId hmem), hfresh⟩
  apart := by
    intro t u jobT jobU htu hjobT hjobU fileId hmem hmem'
    by_cases hts : t = s
    · subst hts
      simp only [Function.update_self, Option.some.injEq] at hjobT
      subst hjobT
      simp only [Function.update_of_ne htu.symm] at hjobU
      exact hnew fileId hmem ((h.pending hjobU).1 fileId hmem')
    · simp only [Function.update_of_ne hts] at hjobT
      by_cases hus : u = s
      · subst hus
        simp only [Function.update_self, Option.some.injEq] at hjobU
        subst hjobU
        exact hnew fileId hmem' ((h.pending hjobT).1 fileId hmem)
      · simp only [Function.update_of_ne hus] at hjobU
        exact h.apart htu hjobT hjobU fileId hmem hmem'
  current := by
    intro t ht
    apply Current.load
    apply h.current
    intro job' hjob'
    by_cases hts : t = s
    · subst hts
      rw [hidle] at hjob'
      cases hjob'
    · apply ht
      simp only [Function.update_of_ne hts]
      exact hjob'

theorem AttachmentInv.lock (hjob : st.jobs s = some job) {row : State SessionId Metadata}
    (hlock : st.row.lock s job.populatesExisting = some row) :
    AttachmentInv { st with row := row } where
  ledger := by
    rw [row_of_lock hlock]
    exact h.ledger
  history := h.history
  drawn := h.drawn
  pending := h.pending
  apart := h.apart
  current := by
    intro t ht
    by_cases hts : t = s
    · subst hts
      have hpopulates := ht hjob
      rw [hpopulates] at hlock
      exact current_lock hlock
    · exact current_lock_of_ne hts hlock

/-- A handler that ends with the list of the row. -/
theorem AttachmentInv.finish (checks : Checks) (hjob : st.jobs s = some job)
    (hlist : metadata.attachments = st.row.row.attachments) :
    AttachmentInv (finish st s job metadata checks) := by
  unfold Attachments.finish
  split
  · exact h.close s
  · split
    · exact h.close s
    · rename_i written change hrun
      split
      · exact h
      · rename_i row hcommit
        have hledger := h.ledger
        rw [← hlist] at hledger
        obtain ⟨hledger', hhistory'⟩ :=
          Job.run_ledger hledger h.history (h.pending hjob).2 hrun
        constructor
        · have hrow : row.row.attachments = (written.getD metadata).attachments := by
            rw [row_of_commit hcommit]
            cases written with
            | none => exact hlist.symm
            | some value => rfl
          rw [hrow]
          exact hledger'
        · exact hhistory'
        · intro fileId hadded
          rcases Job.added_of_run hrun hadded with hold | hdrawn
          · exact h.drawn hold
          · exact (h.pending hjob).1 fileId hdrawn
        · intro t job' hjob'
          obtain ⟨hts, hold⟩ := job_of_update hjob'
          obtain ⟨hdrawn, hnodup, hfresh⟩ := h.pending hold
          refine ⟨hdrawn, hnodup, ?_⟩
          intro fileId hmem hadded
          rcases Job.added_of_run hrun hadded with hbefore | hmine
          · exact hfresh fileId hmem hbefore
          · exact h.apart hts hold hjob fileId hmem hmine
        · intro t u jobT jobU htu hjobT hjobU
          exact h.apart htu (job_of_update hjobT).2 (job_of_update hjobU).2
        · intro t ht
          by_cases hts : t = s
          · subst hts
            exact current_commit_self hcommit
          · refine Current.commit ?_ hcommit
            apply h.current
            intro job' hjob'
            apply ht
            simp only [Function.update_of_ne hts]
            exact hjob'

theorem AttachmentInv.loaded_eq_row (hjob : st.jobs s = some job)
    (hpopulates : job.populatesExisting = true) (hloaded : st.row.loaded s = some metadata)
    (hholder : st.row.holder = some s) : metadata = st.row.row := by
  have hcurrent : Current st.row s := by
    apply h.current
    intro job' hjob'
    rw [hjob] at hjob'
    cases hjob'
    exact hpopulates
  have hrow := hcurrent hholder
  rw [hloaded] at hrow
  exact Option.some.inj hrow

end

theorem locks_of_populatesExisting (h : job.populatesExisting = true) : job.locks = true := by
  cases job with
  | submit requestId attachmentFileIds => rfl
  | add records => cases h
  | delete fileId => cases h
  | update metadata => cases h

theorem step_attachmentInv (st : System) (e : Event) (hguard : UpToDate st e)
    (h : AttachmentInv st) : AttachmentInv (step st e) := by
  cases e with
  | start s job =>
    simp only [step]
    split_ifs with hstart
    · exact h.start hstart.1 hstart.2.1 hstart.2.2
    · exact h
  | lock s =>
    simp only [step]
    split
    · exact h
    · rename_i job hjob
      split
      · split
        · exact h
        · rename_i row hlock
          exact h.lock hjob hlock
      · exact h
  | finish s checks =>
    simp only [step]
    split
    · rename_i job metadata hjob hloaded
      split
      · exact h
      · rename_i hready
        apply h.finish checks hjob
        by_cases hpopulates : job.populatesExisting = true
        · have hholder : st.row.holder = some s := by
            by_contra hnot
            exact hready ⟨locks_of_populatesExisting hpopulates, hnot⟩
          rw [h.loaded_eq_row hjob hpopulates hloaded hholder]
        · simpa [UpToDate, System.staleList, hjob, hloaded, hpopulates] using hguard
    · exact h
  | abort s => exact h.close s

/-! ## Runs -/

/-- No attachment of the row can be bound to the request under this id. -/
def Unavailable (st : System) (requestId fileId : String) : Prop :=
  ∀ item ∈ st.row.row.attachments, item.fileId = fileId →
    item.unbound = false ∧ item.requestId ≠ some requestId

/-- A request with an id that is missing or taken binds nothing. -/
theorem finish_of_unavailable (h : AttachmentInv st) (checks : Checks)
    (hjob : st.jobs s = some (.submit requestId fileIds))
    (hmem : fileId ∈ normalizeAttachmentFileIds fileIds)
    (hunavailable : Unavailable st requestId fileId) :
    (step st (.finish s checks)).row.row.attachments = st.row.row.attachments ∧
      (step st (.finish s checks)).committed = st.committed := by
  simp only [step]
  split
  · rename_i job metadata hjob' hloaded
    rw [hjob] at hjob'
    cases hjob'
    split
    · exact ⟨rfl, rfl⟩
    · rename_i hready
      have hholder : st.row.holder = some s := by
        by_contra hnot
        exact hready ⟨rfl, hnot⟩
      have hrow := h.loaded_eq_row hjob rfl hloaded hholder
      unfold finish
      split
      · exact ⟨rfl, rfl⟩
      · split
        · exact ⟨rfl, rfl⟩
        · rename_i written change hrun
          split
          · exact ⟨rfl, rfl⟩
          · rename_i row hcommit
            rcases persistRequest_eq_ok hrun with ⟨rfl, hsame⟩ | ⟨ids, rfl, -, -, -, hall⟩
            · rw [hrow] at hsame
              simp only [row_of_commit hcommit, hsame, Option.toList_none, List.append_nil,
                and_self]
            · obtain ⟨item, hitem, hid, hrequest⟩ := hall fileId hmem
              obtain ⟨before, hbefore, rfl⟩ := List.mem_map.mp hitem
              rw [bindItem_fileId] at hid
              rw [hrow] at hbefore
              obtain ⟨htaken, hother⟩ := hunavailable before hbefore hid
              simp only [bindItem, htaken, Bool.and_false, Bool.false_eq_true, if_false] at hrequest
              exact absurd hrequest hother
  · exact ⟨rfl, rfl⟩

/-- In every run in which no handler finishes with an old list, the list is what the committed
changes say, no attachment is bound to two requests, and a request with a missing or taken
attachment binds nothing. -/
theorem updates_kept (others : JsonObject) (events : List Event)
    (hguard : Transition.Guarded step UpToDate (.created others) events) :
    let reached := Transition.exec step (.created others) events
    Ledger reached.committed reached.row.row.attachments ∧
    ∀ s requestId fileIds checks, reached.jobs s = some (.submit requestId fileIds) →
      (∃ fileId ∈ normalizeAttachmentFileIds fileIds, Unavailable reached requestId fileId) →
      (step reached (.finish s checks)).row.row.attachments = reached.row.row.attachments ∧
        (step reached (.finish s checks)).committed = reached.committed := by
  intro reached
  have hinv : AttachmentInv reached :=
    Transition.exec_invariant_of_guarded step step_attachmentInv (attachmentInv_created others)
      hguard
  refine ⟨hinv.ledger, ?_⟩
  rintro s requestId fileIds checks hjob ⟨fileId, hmem, hunavailable⟩
  exact finish_of_unavailable hinv checks hjob hmem hunavailable

/-- The checks of a handler that nothing keeps from its work. -/
def idleChecks : Checks where
  requestQueued := fun _ => false
  activeRun := false
  rejected := false
  modelSpec := none

def firstRecord : AttachmentRecord where
  fileId := "a"
  source := none
  fields := []

def secondRecord : AttachmentRecord where
  fileId := "b"
  source := none
  fields := []

/-- Two files are added one after the other, and a request takes one of them. -/
def addedInTurn : List Event :=
  [.start 1 (.add [firstRecord]), .lock 1, .finish 1 idleChecks,
    .start 2 (.add [secondRecord]), .lock 2, .finish 2 idleChecks,
    .start 3 (.submit "request" ["a"]), .lock 3, .finish 3 idleChecks]

theorem addedInTurn_kept : (Transition.exec step (.created []) addedInTurn).row.row.attachments =
      [⟨firstRecord, some "request"⟩, ⟨secondRecord, none⟩] ∧
    Ledger (Transition.exec step (.created []) addedInTurn).committed
      (Transition.exec step (.created []) addedInTurn).row.row.attachments :=
  ⟨by decide +kernel, (updates_kept [] addedInTurn (by decide +kernel)).1⟩

/-- Both handlers load the conversation before the first of them locks it. -/
def addedAtOnce : List Event :=
  [.start 1 (.add [firstRecord]), .start 2 (.add [secondRecord]), .lock 1, .finish 1 idleChecks,
    .lock 2, .finish 2 idleChecks]

/-- The second handler writes the list back without the first file. -/
theorem addedAtOnce_lost : ¬ ∀ events, Ledger (Transition.exec step (.created []) events).committed
      (Transition.exec step (.created []) events).row.row.attachments := by
  intro h
  have hlist : (Transition.exec step (.created []) addedAtOnce).row.row.attachments =
      [⟨secondRecord, none⟩] := by
    decide +kernel
  have hcommitted : (Transition.exec step (.created []) addedAtOnce).committed =
      [.added [firstRecord], .added [secondRecord]] := by
    decide +kernel
  have hledger := h addedAtOnce
  rw [hlist, hcommitted] at hledger
  have hadded : Change.added [firstRecord] ∈
      [Change.added [firstRecord], Change.added [secondRecord]] := by
    simp
  obtain ⟨item, hitem, hrecord⟩ :=
    hledger.kept hadded (List.mem_singleton_self firstRecord) (by simp)
  simp only [List.mem_singleton] at hitem
  rw [hitem] at hrecord
  exact absurd hrecord (by decide)

end Attachments

end Yuanlei
