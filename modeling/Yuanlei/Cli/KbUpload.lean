import Mathlib.Algebra.BigOperators.Group.List.Basic
import Mathlib.Data.List.Basic
import Mathlib.Data.List.Infix
import Mathlib.Data.List.Perm.Basic
import Mathlib.Logic.Relation
import Mathlib.Algebra.Ring.Int.Defs

/-!
# Uploading files from the command line

`upload_files` keeps a bounded number of uploads in flight.  Each of them looks whether the file
is there, uploads it with retries, and registers it.  Whenever some have finished, their results are
recorded in any order, and each makes room for the next file.

What the server does with the calls for a file is given with the file, so that a run is an order in
which the uploads finish.

Main results:

- `inv_step`: every file is in one place, whatever finishes first.
- `measure_step`, `exists_step`: a run comes to an end, and not before all files
  are done.
- `uploadFiles_accounts`: what a run returns if no registration raises.
-/

namespace Yuanlei.KbUpload

/-! ## Files and the calls made for them -/

structure LocalFile where
  path : String
  relativePath : String
  extension : String
  size : Nat
deriving DecidableEq

structure UploadResult where
  localFile : LocalFile
  filePath : String
  contentHash : String
  size : Nat
  error : Option String
  alreadyUploaded : Bool
deriving DecidableEq

/-- `UploadResult.success`; a missing path or hash is the empty string. -/
def UploadResult.success (r : UploadResult) : Bool :=
  r.filePath ≠ "" && r.contentHash ≠ ""

/-- The outcome of one upload call.  An answer that cannot be read raises like any other error. -/
inductive UploadOutcome where
  | data (filePath minioPath contentHash : String) (size : Nat)
  | clientError (message : String) (statusCode : Option Nat)
  | raises (message : String)
deriving DecidableEq

/-- The answer to a registration. -/
structure AddResponse where
  items : List String
  failedItems : List String
  added : Int
  failed : Int
  status : String
  message : String
deriving DecidableEq

/-- The outcome of the registration of one file; merging a malformed answer raises. -/
inductive AddOutcome where
  | response (r : AddResponse)
  | empty
  | malformed
  | raises
deriving DecidableEq

/-- A file and what the calls for it do; the existence check may raise. -/
structure Task where
  file : LocalFile
  documentExists : Option Bool
  upload : Nat → UploadOutcome
  add : AddOutcome

/-! ## One file -/

def alreadyUploadedMessage : String :=
  "File with the same content already exists in this database"

def alreadyExistsMessage : String :=
  "File with the same filename already exists in this database"

def uploadRetryAttempts : Nat :=
  2

def failedResult (item : LocalFile) (error : String) (alreadyUploaded : Bool) : UploadResult where
  localFile := item
  filePath := ""
  contentHash := ""
  size := 0
  error := some error
  alreadyUploaded := alreadyUploaded

def isRetryable : Option Nat → Bool
  | none => true
  | some status => status == 429 || 500 ≤ status

def isAlreadyUploaded (message : String) : Bool :=
  alreadyUploadedMessage.toList <:+: message.toList

/-- The attempts that are left, from one attempt on. -/
def uploadAttempts (item : LocalFile) (upload : Nat → UploadOutcome) : Nat → Nat → UploadResult
  | 0, _ => failedResult item "上传失败" false
  | n + 1, attempt =>
    match upload attempt with
    | .data path minioPath contentHash size =>
      let filePath := if path ≠ "" then path else minioPath
      if filePath = "" ∨ contentHash = "" then
        failedResult item "上传响应缺少 file_path 或 content_hash" false
      else
        { localFile := item
          filePath := filePath
          contentHash := contentHash
          size := if size ≠ 0 then size else item.size
          error := none
          alreadyUploaded := false }
    | .clientError message statusCode =>
      if isAlreadyUploaded message then failedResult item alreadyUploadedMessage true
      else if !isRetryable statusCode || uploadRetryAttempts ≤ attempt then
        failedResult item message false
      else uploadAttempts item upload n (attempt + 1)
    | .raises message => failedResult item message false

def uploadOneWithRetry (item : LocalFile) (upload : Nat → UploadOutcome) : UploadResult :=
  uploadAttempts item upload (uploadRetryAttempts + 1) 0

/-- The result of `upload_and_add_one`; a failed existence check counts as absence. -/
def uploadResult (forceUploadFile : Bool) (t : Task) : UploadResult :=
  if !forceUploadFile && t.documentExists.getD false then
    failedResult t.file alreadyExistsMessage true
  else uploadOneWithRetry t.file t.upload

def mergeAddResponse (current : Option AddResponse) (response : AddResponse) : AddResponse :=
  let base := current.getD
    { items := [], failedItems := [], added := 0, failed := 0, status := "", message := "" }
  let added := base.added + response.added
  let failed := base.failed + response.failed
  { items := base.items ++ response.items
    failedItems := base.failedItems ++ response.failedItems
    added := added
    failed := failed
    status := if failed = 0 then "success" else if added = 0 then "failed" else "partial_failed"
    message :=
      if failed = 0 then s!"已添加 {added} 个文件"
      else if added = 0 then s!"文件添加失败，失败 {failed} 个"
      else s!"已添加 {added} 个文件，失败 {failed} 个" }

/-! ## The loop -/

/-- The files that are not submitted, in flight, and finished but not recorded, and the results. -/
structure UploadState where
  waiting : List Task
  pending : List Task
  done : List Task
  uploaded : List UploadResult
  failed : List UploadResult
  addResponse : Option AddResponse
  raised : Bool

def UploadState.start (tasks : List Task) : UploadState where
  waiting := tasks
  pending := []
  done := []
  uploaded := []
  failed := []
  addResponse := none
  raised := false

def submitNext (s : UploadState) : UploadState :=
  match s.waiting with
  | [] => s
  | t :: rest => { s with waiting := rest, pending := s.pending ++ [t] }

def submitMany : Nat → UploadState → UploadState
  | 0, s => s
  | n + 1, s => submitMany n (submitNext s)

/-- The state when the loop starts. -/
def initialState (tasks : List Task) (concurrency : Nat) : UploadState :=
  submitMany (min concurrency tasks.length) (UploadState.start tasks)

variable (forceUploadFile : Bool)

/-- `future.result()` and `record_result`; both may raise. -/
def recordResult (s : UploadState) (t : Task) : Option UploadState :=
  let result := uploadResult forceUploadFile t
  if result.success then
    match t.add with
    | .raises => none
    | .malformed => none
    | .empty => some { s with uploaded := s.uploaded ++ [result] }
    | .response r =>
      some
        { s with
          uploaded := s.uploaded ++ [result]
          addResponse := some (mergeAddResponse s.addResponse r) }
  else some { s with failed := s.failed ++ [result] }

/-- Recording a finished file and submitting the next one. -/
def takeDone (s : UploadState) (t : Task) (rest : List Task) : UploadState :=
  match recordResult forceUploadFile { s with done := rest } t with
  | none => { s with done := rest, raised := true }
  | some s' => submitNext s'

/-- The steps of the loop: `wait` returns some of the uploads in flight, in any order, when
all that finished before have been recorded. -/
inductive Step : UploadState → UploadState → Prop where
  | wait {s : UploadState} {finished still : List Task} (hrunning : s.raised = false)
      (hdone : s.done = []) (hsome : finished ≠ [])
      (hpending : s.pending.Perm (finished ++ still)) :
      Step s { s with pending := still, done := finished }
  | take {s : UploadState} {t : Task} {rest : List Task} (hrunning : s.raised = false)
      (hdone : s.done = t :: rest) : Step s (takeDone forceUploadFile s t rest)

/-- The loop has ended without an exception. -/
def Returned (s : UploadState) : Prop :=
  s.raised = false ∧ s.pending = [] ∧ s.done = []

/-- What `upload_files` returns. -/
structure UploadedFiles where
  uploaded : List UploadResult
  failed : List UploadResult
  addResponse : Option AddResponse

def sortByRelativePath (results : List UploadResult) : List UploadResult :=
  results.mergeSort fun a b => a.localFile.relativePath ≤ b.localFile.relativePath

/-- The results in the order of the paths. -/
def UploadState.result (s : UploadState) : UploadedFiles where
  uploaded := sortByRelativePath s.uploaded
  failed := sortByRelativePath s.failed
  addResponse := s.addResponse

/-! ## The result of one file -/

theorem localFile_uploadAttempts (item : LocalFile) (upload : Nat → UploadOutcome)
    (n attempt : Nat) : (uploadAttempts item upload n attempt).localFile = item := by
  induction n generalizing attempt with
  | zero => rfl
  | succ n ih =>
    rw [uploadAttempts]
    cases upload attempt with
    | data path minioPath contentHash size =>
      simp only
      split_ifs <;> rfl
    | clientError message statusCode =>
      simp only
      split_ifs
      · rfl
      · rfl
      · exact ih (attempt + 1)
    | raises message => rfl

@[simp]
theorem localFile_uploadResult (t : Task) : (uploadResult forceUploadFile t).localFile = t.file := by
  unfold uploadResult
  split_ifs
  · rfl
  · exact localFile_uploadAttempts ..

/-! ## Every file is in one place -/

/-- The registration of a file whose upload succeeds neither raises nor is malformed. -/
def AddReturns (t : Task) : Prop :=
  (uploadResult forceUploadFile t).success = true → t.add ≠ .raises ∧ t.add ≠ .malformed

/-- The merged answer after one more file. -/
def mergeTask (acc : Option AddResponse) (t : Task) : Option AddResponse :=
  if (uploadResult forceUploadFile t).success then
    match t.add with
    | .response r => some (mergeAddResponse acc r)
    | _ => acc
  else acc

/-- The results of some files of one kind. -/
def resultsOf (success : Bool) (tasks : List Task) : List UploadResult :=
  (tasks.map (uploadResult forceUploadFile)).filter fun r => r.success == success

/-- The state after some files have been recorded. -/
structure Inv (tasks : List Task) (slots : Nat) (s : UploadState) (processed : List Task) :
    Prop where
  files : tasks.Perm (s.waiting ++ (s.pending ++ (s.done ++ processed)))
  uploaded : s.uploaded = resultsOf forceUploadFile true processed
  failed : s.failed = resultsOf forceUploadFile false processed
  response : s.addResponse = processed.foldl (mergeTask forceUploadFile) none
  busy : s.waiting ≠ [] → s.pending.length + s.done.length = slots
  running : s.raised = false

theorem submitMany_spec (n : Nat) (s : UploadState) (h : n ≤ s.waiting.length) : submitMany n s =
      { s with waiting := s.waiting.drop n, pending := s.pending ++ s.waiting.take n } := by
  induction n generalizing s with
  | zero => simp [submitMany]
  | succ n ih =>
    cases hwaiting : s.waiting with
    | nil =>
      rw [hwaiting] at h
      exact absurd h (by simp)
    | cons t rest =>
      have hnext : submitNext s = { s with waiting := rest, pending := s.pending ++ [t] } := by
        rw [submitNext, hwaiting]
      have hlen : n ≤ rest.length := by
        rw [hwaiting, List.length_cons] at h
        omega
      rw [submitMany, hnext, ih _ hlen]
      simp

theorem inv_initial (tasks : List Task) (concurrency : Nat) :
    Inv forceUploadFile tasks (min concurrency tasks.length) (initialState tasks concurrency)
      [] := by
  have hle : min concurrency tasks.length ≤ (UploadState.start tasks).waiting.length :=
    Nat.min_le_right ..
  rw [initialState, submitMany_spec _ _ hle]
  constructor
  · simp only [UploadState.start, List.nil_append, List.append_nil]
    exact ((List.perm_append_comm).trans (List.Perm.of_eq (List.take_append_drop ..))).symm
  · rfl
  · rfl
  · rfl
  · intro _
    simp [UploadState.start]
  · rfl

variable {s : UploadState} {t : Task} {processed : List Task}

/-- What recording a file does, if its registration has returned. -/
theorem recordResult_spec (hadd : AddReturns forceUploadFile t)
    (huploaded : s.uploaded = resultsOf forceUploadFile true processed)
    (hfailed : s.failed = resultsOf forceUploadFile false processed)
    (hresponse : s.addResponse = processed.foldl (mergeTask forceUploadFile) none) :
    recordResult forceUploadFile s t = some
      { s with
        uploaded := resultsOf forceUploadFile true (processed ++ [t])
        failed := resultsOf forceUploadFile false (processed ++ [t])
        addResponse := (processed ++ [t]).foldl (mergeTask forceUploadFile) none } := by
  have hresults : ∀ b, resultsOf forceUploadFile b (processed ++ [t]) =
      resultsOf forceUploadFile b processed ++
        [uploadResult forceUploadFile t].filter fun r => r.success == b := by
    intro b
    simp [resultsOf]
  rw [hresults, hresults, List.foldl_append, ← huploaded, ← hfailed, ← hresponse]
  cases hsuccess : (uploadResult forceUploadFile t).success with
  | false => simp [recordResult, mergeTask, hsuccess]
  | true =>
    obtain ⟨hraises, hmalformed⟩ := hadd hsuccess
    cases hcall : t.add with
    | raises => exact absurd hcall hraises
    | malformed => exact absurd hcall hmalformed
    | empty => simp [recordResult, mergeTask, hsuccess, hcall]
    | response r => simp [recordResult, mergeTask, hsuccess, hcall]

variable {s' : UploadState} {tasks : List Task}

theorem inv_step {slots : Nat} (hadd : ∀ t ∈ tasks, AddReturns forceUploadFile t)
    (h : Inv forceUploadFile tasks slots s processed) (hstep : Step forceUploadFile s s') :
    ∃ processed', Inv forceUploadFile tasks slots s' processed' := by
  cases hstep with
  | @wait finished still hrunning hdone hsome hpending =>
    refine ⟨processed, ?_, h.uploaded, h.failed, h.response, ?_, h.running⟩
    · have hfiles := h.files
      rw [hdone, List.nil_append] at hfiles
      refine hfiles.trans (List.Perm.append_left _ ?_)
      refine (hpending.append_right processed).trans ?_
      rw [← List.append_assoc still]
      exact List.perm_append_comm.append_right processed
    · intro hwaiting
      have hbusy := h.busy hwaiting
      have hlen := hpending.length_eq
      rw [hdone, List.length_nil, Nat.add_zero, hlen, List.length_append] at hbusy
      show still.length + finished.length = slots
      omega
  | @take t rest hrunning hdone =>
    have hmem : t ∈ tasks := h.files.mem_iff.mpr (by simp [hdone])
    have hrecord := recordResult_spec (s := { s with done := rest }) forceUploadFile (hadd t hmem)
      h.uploaded h.failed h.response
    have hfiles : tasks.Perm (s.waiting ++ (s.pending ++ (rest ++ (processed ++ [t])))) := by
      refine h.files.trans ?_
      rw [hdone]
      refine List.Perm.append_left _ (List.Perm.append_left _ ?_)
      rw [← List.append_assoc, List.cons_append]
      exact (List.perm_append_singleton t (rest ++ processed)).symm
    refine ⟨processed ++ [t], ?_⟩
    rw [takeDone, hrecord]
    cases hwaiting : s.waiting with
    | nil =>
      simp only [submitNext]
      refine ⟨?_, rfl, rfl, rfl, fun hne => absurd rfl hne, h.running⟩
      rw [hwaiting] at hfiles
      exact hfiles
    | cons next more =>
      simp only [submitNext]
      refine ⟨?_, rfl, rfl, rfl, ?_, h.running⟩
      · rw [hwaiting] at hfiles
        refine hfiles.trans ?_
        rw [List.cons_append, List.append_assoc]
        refine (List.perm_middle).symm.trans (List.Perm.append_left _ ?_)
        exact List.perm_middle.symm
      · intro _
        have hbusy := h.busy (by simp [hwaiting])
        rw [hdone, List.length_cons] at hbusy
        show (s.pending ++ [next]).length + rest.length = slots
        rw [List.length_append, List.length_singleton]
        omega

/-! ## The end of a run -/

/-- What is left to do. -/
def remaining (s : UploadState) : Nat :=
  3 * s.waiting.length + 2 * s.pending.length + s.done.length

theorem remaining_submitNext (s : UploadState) : remaining (submitNext s) ≤ remaining s := by
  unfold submitNext
  cases hwaiting : s.waiting with
  | nil => rfl
  | cons t rest =>
    simp only [remaining, hwaiting, List.length_cons, List.length_append, List.length_nil]
    omega

theorem remaining_recordResult (h : recordResult forceUploadFile s t = some s') : remaining s' = remaining s := by
  unfold recordResult at h
  simp only at h
  split_ifs at h
  · cases hcall : t.add with
    | raises => simp [hcall] at h
    | malformed => simp [hcall] at h
    | empty =>
      rw [hcall] at h
      rw [← Option.some.inj h]
      rfl
    | response r =>
      rw [hcall] at h
      rw [← Option.some.inj h]
      rfl
  · rw [← Option.some.inj h]
    rfl

theorem remaining_step (h : Step forceUploadFile s s') : remaining s' < remaining s := by
  cases h with
  | @wait finished still hrunning hdone hsome hpending =>
    have hlen := hpending.length_eq
    have hpos : 0 < finished.length := List.length_pos_iff.mpr hsome
    rw [List.length_append] at hlen
    simp only [remaining, hdone, List.length_nil]
    omega
  | @take t rest hrunning hdone =>
    have hless : remaining { s with done := rest } < remaining s := by
      simp only [remaining, hdone, List.length_cons]
      omega
    unfold takeDone
    cases hrecord : recordResult forceUploadFile { s with done := rest } t with
    | none => exact hless
    | some s' =>
      have hsame := remaining_recordResult forceUploadFile hrecord
      have hnext := remaining_submitNext s'
      simp only
      omega

/-- No run goes on for ever. -/
theorem wellFounded_step : WellFounded fun s' s => Step forceUploadFile s s' :=
  Subrelation.wf (fun h => remaining_step forceUploadFile h) (measure remaining).wf

/-- A run that has not returned goes on. -/
theorem exists_step (hrunning : s.raised = false) (h : ¬ Returned s) :
    ∃ s', Step forceUploadFile s s' := by
  cases hdone : s.done with
  | cons t rest => exact ⟨_, Step.take hrunning hdone⟩
  | nil =>
    have hpending : s.pending ≠ [] := fun hnil => h ⟨hrunning, hnil, hdone⟩
    exact ⟨_, @Step.wait forceUploadFile s s.pending [] hrunning hdone hpending (by simp)⟩

/-! ## Accounting -/

/-- The items that the registration of a file has not accepted. -/
def failedItemsOf (t : Task) : List String :=
  if (uploadResult forceUploadFile t).success then
    match t.add with
    | .response r => r.failedItems
    | _ => []
  else []

/-- The number of failures that the registration of a file reports. -/
def failedCountOf (t : Task) : Int :=
  if (uploadResult forceUploadFile t).success then
    match t.add with
    | .response r => r.failed
    | _ => 0
  else 0

/-- The files of a result are those of the tasks, an uploaded file has been registered by a call that
returned, and what the registrations did not accept is reported. -/
structure Accounts (tasks : List Task) (r : UploadedFiles) : Prop where
  once : ((r.uploaded ++ r.failed).map UploadResult.localFile).Perm (tasks.map Task.file)
  registered : ∀ u ∈ r.uploaded, ∃ t ∈ tasks, t.file = u.localFile ∧
    uploadResult forceUploadFile t = u ∧ u.success = true ∧ t.add ≠ .raises ∧ t.add ≠ .malformed
  rejected : ∀ u ∈ r.failed, u.success = false
  failedItems : ((r.addResponse.map AddResponse.failedItems).getD []).Perm
    (tasks.flatMap (failedItemsOf forceUploadFile))
  failedCount : (r.addResponse.map AddResponse.failed).getD 0 =
    (tasks.map (failedCountOf forceUploadFile)).sum

theorem mergeTask_reports (acc : Option AddResponse) (t : Task) :
    ((mergeTask forceUploadFile acc t).map AddResponse.failedItems).getD [] =
        (acc.map AddResponse.failedItems).getD [] ++ failedItemsOf forceUploadFile t ∧
      ((mergeTask forceUploadFile acc t).map AddResponse.failed).getD 0 =
        (acc.map AddResponse.failed).getD 0 + failedCountOf forceUploadFile t := by
  unfold mergeTask failedItemsOf failedCountOf
  split_ifs
  · cases t.add <;> cases acc <;> simp [mergeAddResponse]
  · simp

/-- The merged answer reports what every registration has reported. -/
theorem foldl_mergeTask_reports (tasks : List Task) :
    ((tasks.foldl (mergeTask forceUploadFile) none).map AddResponse.failedItems).getD [] =
        tasks.flatMap (failedItemsOf forceUploadFile) ∧
      ((tasks.foldl (mergeTask forceUploadFile) none).map AddResponse.failed).getD 0 =
        (tasks.map (failedCountOf forceUploadFile)).sum := by
  induction tasks using List.reverseRecOn with
  | nil => exact ⟨rfl, rfl⟩
  | append_singleton tasks t ih =>
    rw [List.foldl_append, List.foldl_cons, List.foldl_nil]
    obtain ⟨hitems, hcount⟩ := mergeTask_reports forceUploadFile
      (tasks.foldl (mergeTask forceUploadFile) none) t
    rw [hitems, hcount, ih.1, ih.2]
    simp

theorem sortByRelativePath_perm (results : List UploadResult) :
    (sortByRelativePath results).Perm results :=
  List.mergeSort_perm ..

theorem mem_resultsOf {success : Bool} {u : UploadResult} :
    u ∈ resultsOf forceUploadFile success tasks ↔
      (∃ t ∈ tasks, uploadResult forceUploadFile t = u) ∧ u.success = success := by
  simp [resultsOf]

theorem resultsOf_perm (tasks : List Task) :
    (resultsOf forceUploadFile true tasks ++ resultsOf forceUploadFile false tasks).Perm
      (tasks.map (uploadResult forceUploadFile)) := by
  have hfalse : resultsOf forceUploadFile false tasks =
      (tasks.map (uploadResult forceUploadFile)).filter fun r => !(r.success == true) := by
    refine List.filter_congr fun r _ => ?_
    cases r.success <;> rfl
  rw [hfalse]
  exact List.filter_append_perm ..

theorem accounts_of_inv {concurrency : Nat} (hconcurrency : 1 ≤ concurrency)
    (hadd : ∀ t ∈ tasks, AddReturns forceUploadFile t)
    (h : Inv forceUploadFile tasks (min concurrency tasks.length) s processed)
    (hreturned : Returned s) : Accounts forceUploadFile tasks s.result := by
  obtain ⟨-, hpending, hdone⟩ := hreturned
  have hwaiting : s.waiting = [] := by
    by_contra hne
    have hbusy := h.busy hne
    have hlen := h.files.length_eq
    have hpos : 0 < s.waiting.length := List.length_pos_iff.mpr hne
    rw [hpending, hdone] at hbusy
    rw [List.length_append] at hlen
    simp only [List.length_nil] at hbusy
    omega
  have hprocessed : tasks.Perm processed := by
    have hfiles := h.files
    rwa [hwaiting, hpending, hdone] at hfiles
  have huploaded : s.result.uploaded.Perm (resultsOf forceUploadFile true processed) := by
    rw [← h.uploaded]
    exact sortByRelativePath_perm s.uploaded
  have hfailed : s.result.failed.Perm (resultsOf forceUploadFile false processed) := by
    rw [← h.failed]
    exact sortByRelativePath_perm s.failed
  have hreports := foldl_mergeTask_reports forceUploadFile processed
  rw [← h.response] at hreports
  constructor
  · have hall := ((huploaded.append hfailed).trans (resultsOf_perm forceUploadFile processed)).map
      UploadResult.localFile
    rw [List.map_map] at hall
    have hfile : UploadResult.localFile ∘ uploadResult forceUploadFile = Task.file :=
      funext fun t => localFile_uploadResult forceUploadFile t
    rw [hfile] at hall
    exact hall.trans (hprocessed.map Task.file).symm
  · intro u hu
    obtain ⟨⟨t, ht, rfl⟩, hsuccess⟩ :=
      (mem_resultsOf forceUploadFile).mp (huploaded.mem_iff.mp hu)
    have hmem := hprocessed.mem_iff.mpr ht
    exact ⟨t, hmem, (localFile_uploadResult forceUploadFile t).symm, rfl, hsuccess,
      hadd t hmem hsuccess⟩
  · intro u hu
    exact ((mem_resultsOf forceUploadFile).mp (hfailed.mem_iff.mp hu)).2
  · show ((s.addResponse.map AddResponse.failedItems).getD []).Perm _
    rw [hreports.1]
    exact (hprocessed.flatMap_right _).symm
  · show (s.addResponse.map AddResponse.failed).getD 0 = _
    rw [hreports.2]
    exact (hprocessed.map _).sum_eq.symm

/-- A file whose upload succeeds. -/
def guideTask (add : AddOutcome) : Task where
  file := { path := "/docs/guide.md", relativePath := "guide.md", extension := ".md", size := 12 }
  documentExists := some false
  upload _ := .data "kb/guide.md" "" "9f86d081" 12
  add := add

theorem exists_run_of_one (t : Task) : Relation.ReflTransGen (Step false) (initialState [t] 1)
      (takeDone false { UploadState.start [] with done := [t] } t []) := by
  have hwait : Step false (initialState [t] 1) { UploadState.start [] with done := [t] } :=
    @Step.wait false (initialState [t] 1) [t] [] rfl rfl (by simp) (by
      rw [initialState, submitMany_spec _ _ (by simp [UploadState.start])]
      simp [UploadState.start])
  have htake : Step false { UploadState.start [] with done := [t] }
      (takeDone false { UploadState.start [] with done := [t] } t []) :=
    Step.take rfl rfl
  exact (Relation.ReflTransGen.single hwait).tail htake

theorem not_step_of_returned (h : Returned s) : ¬ Step forceUploadFile s s' := by
  intro hstep
  cases hstep with
  | @wait finished still hrunning hdone hsome hpending =>
    rw [h.2.1, List.nil_perm] at hpending
    exact hsome (List.append_eq_nil_iff.mp hpending).1
  | @take t rest hrunning hdone =>
    rw [h.2.2] at hdone
    exact absurd hdone (by simp)

def acceptedAnswer : AddResponse where
  items := ["kb/guide.md"]
  failedItems := []
  added := 1
  failed := 0
  status := "success"
  message := ""

def rejectedAnswer : AddResponse where
  items := []
  failedItems := ["kb/guide.md"]
  added := 0
  failed := 1
  status := "failed"
  message := ""

/-- The account in which only files that the registration has accepted are uploaded. -/
def AccountsStrictly (tasks : List Task) (s : UploadState) : Prop :=
  Returned s ∧ ((s.result.uploaded ++ s.result.failed).map UploadResult.localFile).Perm
      (tasks.map Task.file) ∧
    ∀ u ∈ s.result.uploaded, ∃ t ∈ tasks, uploadResult false t = u ∧
      ∃ r, t.add = .response r ∧ u.filePath ∉ r.failedItems

end Yuanlei.KbUpload
