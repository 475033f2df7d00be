import Yuanlei.Stream.RunStream

/-!
# What the event stream delivers

Every entry of the stream that the client gets comes once and in order, with no gap behind
the cursor it started from.  An `end` event that was read from the stream comes after
everything that was appended before the terminal status was committed.  The one that the
generator makes itself may come too early: the run is reloaded after the round's read, so
what the worker appended between the two is neither read nor waited for.

Main results:

- `stream_delivers`: nothing is lost in a run in which no status check follows an
  empty read with an append and the commit in between.
- `late_event_is_lost`: a run with such a check loses the event.
-/

universe u

open Json (Dict)

namespace Yuanlei

variable {F : Type u} (floats : Floats F) (settings : SseSettings) (runId : RunId)

/-! ## The property -/

/-- The frame of an entry of the stream. -/
def entryFrame (verbose : Bool) (entry : EventId × StreamFields) : Option (Frame F) :=
  rowFrame floats verbose (decodeRunStreamRow floats runId entry)

/-- Every entry after `afterSeq` that was appended before the terminal status was committed
has its frame, unless it is an empty agent state and the client is not verbose. -/
def Complete (log : EventLog EventId StreamFields) (committed : Option Nat) (c : Connection F)
    (frames : List (Frame F)) : Prop :=
  ∃ n, committed = some n ∧ ∀ entry ∈ log.entries.take n, c.afterSeq < entry.1 →
    (c.verbose = false ∧
      emptyAgentStateEvent floats (decodeRunStreamRow floats runId entry).payload) ∨
    ∃ frame ∈ frames, frame.eventId = some entry.1

/-- What a client may rely on: the entries of the stream come in order, without duplicates and
without gaps, and everything from before the terminal status comes before an `end` event. -/
structure Delivers (log : EventLog EventId StreamFields) (committed : Option Nat)
    (c : Connection F) : Prop where
  increasing : (c.frames.filterMap Frame.eventId).Pairwise (· < ·)
  contiguous : c.frames.filter (fun frame => frame.eventId.isSome) =
    (log.between c.afterSeq c.lastSeq).filterMap (entryFrame floats runId c.verbose)
  complete : ∀ before frame after, c.frames = before ++ frame :: after → frame.isEnd →
    Complete floats runId log committed c before

variable {floats runId} {entry : EventId × StreamFields} {verbose : Bool}

/-- An entry without a frame is an empty agent state, for a client that is not verbose. -/
theorem entryFrame_eq_none :
    entryFrame floats runId verbose entry = none ↔ verbose = false ∧
      emptyAgentStateEvent floats (decodeRunStreamRow floats runId entry).payload := by
  unfold entryFrame rowFrame
  cases verbose with
  | true => simp
  | false => simp [compactRunEventEnvelope_eq_none]

variable {frame : Frame F}

theorem entryFrame_eq_some (h : entryFrame floats runId verbose entry = some frame) :
    frame.eventId = some entry.1 ∧
      frame.isEnd = ((decodeRunStreamRow floats runId entry).eventType == "end") := by
  obtain ⟨data, -, rfl⟩ := Option.map_eq_some_iff.mp h
  exact ⟨rfl, rfl⟩

/-! ## The invariant of the client -/

/-- The round's read was empty. -/
def Phase.emptyRead : Phase F → Bool
  | .emitting _ empty _ | .polled empty | .checked empty => empty
  | .reading | .finished => false

/-- The round's read is done and its status check is not. -/
def Phase.beforeCheck : Phase F → Bool
  | .emitting _ _ _ | .polled _ => true
  | .reading | .checked _ | .finished => false

variable (floats runId)

/-- What holds of a client between any two steps. -/
structure Following (log : EventLog EventId StreamFields) (committed : Option Nat)
    (c : Connection F) : Prop where
  low : c.afterSeq ≤ c.lastSeq
  cursor : c.afterSeq = c.lastSeq ∨ ∃ entry ∈ log.entries, entry.1 = c.lastSeq
  contiguous : c.frames.filter (fun frame => frame.eventId.isSome) =
    (log.between c.afterSeq c.lastSeq).filterMap (entryFrame floats runId c.verbose)
  complete : ∀ before frame after, c.frames = before ++ frame :: after → frame.isEnd →
    Complete floats runId log committed c before
  /-- What is left of the batch is the front of what lies after the cursor. -/
  batch : ∀ {rest empty terminal}, c.phase = .emitting rest empty terminal →
    ∃ entries, rest = entries.map (decodeRunStreamRow floats runId) ∧
      entries <+: log.after c.lastSeq
  readLe : c.readCount ≤ log.entries.length
  emptyRead : c.phase.emptyRead → ∀ entry ∈ log.entries.take c.readCount, entry.1 ≤ c.lastSeq
  /-- A finished run was committed before it was loaded. -/
  known : ∀ run ∈ c.run, run.status.isTerminal → committed.isSome
  knownRead : c.phase.beforeCheck → ∀ run ∈ c.run, run.status.isTerminal →
    ∃ n ∈ committed, n ≤ c.readCount
  knownChecked : c.phase = .checked true → ∀ run ∈ c.run, run.isSettled →
    ∃ n ∈ committed, n ≤ c.readCount

variable {floats runId} {log : EventLog EventId StreamFields} {committed : Option Nat}
  {c : Connection F}

section

variable (h : Following floats runId log committed c)
include h

/-- The ids of the frames are those of a part of the log. -/
theorem Following.delivers :
    Delivers floats runId log committed c where
  increasing := by
    have hids : c.frames.filterMap Frame.eventId =
        (c.frames.filter fun frame => frame.eventId.isSome).filterMap Frame.eventId := by
      rw [List.filterMap_filter]
      refine List.filterMap_congr fun frame _ => ?_
      cases frame.eventId <;> rfl
    rw [hids, h.contiguous, List.filterMap_filterMap, List.pairwise_filterMap]
    refine (log.between_sorted _ _).imp fun {e e'} hlt id hid id' hid' => ?_
    obtain ⟨frame, hframe, hid⟩ := Option.bind_eq_some_iff.mp hid
    obtain ⟨frame', hframe', hid'⟩ := Option.bind_eq_some_iff.mp hid'
    rw [(entryFrame_eq_some hframe).1] at hid
    rw [(entryFrame_eq_some hframe').1] at hid'
    cases hid
    cases hid'
    exact hlt
  contiguous := h.contiguous
  complete := h.complete

theorem Following.delivered (hentry : entry ∈ log.entries) (hafter : c.afterSeq < entry.1)
    (hpassed : entry.1 ≤ c.lastSeq) :
    (c.verbose = false ∧
      emptyAgentStateEvent floats (decodeRunStreamRow floats runId entry).payload) ∨
    ∃ frame ∈ c.frames, frame.eventId = some entry.1 := by
  cases hframe : entryFrame floats runId c.verbose entry with
  | none => exact .inl (entryFrame_eq_none.mp hframe)
  | some frame =>
    have hmem : frame ∈ c.frames.filter fun frame => frame.eventId.isSome := by
      rw [h.contiguous]
      exact List.mem_filterMap.mpr
        ⟨entry, EventLog.mem_between.mpr ⟨hentry, hafter, hpassed⟩, hframe⟩
    exact .inr ⟨frame, (List.mem_filter.mp hmem).1, (entryFrame_eq_some hframe).1⟩

/-! ## Steps of the others -/

theorem Following.commit {committed' : Option Nat} (hkeep : ∀ n ∈ committed, committed' = some n) :
    Following floats runId log committed' c where
  low := h.low
  cursor := h.cursor
  contiguous := h.contiguous
  complete := by
    intro before frame after heq hend
    obtain ⟨n, hn, hentries⟩ := h.complete before frame after heq hend
    exact ⟨n, hkeep n hn, hentries⟩
  batch := h.batch
  readLe := h.readLe
  emptyRead := h.emptyRead
  known := by
    intro run hrun hterminal
    obtain ⟨n, hn⟩ := Option.isSome_iff_exists.mp (h.known run hrun hterminal)
    rw [hkeep n hn]
    rfl
  knownRead := by
    intro hphase run hrun hterminal
    obtain ⟨n, hn, hle⟩ := h.knownRead hphase run hrun hterminal
    exact ⟨n, hkeep n hn, hle⟩
  knownChecked := by
    intro hphase run hrun hsettled
    obtain ⟨n, hn, hle⟩ := h.knownChecked hphase run hrun hsettled
    exact ⟨n, hkeep n hn, hle⟩

theorem Following.append
    (hle : ∀ n ∈ committed, n ≤ log.entries.length) {id : EventId} {fields : StreamFields}
    (hfresh : log.Fresh id) : Following floats runId (log.append id fields hfresh) committed c where
  low := h.low
  cursor := by
    refine h.cursor.imp_right ?_
    rintro ⟨entry, hentry, hid⟩
    exact ⟨entry, List.mem_append_left _ hentry, hid⟩
  contiguous := by
    rw [EventLog.between_append hfresh, h.contiguous]
    refine h.cursor.imp_right ?_
    rintro ⟨entry, hentry, hid⟩
    rw [← hid]
    exact hfresh entry hentry
  complete := by
    intro before frame after heq hend
    obtain ⟨n, hn, hentries⟩ := h.complete before frame after heq hend
    refine ⟨n, hn, ?_⟩
    rw [EventLog.append, List.take_append_of_le_length (hle n hn)]
    exact hentries
  batch := by
    intro rest empty terminal hphase
    obtain ⟨entries, hrest, hprefix⟩ := h.batch hphase
    exact ⟨entries, hrest, hprefix.trans (EventLog.after_prefix_append hfresh)⟩
  readLe := by
    rw [EventLog.append, List.length_append]
    exact Nat.le_add_right_of_le h.readLe
  emptyRead := by
    rw [EventLog.append, List.take_append_of_le_length h.readLe]
    exact h.emptyRead
  known := h.known
  knownRead := h.knownRead
  knownChecked := h.knownChecked

/-! ## Steps of the client -/

theorem Following.finish :
    Following floats runId log committed { c with phase := .finished } where
  low := h.low
  cursor := h.cursor
  contiguous := h.contiguous
  complete := h.complete
  batch := nofun
  readLe := h.readLe
  emptyRead := nofun
  known := h.known
  knownRead := nofun
  knownChecked := nofun

end

variable {last : Frame F}

theorem eq_or_exists_of_concat {frames before after : List (Frame F)}
    (h : frames ++ [last] = before ++ frame :: after) :
    (frame = last ∧ before = frames) ∨ ∃ after', frames = before ++ frame :: after' := by
  rcases List.eq_nil_or_concat after with rfl | ⟨after', last', rfl⟩
  · obtain ⟨hframes, hlast⟩ := List.append_inj' h rfl
    exact .inl ⟨(List.singleton_inj.mp hlast).symm, hframes.symm⟩
  · rw [List.concat_eq_append, ← List.cons_append, ← List.append_assoc] at h
    exact .inr ⟨after', (List.append_inj' h rfl).1⟩

theorem Following.yield (h : Following floats runId log committed c) (hid : last.eventId = none)
    (hend : last.isEnd → Complete floats runId log committed c c.frames) :
    Following floats runId log committed (c.yield last) where
  low := h.low
  cursor := h.cursor
  contiguous := by
    simp only [Connection.yield, List.filter_append]
    rw [List.filter_cons_of_neg (by simp [hid]), List.filter_nil, List.append_nil]
    exact h.contiguous
  complete := by
    intro before frame after heq hframe
    rcases eq_or_exists_of_concat heq with ⟨rfl, rfl⟩ | ⟨after', heq'⟩
    · exact hend hframe
    · exact h.complete before frame after' heq' hframe
  batch := h.batch
  readLe := h.readLe
  emptyRead := h.emptyRead
  known := h.known
  knownRead := h.knownRead
  knownChecked := h.knownChecked

theorem Following.fail (h : Following floats runId log committed c) (id : RunId) (message : String)
    (reason : Option String) : Following floats runId log committed (c.fail id message reason) :=
  (h.yield rfl (fun hend => by cases hend)).finish

variable (floats runId)

/-- What holds of the database and the stream between any two steps. -/
structure StreamWorld (db : Database) (log : EventLog EventId StreamFields)
    (committed : Option Nat) : Prop where
  positive : ∀ entry ∈ log.entries, EventId.zero < entry.1
  committedLe : ∀ n ∈ committed, n ≤ log.entries.length
  committedIff : committed.isSome = runFinished db runId
  /-- An `end` event was appended after the terminal status was committed. -/
  endsLate : ∀ entry ∈ log.entries, (decodeRunStreamRow floats runId entry).eventType = "end" →
    ∃ n ∈ committed, entry ∈ log.entries.drop n

variable {floats runId}

/-- A read takes the front of what lies after the cursor. -/
theorem listRunStreamEvents_eq (hpositive : ∀ entry ∈ log.entries, EventId.zero < entry.1)
    (afterSeq : EventId)
    (limit : Nat) : listRunStreamEvents floats runId log afterSeq limit =
      ((log.after afterSeq).take limit).map (decodeRunStreamRow floats runId) := by
  unfold listRunStreamEvents
  split_ifs with hzero
  · have hall : log.after afterSeq = log.entries := by
      rw [hzero, EventLog.after, List.filter_eq_self]
      simpa using fun a b c hentry => hpositive (toLex (a, b), c) hentry
    rw [hall]
  · rfl

variable {db : Database}

section

variable (h : Following floats runId log committed c)
include h

theorem Following.read
    (hw : StreamWorld floats runId db log committed) {limit : Nat} (hlimit : 0 < limit) :
    Following floats runId log committed
      { c with
        phase := .emitting (listRunStreamEvents floats runId log c.lastSeq limit)
          (listRunStreamEvents floats runId log c.lastSeq limit).isEmpty false
        readCount := log.entries.length } where
  low := h.low
  cursor := h.cursor
  contiguous := h.contiguous
  complete := h.complete
  batch := by
    rintro rest empty terminal ⟨⟩
    exact ⟨_, listRunStreamEvents_eq hw.positive _ _, List.take_prefix _ _⟩
  readLe := Nat.le_refl _
  emptyRead := by
    intro hempty entry hentry
    rw [List.take_length] at hentry
    simp only [Phase.emptyRead, listRunStreamEvents_eq hw.positive, List.isEmpty_iff,
      List.map_eq_nil_iff, List.take_eq_nil_iff] at hempty
    have hnone := hempty.resolve_left (by omega)
    by_contra hlt
    have hmem := EventLog.mem_after.mpr ⟨hentry, not_le.mp hlt⟩
    rw [hnone] at hmem
    cases hmem
  known := h.known
  knownRead := by
    intro _ run hrun hterminal
    obtain ⟨n, hn⟩ := Option.isSome_iff_exists.mp (h.known run hrun hterminal)
    exact ⟨n, hn, hw.committedLe n hn⟩
  knownChecked := nofun

theorem Following.complete_of_end
    (hw : StreamWorld floats runId db log committed) {rest : List (EventId × StreamFields)}
    (hnext : log.after c.lastSeq = entry :: rest)
    (hend : (decodeRunStreamRow floats runId entry).eventType = "end") :
    Complete floats runId log committed c c.frames := by
  have hentry : entry ∈ log.after c.lastSeq := hnext ▸ List.mem_cons_self
  obtain ⟨n, hn, hdrop⟩ := hw.endsLate entry (EventLog.mem_after.mp hentry).1 hend
  refine ⟨n, hn, fun e he hafter => ?_⟩
  have hlt := EventLog.lt_of_mem_take he hdrop
  have hmem : e ∈ log.between c.afterSeq entry.1 :=
    EventLog.mem_between.mpr ⟨List.mem_of_mem_take he, hafter, hlt.le⟩
  rw [(EventLog.between_next h.low hnext).1, List.mem_append, List.mem_singleton] at hmem
  rcases hmem with hread | rfl
  · obtain ⟨hlog, -, hpassed⟩ := EventLog.mem_between.mp hread
    exact h.delivered hlog hafter hpassed
  · exact absurd hlt (lt_irrefl _)

variable {rest : List (RunEventRow F)} {empty terminal : Bool}

/-- Yielding the next entry of the batch, or dropping it. -/
theorem Following.emit (hw : StreamWorld floats runId db log committed) {row : RunEventRow F}
    (hphase : c.phase = .emitting (row :: rest) empty terminal) (terminal' : Bool) :
    Following floats runId log committed
      { c with
        frames := c.frames ++ (rowFrame floats c.verbose row).toList
        lastSeq := row.seq
        phase := .emitting rest empty terminal' } := by
  obtain ⟨entries, hrows, hprefix⟩ := h.batch hphase
  obtain ⟨entry, entries, rfl⟩ : ∃ e es, entries = e :: es := by
    cases entries with
    | nil => cases hrows
    | cons e es => exact ⟨e, es, rfl⟩
  obtain ⟨rfl, rfl⟩ := hrows
  obtain ⟨later, hlater⟩ := hprefix
  have hnext : log.after c.lastSeq = entry :: (entries ++ later) := hlater.symm
  obtain ⟨hbetween, hrest⟩ := EventLog.between_next h.low hnext
  have hentry := EventLog.mem_after.mp (hnext ▸ List.mem_cons_self)
  have hseq : (decodeRunStreamRow floats runId entry).seq = entry.1 := rfl
  have hframe : rowFrame floats c.verbose (decodeRunStreamRow floats runId entry) =
      entryFrame floats runId c.verbose entry := rfl
  rw [hseq, hframe]
  exact {
    low := h.low.trans hentry.2.le
    cursor := .inr ⟨entry, hentry.1, rfl⟩
    contiguous := by
      simp only [List.filter_append, hbetween, List.filterMap_append, h.contiguous]
      congr 1
      cases hcase : entryFrame floats runId c.verbose entry with
      | none => simp [hcase]
      | some frame => simp [hcase, (entryFrame_eq_some hcase).1]
    complete := by
      intro before frame after heq hend
      cases hcase : entryFrame floats runId c.verbose entry with
      | none =>
        simp only [hcase, Option.toList_none, List.append_nil] at heq
        exact h.complete before frame after heq hend
      | some last =>
        simp only [hcase, Option.toList_some] at heq
        rcases eq_or_exists_of_concat heq with ⟨rfl, rfl⟩ | ⟨after', heq'⟩
        · rw [(entryFrame_eq_some hcase).2, beq_iff_eq] at hend
          exact h.complete_of_end hw hnext hend
        · exact h.complete before frame after' heq' hend
    batch := by
      rintro rest' empty' terminal'' ⟨⟩
      exact ⟨entries, rfl, by rw [hrest]; exact List.prefix_append _ _⟩
    readLe := h.readLe
    emptyRead := by
      intro hempty e he
      refine (h.emptyRead ?_ e he).trans hentry.2.le
      rw [hphase]
      exact hempty
    known := h.known
    knownRead := fun _ => h.knownRead (by rw [hphase]; rfl)
    knownChecked := nofun }

theorem Following.poll (hphase : c.phase = .emitting rest empty terminal) :
    Following floats runId log committed { c with phase := .polled empty } where
  low := h.low
  cursor := h.cursor
  contiguous := h.contiguous
  complete := h.complete
  batch := nofun
  readLe := h.readLe
  emptyRead := fun hempty => h.emptyRead (by rw [hphase]; exact hempty)
  known := h.known
  knownRead := fun _ => h.knownRead (by rw [hphase]; rfl)
  knownChecked := nofun

/-- Going on to the next phase of a round: a settled run that an empty round goes on with was
committed with nothing appended after the round's read. -/
theorem Following.check (hphase : c.phase = .polled empty) {run : Option AgentRun} {next : Time}
    (hknown : ∀ r ∈ run, r.status.isTerminal → committed.isSome)
    (hsettled : empty = true → ∀ r ∈ run, r.isSettled → ∃ n ∈ committed, n ≤ c.readCount) :
    Following floats runId log committed
      { c with run := run, nextStatusCheckAt := next, phase := .checked empty } where
  low := h.low
  cursor := h.cursor
  contiguous := h.contiguous
  complete := h.complete
  batch := nofun
  readLe := h.readLe
  emptyRead := fun hempty => h.emptyRead (by rw [hphase]; exact hempty)
  known := hknown
  knownRead := nofun
  knownChecked := by
    rintro ⟨⟩
    exact hsettled rfl

/-- The `end` event that is made from the database comes after everything from before the
terminal status. -/
theorem Following.complete_of_settled
    (hphase : c.phase = .checked true) {run : AgentRun} (hrun : c.run = some run)
    (hsettled : run.isSettled) : Complete floats runId log committed c c.frames := by
  obtain ⟨n, hn, hle⟩ := h.knownChecked hphase run hrun hsettled
  refine ⟨n, hn, fun entry hentry hafter => ?_⟩
  have hread : entry ∈ log.entries.take c.readCount :=
    (List.take_prefix_take_left hle).subset hentry
  exact h.delivered (List.mem_of_mem_take hentry) hafter
    (h.emptyRead (by rw [hphase]; rfl) entry hread)

theorem Following.nextRound (beat : Time)
    {frames : List (Frame F)} (hframes : frames = c.frames ∨ frames = c.frames ++ [.heartbeat]) :
    Following floats runId log committed
      { c with frames := frames, lastHeartbeat := beat, phase := .reading } := by
  have hidle : ∀ {c : Connection F}, Following floats runId log committed c →
      Following floats runId log committed { c with lastHeartbeat := beat, phase := .reading } :=
    fun h =>
      { low := h.low
        cursor := h.cursor
        contiguous := h.contiguous
        complete := h.complete
        batch := nofun
        readLe := h.readLe
        emptyRead := nofun
        known := h.known
        knownRead := nofun
        knownChecked := nofun }
  rcases hframes with rfl | rfl
  · exact hidle h
  · exact hidle (h.yield (show (Frame.heartbeat : Frame F).eventId = none from rfl) nofun)

end

/-- The round's read was empty and its status check is due next. -/
def Phase.polledEmpty : Phase F → Bool
  | .polled empty => empty
  | _ => false

/-- A status check that follows an empty read and finds the run settled: the stream had no more
entries when the terminal status was committed than when it was read. -/
def ChecksInTime (db : Database) (committed : Option Nat) (c : Connection F) (runId : RunId)
    (now : Time) : Prop :=
  c.phase.polledEmpty → c.nextStatusCheckAt ≤ now →
    ∀ run ∈ db.runs.get runId, run.isSettled → ∀ n ∈ committed, n ≤ c.readCount

instance (db : Database) (committed : Option Nat) (c : Connection F) (runId : RunId)
    (now : Time) : Decidable (ChecksInTime db committed c runId now) :=
  inferInstanceAs (Decidable (c.phase.polledEmpty → c.nextStatusCheckAt ≤ now →
    ∀ run ∈ db.runs.get runId, run.isSettled → ∀ n ∈ committed, n ≤ c.readCount))

/-- The condition on a step of the client. -/
def ClientInTime (db : Database) (committed : Option Nat) (c : Connection F) (runId : RunId) :
    ClientAction → Prop
  | .check now _ => ChecksInTime db committed c runId now
  | _ => True

instance (db : Database) (committed : Option Nat) (c : Connection F) (runId : RunId) :
    ∀ action, Decidable (ClientInTime db committed c runId action)
  | .check now _ => inferInstanceAs (Decidable (ChecksInTime db committed c runId now))
  | .read | .readFails | .emit | .checkFails _ | .decide _ _ | .disconnect =>
    inferInstanceAs (Decidable True)

theorem clientStep_following (h : Following floats runId log committed c)
    (hw : StreamWorld floats runId db log committed) {action : ClientAction}
    (hguard : ClientInTime db committed c runId action) :
    Following floats runId log committed (clientStep floats settings runId db log c action) := by
  cases action with
  | read =>
    simp only [clientStep]
    split
    · exact h.read hw (by decide)
    · exact h
  | readFails =>
    simp only [clientStep]
    split
    · exact h.fail _ _ _
    · exact h
  | emit =>
    simp only [clientStep]
    split
    · rename_i empty terminal hphase
      cases terminal with
      | true => exact h.finish
      | false => exact h.poll hphase
    · rename_i row rest empty terminal hphase
      split
      · rename_i hframe
        simpa [hframe] using h.emit hw hphase terminal
      · rename_i frame hframe
        simpa [hframe, Connection.yield] using h.emit hw hphase
          (terminal || row.eventType == "end")
    · exact h
  | check now later =>
    simp only [clientStep]
    split
    · rename_i empty hphase
      split_ifs with hdue
      · split
        · exact h.fail _ _ _
        · rename_i run hrun
          have hfinished : run.status.isTerminal → committed.isSome := by
            intro hterminal
            rw [hw.committedIff, runFinished, hrun]
            simpa using hterminal
          refine h.check hphase ?_ ?_
          · rintro r ⟨⟩ hterminal
            exact hfinished hterminal
          · rintro rfl r ⟨⟩ hsettled
            have hterminal : run.status.isTerminal := by
              simp only [AgentRun.isSettled, Bool.and_eq_true] at hsettled
              exact hsettled.1
            obtain ⟨n, hn⟩ := Option.isSome_iff_exists.mp (hfinished hterminal)
            exact ⟨n, hn, hguard (by rw [hphase]; rfl) hdue run hrun hsettled n hn⟩
      · refine h.check hphase h.known ?_
        intro _ r hr hsettled
        simp only [AgentRun.isSettled, Bool.and_eq_true] at hsettled
        exact h.knownRead (by rw [hphase]; rfl) r hr hsettled.1
    · exact h
  | checkFails now =>
    simp only [clientStep]
    split
    · split_ifs
      · exact h.fail _ _ _
      · exact h
    · exact h
  | decide createdAt now =>
    simp only [clientStep]
    split
    · rename_i empty run hphase hrun
      split_ifs with hsettled hbeat hexpired hexpired
      · simp only [Bool.and_eq_true] at hsettled
        obtain ⟨hsettled, rfl⟩ := hsettled
        exact (h.yield rfl fun _ => h.complete_of_settled hphase hrun hsettled).finish
      · exact (h.nextRound now (.inr rfl)).finish
      · exact h.nextRound now (.inr rfl)
      · exact (h.nextRound _ (.inl (by simp))).finish
      · exact h.nextRound _ (.inl (by simp))
    · exact h
  | disconnect => exact h.finish

/-! ## Runs of the system -/

/-- The condition on a step: a status check that follows an empty read and finds the run settled
comes with no append between that read and the commit of the terminal status. -/
def NoLateEvent (runId : RunId) (s : StreamSystem F) : StreamLabel F → Prop
  | .client action => ∀ c ∈ s.client, ClientInTime s.services.db s.committed c runId action
  | _ => True

instance (runId : RunId) (s : StreamSystem F) : ∀ label, Decidable (NoLateEvent runId s label)
  | .client action => inferInstanceAs
      (Decidable (∀ c ∈ s.client, ClientInTime s.services.db s.committed c runId action))
  | .service _ | .append .. | .connect .. | .connectFails .. => inferInstanceAs (Decidable True)

variable (floats runId)

/-- The invariant of the system. -/
structure StreamInv (s : StreamSystem F) : Prop where
  world : StreamWorld floats runId s.services.db s.log s.committed
  client : ∀ c ∈ s.client, Following floats runId s.log s.committed c

variable {floats runId}

theorem streamInv_initial : StreamInv floats runId (StreamSystem.initial : StreamSystem F) where
  world :=
    { positive := List.forall_mem_nil _
      committedLe := by simp [StreamSystem.initial]
      committedIff := rfl
      endsLate := List.forall_mem_nil _ }
  client := by simp [StreamSystem.initial]

theorem runFinished_keeps {db' : Database} (h : KeepsTerminal db db')
    (hfinished : runFinished db runId) : runFinished db' runId := by
  unfold runFinished at *
  obtain ⟨run, hrun, hterminal⟩ := Option.any_eq_true _ _ |>.mp hfinished
  obtain ⟨run', hrun', hterminal'⟩ := h runId run hrun hterminal
  simp [hrun', hterminal']

/-- A client that has just connected has got nothing. -/
theorem following_openConnection (afterSeq : EventId) (verbose : Bool)
    (startedAt startedMonotonic : Time)
    (run : Option AgentRun) (hknown : ∀ r ∈ run, r.status.isTerminal → committed.isSome) :
    Following floats runId log committed
      { (openConnection afterSeq verbose startedAt startedMonotonic : Connection F) with
        run := run } where
  low := le_refl _
  cursor := .inl rfl
  contiguous := by simp [openConnection]
  complete := by simp [openConnection]
  batch := nofun
  readLe := Nat.zero_le _
  emptyRead := nofun
  known := hknown
  knownRead := nofun
  knownChecked := nofun

variable {s : StreamSystem F}

section

variable (h : StreamInv floats runId s)
include h

theorem service_inv (e : ServiceEvent) :
    StreamInv floats runId (streamStep floats settings runId s (.service e)) := by
  have hkeeps := serviceStep_keepsTerminal s.services e
  have hiff := h.world.committedIff
  simp only [streamStep]
  cases hcommitted : s.committed with
  | some n =>
    rw [hcommitted] at hiff
    have hfinished := runFinished_keeps hkeeps (hiff.symm.trans rfl)
    simp only [Option.isNone_some, Bool.false_and, Bool.false_eq_true, if_false]
    rw [← hcommitted]
    refine ⟨⟨h.world.positive, h.world.committedLe, ?_, h.world.endsLate⟩, h.client⟩
    rw [hcommitted, hfinished]
    rfl
  | none =>
    have hcommit : ∀ committed' : Option Nat, ∀ n ∈ s.committed, committed' = some n := by
      simp [hcommitted]
    split_ifs with hfinished
    · refine ⟨⟨h.world.positive, ?_, ?_, ?_⟩, fun c hc => (h.client c hc).commit (hcommit _)⟩
      · rintro n ⟨⟩
        exact Nat.le_refl _
      · exact hfinished.symm
      · intro entry hentry hend
        obtain ⟨n, hn, -⟩ := h.world.endsLate entry hentry hend
        rw [hcommitted] at hn
        cases hn
    · refine ⟨⟨h.world.positive, nofun, ?_, ?_⟩, fun c hc => (h.client c hc).commit (hcommit _)⟩
      · simpa using hfinished
      · rw [← hcommitted]
        exact h.world.endsLate

theorem append_inv (id : EventId)
    (eventType : String) (payload : Dict F) (threadId : Option String) (createdAt : String) :
    StreamInv floats runId
      (streamStep floats settings runId s (.append id eventType payload threadId createdAt)) := by
  simp only [streamStep]
  split_ifs with hfresh hallowed
  · obtain ⟨hpositive, hend⟩ := hallowed
    refine ⟨⟨?_, ?_, h.world.committedIff, ?_⟩, fun c hc =>
      (h.client c hc).append h.world.committedLe hfresh⟩
    · intro entry hentry
      rcases List.mem_append.mp hentry with hold | hnew
      · exact h.world.positive entry hold
      · rw [List.mem_singleton.mp hnew]
        exact hpositive
    · intro n hn
      rw [EventLog.append, List.length_append]
      exact Nat.le_add_right_of_le (h.world.committedLe n hn)
    · intro entry hentry htype
      rcases List.mem_append.mp hentry with hold | hnew
      · obtain ⟨n, hn, hdrop⟩ := h.world.endsLate entry hold htype
        refine ⟨n, hn, ?_⟩
        rw [EventLog.append, List.drop_append_of_le_length (h.world.committedLe n hn)]
        exact List.mem_append_left _ hdrop
      · rw [List.mem_singleton] at hnew
        subst hnew
        rw [decodeRunStreamRow_appendFields] at htype
        have hname : eventType = "end" := by
          simp only at htype
          split_ifs at htype
          · exact absurd htype (by decide)
          · exact htype
        have hsome := h.world.committedIff
        rw [hend hname] at hsome
        obtain ⟨n, hn⟩ := Option.isSome_iff_exists.mp hsome
        refine ⟨n, hn, ?_⟩
        rw [EventLog.append, List.drop_append_of_le_length (h.world.committedLe n hn)]
        exact List.mem_append_right _ List.mem_cons_self
  · exact h
  · exact h

theorem streamStep_inv {label : StreamLabel F} (hguard : NoLateEvent runId s label) :
    StreamInv floats runId (streamStep floats settings runId s label) := by
  cases label with
  | service e => exact service_inv settings h e
  | append id eventType payload threadId createdAt =>
    exact append_inv settings h id eventType payload threadId createdAt
  | connect currentUid afterSeq verbose startedAt startedMonotonic =>
    simp only [streamStep]
    split
    · exact h
    · split
      · refine ⟨h.world, ?_⟩
        rintro c ⟨⟩
        exact (following_openConnection _ _ _ _ none (by simp)).fail _ _ _
      · rename_i run hrun
        refine ⟨h.world, ?_⟩
        rintro c ⟨⟩
        refine following_openConnection _ _ _ _ _ ?_
        rintro r ⟨⟩ hterminal
        obtain ⟨hget, -⟩ := Database.getRunForUser_eq_some hrun
        rw [h.world.committedIff, runFinished, hget]
        simpa using hterminal
  | connectFails afterSeq verbose startedAt startedMonotonic =>
    simp only [streamStep]
    split
    · exact h
    · refine ⟨h.world, ?_⟩
      rintro c ⟨⟩
      exact (following_openConnection _ _ _ _ none (by simp)).fail _ _ _
  | client action =>
    simp only [streamStep]
    split
    · exact h
    · rename_i c hc
      refine ⟨h.world, ?_⟩
      rintro c' ⟨⟩
      exact clientStep_following settings (h.client c hc) h.world (hguard c hc)

end

/-- Nothing is lost in a run in which no status check finds the run settled after an empty read
with an append and the commit in between: the client gets the entries of the stream in order,
without duplicates and without gaps, and before an `end` event it has got everything that
was appended before the terminal status was committed. -/
theorem stream_delivers (labels : List (StreamLabel F))
    (htime : Transition.Guarded (streamStep floats settings runId) (NoLateEvent runId)
      StreamSystem.initial labels) :
    ∀ c ∈ (Transition.exec (streamStep floats settings runId) StreamSystem.initial labels).client,
      Delivers floats runId
        (Transition.exec (streamStep floats settings runId) StreamSystem.initial labels).log
        (Transition.exec (streamStep floats settings runId) StreamSystem.initial labels).committed
        c := by
  have h := Transition.exec_invariant_of_guarded (streamStep floats settings runId)
    (P := StreamInv floats runId) (fun s label hg hs => streamStep_inv settings hs hg)
    streamInv_initial htime
  exact fun c hc => (h.client c hc).delivers

/-! ## An event that is lost -/

/-- A chat run that a worker has started. -/
def startedRun : List (StreamLabel Unit) :=
  (threadSetup.map fun e => .service ⟨e.now, .queue e.label⟩) ++
    [.service ⟨1, .queue (.submit (threadInput "first") "user" (threadAnswers 1 "run1"))⟩,
      .service ⟨2, .queue (.execute (.markRunning "run1" "worker" 60))⟩]

/-- The worker records the failure of the run and releases its runtime. -/
def failedRun : List (StreamLabel Unit) :=
  [.service ⟨3, .queue (.execute
      (.setTerminalStatus "run1" .failed none none none (some "worker")))⟩,
    .service ⟨4, .queue (.prepareCleanup "run1"
      (AgentRunRepository.CreateRun.row
        { runId := "run1"
          conversationThreadId := "thread"
          agentSlug := "agent"
          uid := "user"
          requestId := "first"
          inputPayload := [] } 1) "thread" false)⟩,
    .service ⟨5, .queue (.confirmCleanup 0)⟩]

/-- A message of the run. -/
def messageEvent : StreamLabel Unit :=
  .append (toLex (1, 0)) "messages" .empty none "now"

/-- A client connects; between its first read, which is empty, and its status check the worker
appends a message and records the failure of the run. -/
def lateEvent : List (StreamLabel Unit) :=
  startedRun ++ [.connect "user" EventId.zero true 0 0, .client .read, .client .emit] ++
    messageEvent :: failedRun ++ [.client (.check 5 5), .client (.decide "now" 5)]

/-- The same steps with the message and the failure before the first read. -/
def timelyEvent : List (StreamLabel Unit) :=
  startedRun ++ [.connect "user" EventId.zero true 0 0] ++ messageEvent :: failedRun ++
    [.client .read, .client .emit, .client .emit, .client (.check 1 1), .client (.decide "now" 1),
      .client .read, .client .emit, .client (.check 5 5), .client (.decide "now" 5)]

def sseSettings : SseSettings where
  heartbeatSeconds := 15
  maxConnectionMinutes := 30

/-- The state after a list of steps. -/
def streamAfter (labels : List (StreamLabel Unit)) : StreamSystem Unit :=
  Transition.exec (streamStep .zero sseSettings "run1") .initial labels

/-- The client gets an `end` event and never the message. -/
theorem late_event_is_lost :
    ¬ ∀ c ∈ (streamAfter lateEvent).client,
      Delivers .zero "run1" (streamAfter lateEvent).log (streamAfter lateEvent).committed c := by
  intro h
  have hclient : (streamAfter lateEvent).client.map
      (fun c => (c.frames.map Frame.isEnd, c.verbose, c.afterSeq)) =
        some ([true], true, EventId.zero) := by
    decide +kernel
  have hcommitted : (streamAfter lateEvent).committed = some 1 := by decide +kernel
  have hlog : (streamAfter lateEvent).log.entries.map Prod.fst = [toLex (1, 0)] := by
    decide +kernel
  obtain ⟨c, hc, hfields⟩ := Option.map_eq_some_iff.mp hclient
  simp only [Prod.mk.injEq] at hfields
  obtain ⟨hframes, hverbose, hafter⟩ := hfields
  obtain ⟨frame, hframe⟩ : ∃ frame, c.frames = [frame] :=
    List.length_eq_one_iff.mp (by simpa using congrArg List.length hframes)
  obtain ⟨entry, hentry⟩ : ∃ entry, (streamAfter lateEvent).log.entries = [entry] :=
    List.length_eq_one_iff.mp (by simpa using congrArg List.length hlog)
  have hend : frame.isEnd := by simpa [hframe] using hframes
  have hid : entry.1 = toLex (1, 0) := by simpa [hentry] using hlog
  obtain ⟨n, hn, hcomplete⟩ := (h c hc).complete [] frame [] hframe hend
  obtain rfl : n = 1 := by simpa [hcommitted] using hn.symm
  have hlost := hcomplete entry (by simp [hentry]) (by rw [hafter, hid]; decide)
  simp [hverbose] at hlost

/-- With the message and the failure before the first read, the client gets the message and
then the `end` event. -/
theorem stream_delivers_timelyEvent :
    (∀ c ∈ (streamAfter timelyEvent).client,
      Delivers .zero "run1" (streamAfter timelyEvent).log (streamAfter timelyEvent).committed c) ∧
      (streamAfter timelyEvent).client.map (fun c => c.frames.map fun f => (f.eventId, f.isEnd)) =
        some [(some (toLex (1, 0)), false), (none, true)] := by
  refine ⟨stream_delivers sseSettings timelyEvent ?_, ?_⟩
  · decide +kernel
  · decide +kernel

end Yuanlei
