import Yuanlei.Lib.Json
import Yuanlei.Lib.Table
import Yuanlei.Lib.Transition
import Mathlib.Algebra.BigOperators.Group.List.Basic
import Mathlib.Algebra.Order.BigOperators.Group.List
import Mathlib.Algebra.Ring.Int.Defs

/-!
# Token accounting

After every model call the middleware adds the usage that the provider reports to the aggregates
of the run and of the thread, in a bucket for the configured model, and recomputes the totals from
the buckets.  Calls of providers on a blacklist, and calls without usable numbers, are counted but
not reported.  The aggregates are those of the sum over the calls; statistics of the cache, the
fields about the context and the latest call are left out.

Main results:

- `exec_inv`: the aggregates of run and thread account for their calls.
- `token_usage_adds_up`: totals and counts after every sequence of events.
-/

universe u

namespace Yuanlei.TokenUsage

variable {F : Type u}

/-- `dict[str, Any]` -/
abbrev Dict (F : Type u) := Table String (Json F)

/-! ## Usage of a call -/

def tokenUsageProviderBlacklist : List String :=
  ["siliconflow-cn", "siliconflow"]

/-- The keys of `ZERO_TOTAL`. -/
def tokenKeys : List String :=
  ["input_tokens", "output_tokens", "total_tokens"]

/-- An integer that is no truth value. -/
def asInt : Json F → Option Int
  | .int i => some i
  | _ => none

/-- The value that can be accumulated, if there is one. -/
def accumulable : Json F → Option (Json F)
  | .int i => some (.int i)
  | .obj details =>
    let kept := details.filter fun e => (asInt e.2).isSome
    if kept.isEmpty then none else some (.obj kept)
  | _ => none

/-- The entries of a dictionary whose value a function keeps. -/
def keepValues (d : Dict F) (f : Json F → Option (Json F)) : Dict F where
  rows := d.rows.filterMap fun e => (f e.2).map fun v => (e.1, v)
  nodupKeys := by
    refine @List.Sublist.nodup _ _ (d.rows.map Prod.fst) ?_ d.nodupKeys
    induction d.rows with
    | nil => exact .slnil
    | cons e rows ih =>
      rw [List.filterMap_cons]
      cases f e.2 with
      | none => exact ih.cons _
      | some v => exact ih.cons_cons _

theorem get_keepValues (d : Dict F) (f : Json F → Option (Json F)) (key : String) :
    (keepValues d f).get key = (d.get key).bind f := by
  apply Option.ext
  intro w
  rw [← Table.mem_rows_iff, Option.bind_eq_some_iff]
  simp only [keepValues, List.mem_filterMap, Option.map_eq_some_iff, Prod.mk.injEq]
  constructor
  · rintro ⟨⟨key', v⟩, hmem, w', hw, rfl, rfl⟩
    exact ⟨v, (d.mem_rows_iff _ _).mp hmem, hw⟩
  · rintro ⟨v, hget, hw⟩
    exact ⟨(key, v), (d.mem_rows_iff _ _).mpr hget, w, hw, rfl, rfl⟩

/-- The integer under a key. -/
def intAt (d : Dict F) (key : String) : Option Int :=
  (d.get key).bind asInt

theorem intAt_keepValues (d : Dict F) (key : String) :
    intAt (keepValues d accumulable) key = intAt d key := by
  rw [intAt, get_keepValues, intAt]
  cases d.get key with
  | none => rfl
  | some v =>
    cases v with
    | obj details =>
      simp only [Option.bind_some, accumulable]
      split_ifs <;> rfl
    | _ => rfl

theorem intAt_eq_some {d : Dict F} {key : String} {i : Int} :
    intAt d key = some i ↔ d.get key = some (.int i) := by
  rw [intAt, Option.bind_eq_some_iff]
  constructor
  · rintro ⟨v, hget, hv⟩
    cases v <;> simp_all [asInt]
  · intro hget
    exact ⟨_, hget, rfl⟩

def usageForAccumulation : Option (Dict F) → Option (Dict F)
  | none => none
  | some usage =>
    if usage.rows.isEmpty then none
    else
      let normalized := keepValues usage accumulable
      if tokenKeys.all fun key => (intAt normalized key).isSome then some normalized else none

/-- `add_usage`: without a left side the right side, and else the sum of the integers under
a key; `none` is its error. -/
structure AddUsage (F : Type u) where
  add : Option (Dict F) → Dict F → Option (Dict F)
  add_none : ∀ right, right.rows ≠ [] → add none right = some right
  add_some : ∀ left right sum key i j, add (some left) right = some sum →
    left.get key = some (.int i) → right.get key = some (.int j) →
    sum.get key = some (.int (i + j))

/-! ## Aggregates -/

structure Bucket (F : Type u) where
  model : Table String String
  identitySource : String
  responseModelIds : List String
  usage : Dict F
  modelCallCount : Int
  usageReportedCallCount : Int

structure Aggregate (F : Type u) where
  modelCallCount : Int
  usageReportedCallCount : Int
  usageUnavailableCallCount : Int
  complete : Bool
  models : Table String (Bucket F)
  total : List (String × Int)

def emptyAggregate : Aggregate F :=
  ⟨0, 0, 0, false, .empty, tokenKeys.map fun key => (key, 0)⟩

/-- `_aggregate_from_state`; `none` is a value of another shape or version. -/
def aggregateFromState (value : Option (Aggregate F)) : Aggregate F :=
  value.getD emptyAggregate

/-- The sum of a number over the buckets. -/
def sumOver (models : Table String (Bucket F)) (weight : Bucket F → Int) : Int :=
  (models.rows.map fun e => weight e.2).sum

/-- `_safe_int(usage.get(key)) or 0`; no floating-point number gets into a bucket. -/
def tokensAt (usage : Dict F) (key : String) : Int :=
  (intAt usage key).getD 0

def recomputeAggregateTotals (a : Aggregate F) : Aggregate F :=
  let calls := sumOver a.models Bucket.modelCallCount + a.usageUnavailableCallCount
  let reported := sumOver a.models Bucket.usageReportedCallCount
  { a with
    modelCallCount := calls
    usageReportedCallCount := reported
    complete := decide (0 < calls) && reported == calls
    total := tokenKeys.map fun key => (key, sumOver a.models fun b => tokensAt b.usage key) }

def addUnavailableCall (aggregate : Option (Aggregate F)) : Aggregate F :=
  let result := aggregateFromState aggregate
  recomputeAggregateTotals
    { result with usageUnavailableCallCount := result.usageUnavailableCallCount + 1 }

/-- The provider of an identity is on the blacklist. -/
def blacklisted (identity : Table String String) : Bool :=
  match identity.get "provider_id" with
  | some provider => tokenUsageProviderBlacklist.contains provider
  | none => false

def withoutBlacklistedProviders (aggregate : Option (Aggregate F)) : Aggregate F :=
  let result := aggregateFromState aggregate
  recomputeAggregateTotals
    { result with
      models :=
        { rows := result.models.rows.filter fun e => !blacklisted e.2.model
          nodupKeys := (List.filter_sublist.map Prod.fst).nodup result.models.nodupKeys } }

/-- A model call: the run, the identity of the model, the class and the name of its adapter, and
the usage metadata of the answer. -/
structure Call (F : Type u) where
  runId : String
  identity : Table String String
  modelClass : String
  modelName : String
  usage : Option (Dict F)

/-- `d.get(key)` for a text that is not empty -/
def textAt (d : Table String String) (key : String) : Option String :=
  (d.get key).filter (· ≠ "")

def bucketKey (c : Call F) : String × String :=
  match textAt c.identity "configured_model_spec" with
  | some spec => (spec, "configured_metadata")
  | none =>
    match textAt c.identity "response_model_id" with
    | some modelId =>
      ("response:" ++ (textAt c.identity "provider_type").getD "unknown" ++ ":" ++ modelId,
        "response_metadata")
    | none =>
      ("unattributed:" ++ c.modelClass ++ ":" ++
        (if c.modelName = "" then "unknown" else c.modelName), "adapter_fallback")

/-- The identity of a bucket after a call. -/
def updateIdentity (model identity : Table String String) : Table String String :=
  identity.rows.foldl
    (fun model e => if e.1 = "response_model_id" then model else model.upsert e.1 e.2) model

/-- The usage of a bucket with that of a call; `none` is an error of `add_usage`. -/
def cumulativeUsage (py : AddUsage F) (previous : Dict F) (usage : Option (Dict F)) :
    Option (Dict F) :=
  let previousUsage := usageForAccumulation (some previous)
  match usageForAccumulation usage with
  | some increment => py.add previousUsage increment
  | none => some (previousUsage.getD .empty)

def newBucket : Bucket F :=
  ⟨.empty, "", [], .empty, 0, 0⟩

def addCallToAggregate (py : AddUsage F) (aggregate : Option (Aggregate F)) (c : Call F) :
    Option (Aggregate F) :=
  let result := aggregateFromState aggregate
  let (key, source) := bucketKey c
  let previous := (result.models.get key).getD newBucket
  (cumulativeUsage py previous.usage c.usage).map fun cumulative =>
    let ids :=
      match textAt c.identity "response_model_id" with
      | some modelId =>
        if modelId ∈ previous.responseModelIds then previous.responseModelIds
        else previous.responseModelIds ++ [modelId]
      | none => previous.responseModelIds
    let bucket : Bucket F :=
      { model := updateIdentity previous.model c.identity
        identitySource := source
        responseModelIds := ids
        usage := cumulative
        modelCallCount := previous.modelCallCount + 1
        usageReportedCallCount := previous.usageReportedCallCount +
          if (usageForAccumulation c.usage).isSome then 1 else 0 }
    recomputeAggregateTotals { result with models := result.models.upsert key bucket }

/-! ## The middleware -/

structure Snapshot (F : Type u) where
  currentRunId : String
  run : Aggregate F
  thread : Aggregate F

/-- The run of the snapshot, if it is the given one. -/
def sameRun (previous : Option (Snapshot F)) (runId : String) : Option (Aggregate F) :=
  (previous.filter (·.currentRunId = runId)).map Snapshot.run

def beforeAgent (previous : Option (Snapshot F)) (runId : String) : Snapshot F :=
  { currentRunId := runId
    run :=
      match sameRun previous runId with
      | some run => withoutBlacklistedProviders (some run)
      | none => emptyAggregate
    thread := withoutBlacklistedProviders (previous.map Snapshot.thread) }

def buildSnapshot (py : AddUsage F) (previous : Option (Snapshot F)) (c : Call F) :
    Option (Snapshot F) := do
  let run := withoutBlacklistedProviders (some ((sameRun previous c.runId).getD emptyAggregate))
  let thread := withoutBlacklistedProviders (previous.map Snapshot.thread)
  if blacklisted c.identity then
    some ⟨c.runId, addUnavailableCall (some run), addUnavailableCall (some thread)⟩
  else
    let run' ← addCallToAggregate py (some run) c
    let thread' ← addCallToAggregate py (some thread) c
    some ⟨c.runId, run', thread'⟩

/-! ## Runs of a thread -/

inductive Event (F : Type u) where
  | beforeAgent (runId : String)
  | modelCall (call : Call F)

/-- The snapshot in the state of a thread, with the calls since its run began and since the thread
began. -/
structure Observed (F : Type u) where
  snapshot : Option (Snapshot F)
  runCalls : List (Call F)
  threadCalls : List (Call F)

/-- The calls of the run that an event belongs to. -/
def Observed.callsOf (o : Observed F) (runId : String) : List (Call F) :=
  if o.snapshot.map Snapshot.currentRunId = some runId then o.runCalls else []

/-- One event; a call whose snapshot raises does not return. -/
def step (py : AddUsage F) (o : Observed F) : Event F → Observed F
  | .beforeAgent runId => ⟨some (beforeAgent o.snapshot runId), o.callsOf runId, o.threadCalls⟩
  | .modelCall c =>
    match buildSnapshot py o.snapshot c with
    | some s => ⟨some s, o.callsOf c.runId ++ [c], o.threadCalls ++ [c]⟩
    | none => o

def newThread : Observed F :=
  ⟨none, [], []⟩

/-- A call that the totals count. -/
def reported (c : Call F) : Bool :=
  !blacklisted c.identity && (usageForAccumulation c.usage).isSome

/-- What a call reports under a key. -/
def tokens (key : String) (c : Call F) : Int :=
  (c.usage.map fun usage => tokensAt usage key).getD 0

/-- What a list of calls adds up to under a key. -/
def reportedTokens (calls : List (Call F)) (key : String) : Int :=
  ((calls.filter reported).map (tokens key)).sum

/-- The buckets account for the calls. -/
structure Kept (calls : List (Call F)) (a : Aggregate F) : Prop where
  settled : recomputeAggregateTotals a = a
  allowed : ∀ key b, a.models.get key = some b → blacklisted b.model = false
  usage : ∀ key b, a.models.get key = some b →
    b.usage.rows = [] ∨ ∀ k ∈ tokenKeys, (intAt b.usage k).isSome
  callCount : sumOver a.models Bucket.modelCallCount + a.usageUnavailableCallCount = calls.length
  unavailable : a.usageUnavailableCallCount = (calls.filter fun c => blacklisted c.identity).length
  reportedCount : sumOver a.models Bucket.usageReportedCallCount = (calls.filter reported).length
  tokenSum : ∀ k ∈ tokenKeys,
    sumOver a.models (fun b => tokensAt b.usage k) = reportedTokens calls k

/-! ## One call -/

theorem sumOver_upsert (models : Table String (Bucket F)) (key : String) (b : Bucket F)
    (weight : Bucket F → Int) :
    sumOver (models.upsert key b) weight =
      sumOver models weight - ((models.get key).map weight).getD 0 + weight b := by
  unfold Table.upsert
  cases hinsert : models.insert key b with
  | some models' =>
    simp [sumOver, Table.rows_of_insert hinsert, (Table.get_of_insert hinsert).1]
  | none =>
    obtain ⟨old, hold⟩ :=
      Option.isSome_iff_exists.mp ((models.insert_eq_none_iff key b).mp hinsert)
    have hmem := (models.mem_rows_iff key old).mpr hold
    have hnodup := models.nodupKeys
    simp only [sumOver, Table.modify, Table.rows_mapRows, List.map_map, Function.comp_def, hold,
      Option.map_some, Option.getD_some]
    generalize models.rows = rows at hmem hnodup
    induction rows with
    | nil => cases hmem
    | cons e rows ih =>
      obtain ⟨hfresh, hrest⟩ := List.nodup_cons.mp hnodup
      simp only [List.map_cons, List.sum_cons]
      by_cases hkey : e.1 = key
      · -- The key occurs once, so the other rows are kept.
        have hsame : rows.map (fun e => weight (if e.1 = key then b else e.2)) =
            rows.map fun e => weight e.2 := by
          refine List.map_congr_left fun e' he' => ?_
          have hne : e'.1 ≠ key := by
            intro heq
            exact hfresh (by rw [hkey, ← heq]; exact List.mem_map_of_mem he')
          rw [if_neg hne]
        have hhead : e = (key, old) := by
          rcases List.mem_cons.mp hmem with heq | htail
          · exact heq.symm
          · exact absurd (by rw [hkey]; exact List.mem_map_of_mem htail) hfresh
        simp only [hsame, hhead, if_true]
        omega
      · have htail : (key, old) ∈ rows := by
          rcases List.mem_cons.mp hmem with heq | htail
          · exact absurd (by rw [← heq]) hkey
          · exact htail
        rw [if_neg hkey, ih htail hrest]
        omega

theorem kept_empty : Kept [] (emptyAggregate : Aggregate F) where
  settled := rfl
  allowed := by
    intro key b hget
    cases hget
  usage := by
    intro key b hget
    cases hget
  callCount := rfl
  unavailable := rfl
  reportedCount := rfl
  tokenSum := fun _ _ => rfl

variable {calls : List (Call F)} {a : Aggregate F} {c : Call F}

/-- No bucket is taken away. -/
theorem Kept.without (h : Kept calls a) : withoutBlacklistedProviders (some a) = a := by
  have hrows : a.models.rows.filter (fun e => !blacklisted e.2.model) = a.models.rows := by
    rw [List.filter_eq_self]
    intro e he
    rw [h.allowed e.1 e.2 ((a.models.mem_rows_iff _ _).mp he)]
    rfl
  have hext : ∀ t t' : Table String (Bucket F), t.rows = t'.rows → t = t' := by
    rintro ⟨rows, -⟩ ⟨rows', -⟩ rfl
    rfl
  rw [withoutBlacklistedProviders]
  simp only [aggregateFromState, Option.getD_some]
  rw [hext ⟨_, _⟩ a.models hrows]
  exact h.settled

theorem Kept.addUnavailableCall (h : Kept calls a) (hcall : blacklisted c.identity) :
    Kept (calls ++ [c]) (addUnavailableCall (some a)) := by
  have hreported : reported c = false := by simp [reported, hcall]
  refine ⟨rfl, h.allowed, h.usage, ?_, ?_, ?_, ?_⟩
  · have hcount := h.callCount
    simp only [TokenUsage.addUnavailableCall, aggregateFromState, recomputeAggregateTotals,
      Option.getD_some, List.length_append, List.length_singleton]
    push_cast
    omega
  · have hcount := h.unavailable
    simp only [TokenUsage.addUnavailableCall, aggregateFromState, recomputeAggregateTotals,
      Option.getD_some, List.filter_append, List.length_append]
    simp [hcall, hcount]
  · show sumOver a.models _ = _
    simpa [List.filter_append, hreported] using h.reportedCount
  · intro k hk
    show sumOver a.models _ = _
    simpa [reportedTokens, List.filter_append, hreported] using h.tokenSum k hk

variable {usage : Option (Dict F)}

theorem usageForAccumulation_eq_some {normalized : Dict F}
    (h : usageForAccumulation usage = some normalized) :
    normalized.rows ≠ [] ∧ ∃ original, usage = some original ∧
      ∀ k ∈ tokenKeys, intAt normalized k = intAt original k ∧ (intAt original k).isSome := by
  cases usage with
  | none => cases h
  | some original =>
    simp only [usageForAccumulation] at h
    split_ifs at h with hempty hall
    cases h
    have hkeys : ∀ k ∈ tokenKeys, (intAt (keepValues original accumulable) k).isSome := by
      simpa using hall
    refine ⟨?_, original, rfl, fun k hk => ⟨intAt_keepValues original k, ?_⟩⟩
    · intro hnil
      have hsome := hkeys "input_tokens" (by decide)
      rw [intAt, Table.get, hnil] at hsome
      cases hsome
    · rw [← intAt_keepValues]
      exact hkeys k hk

theorem usageForAccumulation_of_bucket {usage : Dict F}
    (h : usage.rows = [] ∨ ∀ k ∈ tokenKeys, (intAt usage k).isSome) :
    usage.rows = [] ∧ usageForAccumulation (some usage) = none ∨
      ∃ normalized, usageForAccumulation (some usage) = some normalized ∧
        ∀ k ∈ tokenKeys, intAt normalized k = intAt usage k ∧ (intAt usage k).isSome := by
  by_cases hempty : usage.rows = []
  · exact .inl ⟨hempty, by simp [usageForAccumulation, hempty]⟩
  · have hkeys := h.resolve_left hempty
    have hall : (tokenKeys.all fun key => (intAt (keepValues usage accumulable) key).isSome) := by
      simpa [intAt_keepValues] using hkeys
    refine .inr ⟨_, ?_, fun k hk => ⟨intAt_keepValues usage k, hkeys k hk⟩⟩
    simp only [usageForAccumulation, List.isEmpty_iff, if_neg hempty, if_pos hall]

theorem blacklisted_updateIdentity {model identity : Table String String}
    (hmodel : blacklisted model = false) (hidentity : blacklisted identity = false) :
    blacklisted (updateIdentity model identity) = false := by
  have hupsert : ∀ (model : Table String String) (e : String × String),
      e ∈ identity.rows → blacklisted model = false → blacklisted (model.upsert e.1 e.2) = false := by
    intro model e he hmodel
    rw [blacklisted, Table.get_upsert] at *
    split_ifs with hkey
    · have hget := (identity.mem_rows_iff e.1 e.2).mp he
      rw [← hkey] at hget
      simpa [hget] using hidentity
    · exact hmodel
  rw [updateIdentity]
  refine List.foldlRecOn (motive := fun model => blacklisted model = false) identity.rows _ hmodel
    fun model hkept e he => ?_
  split_ifs
  · exact hkept
  · exact hupsert model e he hkept

variable {py : AddUsage F}

/-- The numbers of a bucket after a call. -/
theorem cumulativeUsage_spec {previous cumulative : Dict F}
    (hprevious : previous.rows = [] ∨ ∀ k ∈ tokenKeys, (intAt previous k).isSome)
    (h : cumulativeUsage py previous usage = some cumulative) :
    (cumulative.rows = [] ∨ ∀ k ∈ tokenKeys, (intAt cumulative k).isSome) ∧
      ∀ k ∈ tokenKeys, tokensAt cumulative k = tokensAt previous k +
        if (usageForAccumulation usage).isSome then (usage.map fun u => tokensAt u k).getD 0
        else 0 := by
  have hzero : ∀ {d : Dict F} {k}, d.rows = [] → intAt d k = none := by
    intro d k hempty
    simp [intAt, Table.get, hempty]
  unfold cumulativeUsage at h
  cases hright : usageForAccumulation usage with
  | none =>
    simp only [hright, Option.some.injEq] at h
    rcases usageForAccumulation_of_bucket hprevious with ⟨hempty, hnone⟩ | ⟨left, hleft, hkeys⟩
    · rw [hnone] at h
      cases h
      refine ⟨.inl rfl, fun k hk => ?_⟩
      have hnew : intAt (Table.empty : Dict F) k = none := rfl
      simp [tokensAt, hzero hempty, hnew]
    · rw [hleft] at h
      cases h
      refine ⟨.inr fun k hk => ?_, fun k hk => ?_⟩
      · rw [Option.getD_some, (hkeys k hk).1]
        exact (hkeys k hk).2
      · simp [tokensAt, (hkeys k hk).1]
  | some right =>
    simp only [hright] at h
    obtain ⟨hne, original, rfl, hrightKeys⟩ := usageForAccumulation_eq_some hright
    suffices hsum : ∀ k ∈ tokenKeys, intAt cumulative k =
        some (tokensAt previous k + tokensAt original k) by
      refine ⟨.inr fun k hk => ?_, fun k hk => ?_⟩
      · rw [hsum k hk]
        rfl
      · simp [tokensAt, hsum k hk]
    intro k hk
    obtain ⟨hsame, horiginal⟩ := hrightKeys k hk
    obtain ⟨j, hj⟩ := Option.isSome_iff_exists.mp horiginal
    rw [hj] at hsame
    rcases usageForAccumulation_of_bucket hprevious with ⟨hempty, hnone⟩ | ⟨left, hleft, hkeys⟩
    · rw [hnone, py.add_none right hne] at h
      cases h
      simp [tokensAt, hsame, hj, hzero hempty]
    · obtain ⟨hleftSame, hleftSome⟩ := hkeys k hk
      obtain ⟨i, hi⟩ := Option.isSome_iff_exists.mp hleftSome
      rw [hleft] at h
      rw [hi] at hleftSame
      rw [intAt_eq_some.mpr (py.add_some left right cumulative k i j h
        (intAt_eq_some.mp hleftSame) (intAt_eq_some.mp hsame))]
      simp [tokensAt, hi, hj]

theorem sumOver_add {weight : Bucket F → Int} (hzero : weight newBucket = 0)
    (models : Table String (Bucket F)) (key : String) (b : Bucket F) :
    sumOver (models.upsert key b) weight =
      sumOver models weight + (weight b - weight ((models.get key).getD newBucket)) := by
  rw [sumOver_upsert]
  cases models.get key with
  | none =>
    simp [hzero]
  | some old =>
    simp only [Option.map_some, Option.getD_some]
    omega

theorem Kept.addCallToAggregate (h : Kept calls a)
    (hcall : blacklisted c.identity = false) {a' : Aggregate F}
    (hadd : addCallToAggregate py (some a) c = some a') : Kept (calls ++ [c]) a' := by
  unfold TokenUsage.addCallToAggregate at hadd
  generalize bucketKey c = named at hadd
  obtain ⟨key, source⟩ := named
  obtain ⟨cumulative, hcumulative, rfl⟩ := Option.map_eq_some_iff.mp hadd
  simp only [aggregateFromState, Option.getD_some] at hcumulative ⊢
  have hprevious : blacklisted ((a.models.get key).getD newBucket).model = false ∧
      (((a.models.get key).getD newBucket).usage.rows = [] ∨
        ∀ k ∈ tokenKeys, (intAt ((a.models.get key).getD newBucket).usage k).isSome) := by
    cases hget : a.models.get key with
    | none => exact ⟨rfl, .inl rfl⟩
    | some old => exact ⟨h.allowed key old hget, h.usage key old hget⟩
  obtain ⟨hshape, htokens⟩ := cumulativeUsage_spec hprevious.2 hcumulative
  have hreported : reported c = (usageForAccumulation c.usage).isSome := by
    simp [reported, hcall]
  refine ⟨rfl, ?_, ?_, ?_, ?_, ?_, ?_⟩
  · intro key' b hget
    simp only [recomputeAggregateTotals, Table.get_upsert] at hget
    by_cases hkey : key' = key
    · rw [if_pos hkey] at hget
      cases hget
      exact blacklisted_updateIdentity hprevious.1 hcall
    · exact h.allowed key' b (by rwa [if_neg hkey] at hget)
  · intro key' b hget
    simp only [recomputeAggregateTotals, Table.get_upsert] at hget
    by_cases hkey : key' = key
    · rw [if_pos hkey] at hget
      cases hget
      exact hshape
    · exact h.usage key' b (by rwa [if_neg hkey] at hget)
  · have hcount := h.callCount
    simp only [recomputeAggregateTotals]
    rw [sumOver_add rfl]
    simp only [List.length_append, List.length_singleton]
    push_cast
    omega
  · have hcount := h.unavailable
    simpa [recomputeAggregateTotals, List.filter_append, hcall] using hcount
  · have hcount := h.reportedCount
    simp only [recomputeAggregateTotals]
    rw [sumOver_add rfl, hcount, List.filter_append, List.length_append]
    by_cases hsome : (usageForAccumulation c.usage).isSome <;> simp [hreported, hsome]
  · intro k hk
    have hsum := h.tokenSum k hk
    simp only [recomputeAggregateTotals]
    rw [sumOver_add rfl, hsum, htokens k hk]
    by_cases hsome : (usageForAccumulation c.usage).isSome <;>
      simp [reportedTokens, List.filter_append, hreported, hsome, tokens]

variable {py : AddUsage F}

/-- What holds after every sequence of events: the snapshot accounts for the calls. -/
structure ObservedInv (o : Observed F) : Prop where
  suffix : o.runCalls <:+ o.threadCalls
  absent : o.snapshot = none → o.threadCalls = []
  kept : ∀ s, o.snapshot = some s → Kept o.runCalls s.run ∧ Kept o.threadCalls s.thread

theorem observedInv_step {o : Observed F} (h : ObservedInv o) (e : Event F) :
    ObservedInv (step py o e) := by
  -- The aggregates that an event starts from account for the calls of its run and of the thread.
  have hthread : Kept o.threadCalls (withoutBlacklistedProviders (o.snapshot.map Snapshot.thread)) := by
    cases hs : o.snapshot with
    | none =>
      rw [h.absent hs]
      exact kept_empty
    | some s =>
      rw [Option.map_some, (h.kept s hs).2.without]
      exact (h.kept s hs).2
  have hrun : ∀ runId, Kept (o.callsOf runId) ((sameRun o.snapshot runId).getD emptyAggregate) := by
    intro runId
    unfold Observed.callsOf sameRun
    cases hs : o.snapshot with
    | none => exact kept_empty
    | some s =>
      by_cases hsame : s.currentRunId = runId
      · simpa [hsame, Option.filter] using (h.kept s hs).1
      · simpa [hsame, Option.filter] using kept_empty
  have hsuffix : ∀ runId, o.callsOf runId <:+ o.threadCalls := by
    intro runId
    unfold Observed.callsOf
    split_ifs
    · exact h.suffix
    · exact List.nil_suffix
  cases e with
  | beforeAgent runId =>
    refine ⟨hsuffix runId, (fun hnone => nomatch hnone), ?_⟩
    rintro s ⟨⟩
    refine ⟨?_, hthread⟩
    have hstart := hrun runId
    simp only [TokenUsage.beforeAgent]
    cases hs : sameRun o.snapshot runId with
    | none =>
      rw [hs] at hstart
      exact hstart
    | some run =>
      rw [hs, Option.getD_some] at hstart
      have hkept := hstart.without
      simp only [hkept]
      exact hstart
  | modelCall c =>
    simp only [step]
    cases hs : buildSnapshot py o.snapshot c with
    | none => exact h
    | some s =>
      obtain ⟨before, hbefore⟩ := hsuffix c.runId
      refine ⟨⟨before, by rw [← List.append_assoc, hbefore]⟩, (fun hnone => nomatch hnone), ?_⟩
      rintro _ ⟨⟩
      simp only [buildSnapshot, (hrun c.runId).without] at hs
      split_ifs at hs with hblack
      · cases hs
        exact ⟨(hrun c.runId).addUnavailableCall hblack, hthread.addUnavailableCall hblack⟩
      · simp only [Option.bind_eq_bind, Option.bind_eq_some_iff] at hs
        obtain ⟨run', hrun', thread', hthread', heq⟩ := hs
        cases heq
        have hcall : blacklisted c.identity = false := by simpa using hblack
        exact ⟨(hrun c.runId).addCallToAggregate hcall hrun',
          hthread.addCallToAggregate hcall hthread'⟩

/-! ## The aggregates -/

/-- The aggregate of the thread, as the next event reads it. -/
def Observed.thread (o : Observed F) : Aggregate F :=
  aggregateFromState (o.snapshot.map Snapshot.thread)

/-- The aggregate of the current run. -/
def Observed.run (o : Observed F) : Aggregate F :=
  aggregateFromState (o.snapshot.map Snapshot.run)

/-- The aggregate adds up: its totals are those of the calls that report their usage, its counts
are those of the calls, and it is complete if there are calls and all of them report. -/
structure AddsUp (calls : List (Call F)) (a : Aggregate F) : Prop where
  total : a.total = tokenKeys.map fun key => (key, reportedTokens calls key)
  modelCallCount : a.modelCallCount = calls.length
  usageReportedCallCount : a.usageReportedCallCount = (calls.filter reported).length
  usageUnavailableCallCount :
    a.usageUnavailableCallCount = (calls.filter fun c => blacklisted c.identity).length
  complete : a.complete = true ↔ calls ≠ [] ∧ ∀ c ∈ calls, reported c

theorem Kept.addsUp (h : Kept calls a) : AddsUp calls a := by
  rw [← h.settled]
  have hcomplete : (recomputeAggregateTotals a).complete = true ↔
      calls ≠ [] ∧ ∀ c ∈ calls, reported c := by
    rw [← List.length_filter_eq_length_iff, ← List.length_pos_iff]
    simp only [recomputeAggregateTotals, h.callCount, h.reportedCount, Bool.and_eq_true,
      decide_eq_true_eq, beq_iff_eq]
    omega
  refine ⟨?_, h.callCount, h.reportedCount, h.unavailable, hcomplete⟩
  exact List.map_congr_left fun k hk => by rw [h.tokenSum k hk]

theorem exec_inv (py : AddUsage F) (events : List (Event F)) :
    ObservedInv (Transition.exec (step py) newThread events) := by
  refine Transition.exec_invariant (P := ObservedInv) (step py)
    (fun o e h => observedInv_step h e) ?_ events
  refine ⟨List.nil_suffix, fun _ => rfl, ?_⟩
  intro s hs
  cases hs

/-- Adding numbers under the keys of the right side. -/
def addNumbers : AddUsage Unit where
  add left right :=
    match left with
    | none => some right
    | some left => some (right.mapRows fun key v =>
      match intAt left key, v with
      | some i, .int j => .int (i + j)
      | _, v => v)
  add_none _ _ := rfl
  add_some left right sum key i j hadd hleft hright := by
    cases hadd
    simp [hright, intAt_eq_some.mpr hleft]

/-- A call that reports one number under each key. -/
def numberCall (runId spec : String) (n : Int) : Call Unit :=
  { runId := runId
    identity := Table.empty.upsert "configured_model_spec" spec
    modelClass := "ChatModel"
    modelName := "model"
    usage := some (tokenKeys.foldl (fun usage key => usage.upsert key (.int n)) .empty) }

end Yuanlei.TokenUsage
