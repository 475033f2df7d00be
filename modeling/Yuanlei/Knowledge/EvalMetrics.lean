import Mathlib.Algebra.BigOperators.Group.List.Basic
import Mathlib.Algebra.Order.BigOperators.Group.List
import Mathlib.Data.Finset.Card
import Mathlib.Data.Rat.Cast.Order
import Mathlib.Tactic.Linarith
import Mathlib.Tactic.Positivity

/-!
# Aggregated metrics of an evaluation

A question gets the record of its recalls and F1 scores, which is empty when nothing was
retrieved for it.  `aggregate_metrics` takes the keys from the first record and counts a
missing value as zero; `calculate_overall_score` leaves the empty records out.

Main results:

- `metrics_lookup`: what the aggregate reports under a key.
- `counted_iff`: the aggregate counts every question exactly when each retrieved something.
-/

namespace Yuanlei.Evaluation

/-! ## Metrics of one question -/

/-- `set(retrieved_ids[:k]) & set(relevant_ids)`. -/
def hits (retrievedIds relevantIds : List String) (k : Nat) : Finset String :=
  (retrievedIds.take k).toFinset ∩ relevantIds.toFinset

def precisionAtK (retrievedIds relevantIds : List String) (k : Nat) : ℚ :=
  if (retrievedIds.take k).isEmpty then 0 else (hits retrievedIds relevantIds k).card / k

def recallAtK (retrievedIds relevantIds : List String) (k : Nat) : ℚ :=
  if relevantIds.isEmpty then 0
  else (hits retrievedIds relevantIds k).card / relevantIds.toFinset.card

def f1ScoreAtK (retrievedIds relevantIds : List String) (k : Nat) : ℚ :=
  let precision := precisionAtK retrievedIds relevantIds k
  let recalled := recallAtK retrievedIds relevantIds k
  if precision + recalled = 0 then 0 else 2 * precision * recalled / (precision + recalled)

/-- A retrieved chunk with its id and the id in its metadata. -/
structure Chunk where
  chunkId : Option String
  metadataChunkId : Option String

/-- The id that counts: an empty one is missing. -/
def Chunk.retrievedId (chunk : Chunk) : String :=
  ((chunk.chunkId.filter (· ≠ "")).or chunk.metadataChunkId).getD ""

/-- `recall@k` and `f1@k`. -/
inductive MetricKey where
  | recallAt (k : Nat)
  | f1At (k : Nat)
deriving DecidableEq

/-- The default of `k_values`. -/
def kValues : List Nat := [1, 3, 5, 10]

def calculateRetrievalMetrics (retrievedChunks : List Chunk) (goldChunkIds : List String) :
    List (MetricKey × ℚ) :=
  if retrievedChunks.isEmpty || goldChunkIds.isEmpty then []
  else
    let retrievedIds := retrievedChunks.map Chunk.retrievedId
    kValues.flatMap fun k =>
      [(.recallAt k, recallAtK retrievedIds goldChunkIds k),
        (.f1At k, f1ScoreAtK retrievedIds goldChunkIds k)]

/-! ## Aggregates -/

def mean (xs : List ℚ) : ℚ :=
  xs.sum / xs.length

/-- `calculate_overall_score`, where an answer without a score counts zero. -/
def calculateOverallScore (retrievalMetrics : List (List (MetricKey × ℚ)))
    (answerScores : List (Option ℚ)) : Option ℚ :=
  if answerScores.isEmpty then
    let recalls := retrievalMetrics.filterMap fun m => m.lookup (.recallAt 10)
    if recalls.isEmpty then none else some (mean recalls)
  else some (mean (answerScores.map fun s => s.getD 0))

/-- The result of `aggregate_metrics`. -/
structure Aggregate where
  metrics : List (MetricKey × ℚ)
  answerCorrectness : Option ℚ
  overallScore : Option ℚ

def aggregateMetrics (retrievalMetrics : List (List (MetricKey × ℚ)))
    (answerScores : List (Option ℚ)) : Aggregate where
  metrics :=
    match retrievalMetrics with
    | [] => []
    | first :: _ => first.map fun e => (e.1, mean (retrievalMetrics.map fun m => (m.lookup e.1).getD 0))
  answerCorrectness :=
    if answerScores.isEmpty then none else some (mean (answerScores.map fun s => s.getD 0))
  overallScore := calculateOverallScore retrievalMetrics answerScores

/-- An evaluated question with gold chunks. -/
structure Question where
  retrieved : List Chunk
  gold : List String
  gold_ne : gold ≠ []

namespace Question

/-- The record of a question. -/
def record (q : Question) : List (MetricKey × ℚ) :=
  calculateRetrievalMetrics q.retrieved q.gold

/-- The metric of a question, whether its record has it or not. -/
def value (q : Question) : MetricKey → ℚ
  | .recallAt k => recallAtK (q.retrieved.map Chunk.retrievedId) q.gold k
  | .f1At k => f1ScoreAtK (q.retrieved.map Chunk.retrievedId) q.gold k

end Question

/-- The keys of a record that is not empty. -/
def keys : List MetricKey :=
  kValues.flatMap fun k => [.recallAt k, .f1At k]

/-- The aggregate of these questions. -/
def aggregate (qs : List Question) (answerScores : List (Option ℚ)) : Aggregate :=
  aggregateMetrics (qs.map Question.record) answerScores

/-! ## Values -/

variable (q : Question)

theorem record_eq :
    q.record = if q.retrieved = [] then [] else keys.map fun key => (key, q.value key) := by
  cases hr : q.retrieved with
  | nil => simp [Question.record, calculateRetrievalMetrics, hr]
  | cons c cs =>
    simp [Question.record, calculateRetrievalMetrics, hr, q.gold_ne, keys, kValues, Question.value]

theorem value_of_empty (h : q.retrieved = []) (key : MetricKey) : q.value key = 0 := by
  cases key <;>
    simp [Question.value, h, recallAtK, f1ScoreAtK, precisionAtK, hits]

/-- Looking a key up in a table of a function. -/
theorem lookup_map (f : MetricKey → ℚ) (ks : List MetricKey) (key : MetricKey) :
    (ks.map fun k => (k, f k)).lookup key = if key ∈ ks then some (f key) else none := by
  induction ks with
  | nil => rfl
  | cons k ks ih =>
    by_cases hk : key = k
    · simp [hk]
    · rw [List.map_cons, List.lookup_cons, beq_false_of_ne hk, ih]
      simp [hk]

/-- A missing value is the zero that the question counts. -/
theorem getD_lookup {key : MetricKey} (hkey : key ∈ keys) :
    (q.record.lookup key).getD 0 = q.value key := by
  rw [record_eq]
  split_ifs with hr
  · simp [value_of_empty q hr]
  · simp [lookup_map, hkey]

theorem precision_mem (retrievedIds relevantIds : List String) (k : Nat) :
    0 ≤ precisionAtK retrievedIds relevantIds k ∧ precisionAtK retrievedIds relevantIds k ≤ 1 := by
  unfold precisionAtK
  split_ifs
  · exact ⟨le_rfl, zero_le_one⟩
  · refine ⟨by positivity, div_le_one_of_le₀ ?_ (by positivity)⟩
    have hcard : (hits retrievedIds relevantIds k).card ≤ k :=
      (Finset.card_le_card Finset.inter_subset_left).trans
        ((List.toFinset_card_le _).trans (List.length_take_le k retrievedIds))
    exact_mod_cast hcard

theorem recall_mem (retrievedIds relevantIds : List String) (k : Nat) :
    0 ≤ recallAtK retrievedIds relevantIds k ∧ recallAtK retrievedIds relevantIds k ≤ 1 := by
  unfold recallAtK
  split_ifs
  · exact ⟨le_rfl, zero_le_one⟩
  · refine ⟨by positivity, div_le_one_of_le₀ ?_ (by positivity)⟩
    exact_mod_cast Finset.card_le_card Finset.inter_subset_right

theorem value_mem (key : MetricKey) : 0 ≤ q.value key ∧ q.value key ≤ 1 := by
  cases key with
  | recallAt k => exact recall_mem _ _ k
  | f1At k =>
    have hp := precision_mem (q.retrieved.map Chunk.retrievedId) q.gold k
    have hr := recall_mem (q.retrieved.map Chunk.retrievedId) q.gold k
    simp only [Question.value, f1ScoreAtK]
    split_ifs with hzero
    · exact ⟨le_rfl, zero_le_one⟩
    · have hpr := mul_nonneg hp.1 hr.1
      refine ⟨div_nonneg (by linarith) (by linarith), div_le_one_of_le₀ ?_ (by linarith)⟩
      nlinarith [mul_nonneg hp.1 (sub_nonneg.mpr hr.2), mul_nonneg hr.1 (sub_nonneg.mpr hp.2)]

theorem recall_mono {k k' : Nat} (h : k ≤ k') : q.value (.recallAt k) ≤ q.value (.recallAt k') := by
  simp only [Question.value, recallAtK]
  split_ifs
  · exact le_rfl
  · have hsub : hits (q.retrieved.map Chunk.retrievedId) q.gold k ⊆
        hits (q.retrieved.map Chunk.retrievedId) q.gold k' := by
      apply Finset.inter_subset_inter_right
      intro id hid
      exact List.mem_toFinset.mpr (List.take_subset_take_left _ h (List.mem_toFinset.mp hid))
    have hcard : ((hits (q.retrieved.map Chunk.retrievedId) q.gold k).card : ℚ) ≤
        (hits (q.retrieved.map Chunk.retrievedId) q.gold k').card := by
      exact_mod_cast Finset.card_le_card hsub
    gcongr

/-! ## Means -/

variable {qs : List Question}

theorem mean_le_mean {f g : Question → ℚ} (h : ∀ q, f q ≤ g q) (qs : List Question) :
    mean (qs.map f) ≤ mean (qs.map g) := by
  unfold mean
  rw [List.length_map, List.length_map]
  exact div_le_div_of_nonneg_right (List.sum_le_sum fun q _ => h q) (Nat.cast_nonneg _)

theorem mean_value_mem (key : MetricKey) (qs : List Question) :
    0 ≤ mean (qs.map fun q => q.value key) ∧ mean (qs.map fun q => q.value key) ≤ 1 := by
  constructor
  · refine le_trans ?_ (mean_le_mean (fun q => (value_mem q key).1) qs)
    simp [mean]
  · refine (mean_le_mean (fun q => (value_mem q key).2) qs).trans ?_
    simpa [mean] using div_self_le_one (qs.length : ℚ)

theorem mean_append_le (key : MetricKey) (hne : qs ≠ []) {e : Question} (he : e.retrieved = []) :
    mean ((qs ++ [e]).map fun q => q.value key) ≤ mean (qs.map fun q => q.value key) := by
  have hsum : 0 ≤ (qs.map fun q => q.value key).sum :=
    List.sum_nonneg (by simpa using fun q _ => (value_mem q key).1)
  have hpos : (0 : ℚ) < qs.length := by exact_mod_cast List.length_pos_of_ne_nil hne
  simp only [mean, List.map_append, List.sum_append, List.map_singleton, List.sum_singleton,
    value_of_empty e he, add_zero, List.length_append, List.length_map, List.length_singleton]
  push_cast
  gcongr
  linarith

theorem mean_perm {qs' : List Question} (h : qs'.Perm qs) (f : Question → ℚ) :
    mean (qs'.map f) = mean (qs.map f) := by
  rw [mean, mean, (h.map f).sum_eq, (h.map f).length_eq]

/-! ## Reports -/

variable (answerScores : List (Option ℚ))

/-- The first question decides whether anything is reported. -/
theorem metrics_lookup (qs : List Question) (key : MetricKey) :
    (aggregate (q :: qs) answerScores).metrics.lookup key =
      if q.retrieved ≠ [] ∧ key ∈ keys then some (mean ((q :: qs).map fun q => q.value key))
      else none := by
  by_cases hr : q.retrieved = []
  · simp [aggregate, aggregateMetrics, record_eq, hr]
  · have hmetrics : (aggregate (q :: qs) answerScores).metrics = keys.map fun key =>
        (key, mean (((q :: qs).map Question.record).map fun m => (m.lookup key).getD 0)) := by
      have hfirst : q.record = keys.map fun key => (key, q.value key) := by simp [record_eq, hr]
      simp only [aggregate, aggregateMetrics, List.map_cons, hfirst, List.map_map]
      rfl
    rw [hmetrics, lookup_map, List.map_map]
    by_cases hkey : key ∈ keys
    · have hvalues : (fun m => (m.lookup key).getD 0) ∘ Question.record = fun q => q.value key :=
        funext fun q => getD_lookup q hkey
      simp [hr, hkey, hvalues]
    · simp [hkey]

theorem eq_mean_of_mem {key : MetricKey} {x : ℚ}
    (hx : x ∈ (aggregate (q :: qs) answerScores).metrics.lookup key) :
    x = mean ((q :: qs).map fun q => q.value key) := by
  rw [metrics_lookup] at hx
  split_ifs at hx
  · exact (Option.some.inj hx).symm
  · cases hx

theorem metrics_of_retrieved (hne : qs ≠ []) (h : ∀ q ∈ qs, q.retrieved ≠ []) (key : MetricKey) :
    (aggregate qs answerScores).metrics.lookup key =
      if key ∈ keys then some (mean (qs.map fun q => q.value key)) else none := by
  cases qs with
  | nil => exact absurd rfl hne
  | cons q qs => simp [metrics_lookup, h q]

theorem overallScore_of_retrieved (hne : qs ≠ []) (h : ∀ q ∈ qs, q.retrieved ≠ []) :
    (aggregate qs []).overallScore = some (mean (qs.map fun q => q.value (.recallAt 10))) := by
  have hrecalls : (qs.map Question.record).filterMap (fun m => m.lookup (.recallAt 10)) =
      qs.map fun q => q.value (.recallAt 10) := by
    rw [List.filterMap_map, ← List.filterMap_eq_map]
    refine List.filterMap_congr fun q hq => ?_
    have hkey : MetricKey.recallAt 10 ∈ keys := by decide
    simp [record_eq, h q hq, lookup_map, hkey]
  simp [aggregate, aggregateMetrics, calculateOverallScore, hrecalls, hne]

theorem overallScore_append {e : Question} (he : e.retrieved = []) :
    (aggregate (qs ++ [e]) answerScores).overallScore = (aggregate qs answerScores).overallScore := by
  have hrecords : ((qs ++ [e]).map Question.record).filterMap (fun m => m.lookup (.recallAt 10)) =
      (qs.map Question.record).filterMap fun m => m.lookup (.recallAt 10) := by
    simp [record_eq e, he]
  simp only [aggregate, aggregateMetrics, calculateOverallScore, hrecords]

/-- The aggregate counts every question. -/
structure Counted (qs : List Question) (answerScores : List (Option ℚ)) : Prop where
  means : ∀ key ∈ keys, (aggregate qs answerScores).metrics.lookup key =
    some (mean (qs.map fun q => q.value key))
  ordered : ∀ qs' : List Question, qs'.Perm qs →
    (∀ key, (aggregate qs' answerScores).metrics.lookup key =
      (aggregate qs answerScores).metrics.lookup key) ∧
    (aggregate qs' answerScores).overallScore = (aggregate qs answerScores).overallScore
  bounded : ∀ key, ∀ x ∈ (aggregate qs answerScores).metrics.lookup key, 0 ≤ x ∧ x ≤ 1
  monotone : ∀ k k', k ≤ k' → ∀ x ∈ (aggregate qs answerScores).metrics.lookup (.recallAt k),
    ∀ x' ∈ (aggregate qs answerScores).metrics.lookup (.recallAt k'), x ≤ x'
  overall : answerScores = [] → (aggregate qs answerScores).overallScore =
    (aggregate qs answerScores).metrics.lookup (.recallAt 10)
  appended : ∀ e : Question, e.retrieved = [] →
    (∀ key, ∀ x ∈ (aggregate qs answerScores).metrics.lookup key,
      ∀ x' ∈ (aggregate (qs ++ [e]) answerScores).metrics.lookup key, x' ≤ x) ∧
    (aggregate (qs ++ [e]) answerScores).overallScore = (aggregate qs answerScores).overallScore

/-- The aggregate counts every question exactly when something was retrieved for each. -/
theorem counted_iff (qs : List Question) :
    Counted (q :: qs) answerScores ↔ ∀ r ∈ q :: qs, r.retrieved ≠ [] := by
  constructor
  · intro h r hr hempty
    obtain ⟨s, t, hst⟩ := List.append_of_mem hr
    have hperm : (r :: (s ++ t)).Perm (q :: qs) := hst ▸ List.perm_middle.symm
    have hmean := h.means (.recallAt 10) (by decide)
    rw [← (h.ordered _ hperm).1, metrics_lookup] at hmean
    simp [hempty] at hmean
  · intro h
    have hlookup := metrics_of_retrieved answerScores (List.cons_ne_nil q qs) h
    refine ⟨fun key hkey => ?_, fun qs' hperm => ?_, fun key x hx => ?_, fun k k' hle x hx x' hx' => ?_,
      fun hnone => ?_, fun e he => ⟨fun key x hx x' hx' => ?_, overallScore_append answerScores he⟩⟩
    · simp [hlookup, hkey]
    · have hne : qs' ≠ [] := fun hnil => by simp [hnil] at hperm
      have hall : ∀ r ∈ qs', r.retrieved ≠ [] := fun r hr => h r (hperm.mem_iff.mp hr)
      constructor
      · intro key
        rw [hlookup, metrics_of_retrieved answerScores hne hall, mean_perm hperm]
      · cases answerScores with
        | nil =>
          rw [overallScore_of_retrieved hne hall, overallScore_of_retrieved (List.cons_ne_nil q qs) h,
            mean_perm hperm]
        | cons a as => rfl
    · rw [eq_mean_of_mem q answerScores hx]
      exact mean_value_mem key (q :: qs)
    · rw [eq_mean_of_mem q answerScores hx, eq_mean_of_mem q answerScores hx']
      exact mean_le_mean (fun q => recall_mono q hle) (q :: qs)
    · subst hnone
      rw [overallScore_of_retrieved (List.cons_ne_nil q qs) h, hlookup, if_pos (by decide)]
    · rw [eq_mean_of_mem q answerScores hx, eq_mean_of_mem q answerScores hx']
      exact mean_append_le key (List.cons_ne_nil q qs) he

/-- Nothing was retrieved for the first question, so no metric is reported for the two. -/
theorem first_empty_uncounted :
    ¬ Counted [⟨[], ["a"], by decide⟩, ⟨[⟨some "a", none⟩], ["a"], by decide⟩] [] := by
  intro h
  have hmean := h.means (.recallAt 1) (by decide)
  rw [metrics_lookup] at hmean
  simp at hmean

end Yuanlei.Evaluation
