import Mathlib.Data.Int.Notation
import Aevrix.Http.Bytes
import Aevrix.Keyed.Pairs
import Aevrix.Statistics.History
import Aevrix.Statistics.Ranks

/-!
# The metrics of the server (`metrics.h`, `metrics.cpp`)

Any thread may count. `Action` is what happens in one piece: an atomic operation on a counter, or
what one lock protects; `reset` is several of these. Whatever the order of the actions, a counter
holds what was added to it since it was last set to zero (`counters_exact`; through the methods,
`load_calls`), and the latencies are those of the last 10000 samples (`latencies_ranked`).
-/

namespace Aevrix.Observability
open Keyed Statistics

/-- The atomic counters. -/
inductive Counter where
  | requests | connections | activeConnections | errors | bytesSent | bytesReceived | parserFailures
  deriving DecidableEq

/-- `MAX_LATENCY_SAMPLES`. -/
def maxLatencySamples : ℕ := 10000

structure Metrics where
  totalRequests : UInt64
  statusCodeCounts : List (ℤ × UInt64)
  totalConnections : UInt64
  activeConnections : UInt64
  totalErrors : UInt64
  errorTypeCounts : List (Bytes × UInt64)
  latencySamples : List UInt64
  bytesSent : UInt64
  bytesReceived : UInt64
  parserFailures : UInt64

/-- `counts[key]++`: a key that is not there starts at zero. -/
def bump {κ : Type} [DecidableEq κ] (counts : List (κ × UInt64)) (key : κ) : List (κ × UInt64) :=
  match counts.lookup key with
  | some count => put counts key (count + 1)
  | none => counts ++ [(key, 1)]

/-- The count of a key, zero where there is none. -/
def countOf {κ : Type} [DecidableEq κ] (counts : List (κ × UInt64)) (key : κ) : UInt64 :=
  (counts.lookup key).getD 0

def zeroed {κ : Type} (counts : List (κ × UInt64)) : List (κ × UInt64) :=
  counts.map fun e => (e.1, 0)

namespace Metrics

/-- The constructor (`metrics.cpp:24-46`). -/
def new : Metrics where
  totalRequests := 0
  statusCodeCounts := zeroed ([200, 201, 204, 206, 304, 400, 401, 403, 404, 405, 409, 413, 429, 500,
    501, 502, 503].map fun code => (code, 0))
  totalConnections := 0
  activeConnections := 0
  totalErrors := 0
  errorTypeCounts := zeroed ([ascii "parse_error", ascii "timeout", ascii "io_error",
    ascii "connection_error", ascii "configuration_error"].map fun type => (type, 0))
  latencySamples := []
  bytesSent := 0
  bytesReceived := 0
  parserFailures := 0

/-- `load` of a counter. -/
def load (m : Metrics) : Counter → UInt64
  | .requests => m.totalRequests
  | .connections => m.totalConnections
  | .activeConnections => m.activeConnections
  | .errors => m.totalErrors
  | .bytesSent => m.bytesSent
  | .bytesReceived => m.bytesReceived
  | .parserFailures => m.parserFailures

/-- `store` to a counter. -/
def store (m : Metrics) (value : UInt64) : Counter → Metrics
  | .requests => { m with totalRequests := value }
  | .connections => { m with totalConnections := value }
  | .activeConnections => { m with activeConnections := value }
  | .errors => { m with totalErrors := value }
  | .bytesSent => { m with bytesSent := value }
  | .bytesReceived => { m with bytesReceived := value }
  | .parserFailures => { m with parserFailures := value }

def fetchAdd (m : Metrics) (c : Counter) (n : UInt64) : Metrics := m.store (m.load c + n) c

def fetchSub (m : Metrics) (c : Counter) (n : UInt64) : Metrics := m.store (m.load c - n) c

def incrementRequests (m : Metrics) : Metrics := m.fetchAdd .requests 1
def incrementConnections (m : Metrics) : Metrics := m.fetchAdd .connections 1
def incrementActiveConnections (m : Metrics) : Metrics := m.fetchAdd .activeConnections 1
def decrementActiveConnections (m : Metrics) : Metrics := m.fetchSub .activeConnections 1
def incrementErrors (m : Metrics) : Metrics := m.fetchAdd .errors 1
def addBytesSent (m : Metrics) (bytes : UInt64) : Metrics := m.fetchAdd .bytesSent bytes
def addBytesReceived (m : Metrics) (bytes : UInt64) : Metrics := m.fetchAdd .bytesReceived bytes
def incrementParserFailures (m : Metrics) : Metrics := m.fetchAdd .parserFailures 1

/-- `increment_status_code` (`metrics.cpp:52-55`). -/
def incrementStatusCode (m : Metrics) (statusCode : ℤ) : Metrics :=
  { m with statusCodeCounts := bump m.statusCodeCounts statusCode }

/-- `status_code_count` (`metrics.cpp:57-64`). -/
def statusCodeCount (m : Metrics) (statusCode : ℤ) : UInt64 := countOf m.statusCodeCounts statusCode

/-- `increment_error_type` (`metrics.cpp:70-73`). -/
def incrementErrorType (m : Metrics) (errorType : Bytes) : Metrics :=
  { m with errorTypeCounts := bump m.errorTypeCounts errorType }

/-- `error_type_count` (`metrics.cpp:75-82`). -/
def errorTypeCount (m : Metrics) (errorType : Bytes) : UInt64 := countOf m.errorTypeCounts errorType

/-- `record_latency` (`metrics.cpp:88-98`). -/
def recordLatency (m : Metrics) (latencyUs : UInt64) : Metrics :=
  { m with latencySamples := slide maxLatencySamples m.latencySamples latencyUs }

/-- The three percentiles (`metrics.cpp:100-140`). -/
def latencyPercentile (m : Metrics) (percent : ℕ) : UInt64 :=
  if m.latencySamples = [] then 0
  else ((ascending m.latencySamples)[m.latencySamples.length * percent / 100]?).getD 0

def latencyP50 (m : Metrics) : UInt64 := m.latencyPercentile 50
def latencyP95 (m : Metrics) : UInt64 := m.latencyPercentile 95
def latencyP99 (m : Metrics) : UInt64 := m.latencyPercentile 99

/-- `latency_mean` (`metrics.cpp:142-151`); the sum is one of 64 bits. -/
def latencyMean (m : Metrics) : UInt64 :=
  if m.latencySamples = [] then 0
  else m.latencySamples.foldl (· + ·) 0 / UInt64.ofNat m.latencySamples.length

/-- `reset` (`metrics.cpp:285-316`). -/
def reset (m : Metrics) : Metrics where
  totalRequests := 0
  statusCodeCounts := zeroed m.statusCodeCounts
  totalConnections := 0
  activeConnections := 0
  totalErrors := 0
  errorTypeCounts := zeroed m.errorTypeCounts
  latencySamples := []
  bytesSent := 0
  bytesReceived := 0
  parserFailures := 0

end Metrics

/-! ### Actions -/

inductive Action where
  | fetchAdd (c : Counter) (n : UInt64)
  | fetchSub (c : Counter) (n : UInt64)
  | zero (c : Counter)
  | incrementStatusCode (statusCode : ℤ)
  | zeroStatusCodes
  | incrementErrorType (errorType : Bytes)
  | zeroErrorTypes
  | recordLatency (latencyUs : UInt64)
  | clearLatencies
  deriving DecidableEq

namespace Metrics

def act (m : Metrics) : Action → Metrics
  | .fetchAdd c n => m.fetchAdd c n
  | .fetchSub c n => m.fetchSub c n
  | .zero c => m.store 0 c
  | .incrementStatusCode statusCode => m.incrementStatusCode statusCode
  | .zeroStatusCodes => { m with statusCodeCounts := zeroed m.statusCodeCounts }
  | .incrementErrorType errorType => m.incrementErrorType errorType
  | .zeroErrorTypes => { m with errorTypeCounts := zeroed m.errorTypeCounts }
  | .recordLatency latencyUs => m.recordLatency latencyUs
  | .clearLatencies => { m with latencySamples := [] }

def run (m : Metrics) (actions : List Action) : Metrics := actions.foldl act m

/-- The actions of `reset`, in its order. -/
def resetActions : List Action :=
  [.zero .requests, .zero .connections, .zero .activeConnections, .zero .errors, .zero .bytesSent,
    .zero .bytesReceived, .zero .parserFailures, .zeroStatusCodes, .zeroErrorTypes, .clearLatencies]

/-! ### Counters -/

/-- What an action adds to a counter. -/
def delta (c : Counter) : Action → ℤ
  | .fetchAdd c' n => if c' = c then n.toNat else 0
  | .fetchSub c' n => if c' = c then -n.toNat else 0
  | _ => 0

theorem load_store (m : Metrics) (value : UInt64) (c c' : Counter) :
    (m.store value c').load c = if c' = c then value else m.load c := by
  cases c <;> cases c' <;> rfl

theorem load_act (m : Metrics) (c : Counter) {a : Action} (ha : a ≠ .zero c) :
    (((m.act a).load c).toNat : ℤ) = ((m.load c).toNat + delta c a) % 2 ^ 64 := by
  have hlt := (m.load c).toNat_lt
  have hsame : ∀ m' : Metrics, m'.load c = m.load c →
      ((m'.load c).toNat : ℤ) = ((m.load c).toNat + 0) % 2 ^ 64 := by
    intro m' h
    rw [h]
    omega
  cases a with
  | fetchAdd c' n =>
    show (((m.store (m.load c' + n) c').load c).toNat : ℤ) = ((m.load c).toNat + delta c (.fetchAdd c' n)) % 2 ^ 64
    rw [load_store, delta]
    split
    · rename_i h
      rw [h, UInt64.toNat_add]
      omega
    · exact hsame m rfl
  | fetchSub c' n =>
    show (((m.store (m.load c' - n) c').load c).toNat : ℤ) = ((m.load c).toNat + delta c (.fetchSub c' n)) % 2 ^ 64
    rw [load_store, delta]
    have hn := n.toNat_lt
    split
    · rename_i h
      rw [h, UInt64.toNat_sub]
      omega
    · exact hsame m rfl
  | zero c' =>
    have hne : c' ≠ c := fun h => ha (congrArg Action.zero h)
    refine hsame _ ?_
    show (m.store 0 c').load c = m.load c
    rw [load_store, if_neg hne]
  | incrementStatusCode statusCode => exact hsame _ (by cases c <;> rfl)
  | zeroStatusCodes => exact hsame _ (by cases c <;> rfl)
  | incrementErrorType errorType => exact hsame _ (by cases c <;> rfl)
  | zeroErrorTypes => exact hsame _ (by cases c <;> rfl)
  | recordLatency latencyUs => exact hsame _ (by cases c <;> rfl)
  | clearLatencies => exact hsame _ (by cases c <;> rfl)

/-- What is read is the sum of what was added since it was set to zero. -/
theorem wrapped_foldl {ε : Type} (step : Metrics → ε → Metrics) (read : Metrics → UInt64)
    (isReset : ε → Bool) (added : ε → ℤ) (hnew : read new = 0)
    (hreset : ∀ (m : Metrics) e, isReset e = true → read (step m e) = 0)
    (hstep : ∀ (m : Metrics) e, isReset e = false →
      ((read (step m e)).toNat : ℤ) = ((read m).toNat + added e) % 2 ^ 64) (events : List ε) :
    ((read (events.foldl step new)).toNat : ℤ) =
      ((since isReset events).map added).sum % 2 ^ 64 := by
  have hrun := value_run step (fun m => ((read m).toNat : ℤ)) isReset
    (fun v e => (v + added e) % 2 ^ 64) (s := new) (fun m e he => by rw [hreset m e he, hnew])
    hstep events
  have hsum := foldl_wrap (2 ^ 64) added (since isReset events) 0
  rw [zero_add] at hsum
  rw [← hsum]
  refine hrun.trans ?_
  rw [hnew]
  rfl

theorem load_new (c : Counter) : new.load c = 0 := by cases c <;> rfl

theorem load_run (actions : List Action) (c : Counter) :
    (((new.run actions).load c).toNat : ℤ) =
      ((since (fun a => decide (a = .zero c)) actions).map (delta c)).sum % 2 ^ 64 := by
  refine wrapped_foldl act (fun m => m.load c) _ (delta c) (load_new c) (fun m a ha => ?_)
    (fun m a ha => ?_) actions
  · rw [of_decide_eq_true ha]
    show (m.store 0 c).load c = 0
    rw [load_store, if_pos rfl]
  · exact load_act m c (of_decide_eq_false ha)

/-! ### Counts by key -/

section counts
variable {κ : Type} [DecidableEq κ]

theorem countOf_bump (counts : List (κ × UInt64)) (key key' : κ) :
    countOf (bump counts key) key' = countOf counts key' + if key = key' then 1 else 0 := by
  unfold bump countOf
  cases hlookup : counts.lookup key with
  | none =>
    rw [List.lookup_append]
    by_cases hkey : key = key'
    · rw [if_pos hkey, ← hkey, hlookup, List.lookup_cons_self]
      rfl
    · have hother : ([(key, 1)] : List (κ × UInt64)).lookup key' = none := by
        rw [List.lookup_cons, beq_false_of_ne (Ne.symm hkey)]
        rfl
      rw [if_neg hkey, hother, Option.or_none, UInt64.add_zero]
  | some count =>
    by_cases hkey : key = key'
    · rw [if_pos hkey, ← hkey, lookup_put_self (mem_keys_of_lookup hlookup), hlookup]
      rfl
    · rw [if_neg hkey, lookup_put_of_ne (Ne.symm hkey), UInt64.add_zero]

theorem countOf_zeroed (counts : List (κ × UInt64)) (key : κ) : countOf (zeroed counts) key = 0 := by
  rw [countOf, zeroed, lookup_map_snd (fun _ => (0 : UInt64)) counts key]
  cases counts.lookup key <;> rfl

theorem toNat_countOf_bump (counts : List (κ × UInt64)) (key key' : κ) :
    ((countOf (bump counts key) key').toNat : ℤ) =
      ((countOf counts key').toNat + if key = key' then 1 else 0) % 2 ^ 64 := by
  rw [countOf_bump, UInt64.toNat_add]
  split <;> rfl

end counts

theorem sum_map_eq_count (actions : List Action) (b : Action) :
    (actions.map fun a => if a = b then (1 : ℤ) else 0).sum = actions.count b := by
  induction actions with
  | nil => rfl
  | cons a actions ih =>
    rw [List.map_cons, List.sum_cons, ih, List.count_cons]
    by_cases hab : a = b
    · rw [if_pos hab, if_pos (by rw [hab, beq_self_eq_true]), Nat.cast_add, add_comm]
      rfl
    · rw [if_neg hab, if_neg (by rwa [beq_iff_eq]), zero_add, add_zero]

theorem statusCodeCount_run (actions : List Action) (code : ℤ) :
    (((new.run actions).statusCodeCount code).toNat : ℤ) =
      (since (fun a => decide (a = .zeroStatusCodes)) actions).count
        (.incrementStatusCode code) % 2 ^ 64 := by
  rw [← sum_map_eq_count]
  refine wrapped_foldl act (fun m => m.statusCodeCount code) _ _ (countOf_zeroed _ _)
    (fun m a ha => ?_) (fun m a ha => ?_) actions
  · rw [of_decide_eq_true ha]
    exact countOf_zeroed _ _
  · have hsame : ∀ m' : Metrics, m'.statusCodeCount code = m.statusCodeCount code →
        ((m'.statusCodeCount code).toNat : ℤ) = ((m.statusCodeCount code).toNat + 0) % 2 ^ 64 := by
      intro m' h
      have hlt := (m.statusCodeCount code).toNat_lt
      rw [h]
      omega
    cases a with
    | incrementStatusCode code' =>
      show ((countOf (bump m.statusCodeCounts code') code).toNat : ℤ) = _
      rw [toNat_countOf_bump]
      simp only [Action.incrementStatusCode.injEq, statusCodeCount]
    | zeroStatusCodes => exact absurd rfl (of_decide_eq_false ha)
    | fetchAdd c n => exact hsame _ (by cases c <;> rfl)
    | fetchSub c n => exact hsame _ (by cases c <;> rfl)
    | zero c => exact hsame _ (by cases c <;> rfl)
    | incrementErrorType errorType => exact hsame _ rfl
    | zeroErrorTypes => exact hsame _ rfl
    | recordLatency latencyUs => exact hsame _ rfl
    | clearLatencies => exact hsame _ rfl

theorem errorTypeCount_run (actions : List Action) (type : Bytes) :
    (((new.run actions).errorTypeCount type).toNat : ℤ) =
      (since (fun a => decide (a = .zeroErrorTypes)) actions).count
        (.incrementErrorType type) % 2 ^ 64 := by
  rw [← sum_map_eq_count]
  refine wrapped_foldl act (fun m => m.errorTypeCount type) _ _ (countOf_zeroed _ _)
    (fun m a ha => ?_) (fun m a ha => ?_) actions
  · rw [of_decide_eq_true ha]
    exact countOf_zeroed _ _
  · have hsame : ∀ m' : Metrics, m'.errorTypeCount type = m.errorTypeCount type →
        ((m'.errorTypeCount type).toNat : ℤ) = ((m.errorTypeCount type).toNat + 0) % 2 ^ 64 := by
      intro m' h
      have hlt := (m.errorTypeCount type).toNat_lt
      rw [h]
      omega
    cases a with
    | incrementErrorType type' =>
      show ((countOf (bump m.errorTypeCounts type') type).toNat : ℤ) = _
      rw [toNat_countOf_bump]
      simp only [Action.incrementErrorType.injEq, errorTypeCount]
    | zeroErrorTypes => exact absurd rfl (of_decide_eq_false ha)
    | fetchAdd c n => exact hsame _ (by cases c <;> rfl)
    | fetchSub c n => exact hsame _ (by cases c <;> rfl)
    | zero c => exact hsame _ (by cases c <;> rfl)
    | incrementStatusCode code => exact hsame _ rfl
    | zeroStatusCodes => exact hsame _ rfl
    | recordLatency latencyUs => exact hsame _ rfl
    | clearLatencies => exact hsame _ rfl

/-- Every count is exact, modulo 2^64, whatever the order in which the threads act: what was added
since the last zero. -/
theorem counters_exact (actions : List Action) :
    (∀ c, (((new.run actions).load c).toNat : ℤ) =
      ((since (fun a => decide (a = .zero c)) actions).map (delta c)).sum % 2 ^ 64) ∧
    (∀ code, (((new.run actions).statusCodeCount code).toNat : ℤ) =
      (since (fun a => decide (a = .zeroStatusCodes)) actions).count
        (.incrementStatusCode code) % 2 ^ 64) ∧
    ∀ type, (((new.run actions).errorTypeCount type).toNat : ℤ) =
      (since (fun a => decide (a = .zeroErrorTypes)) actions).count
        (.incrementErrorType type) % 2 ^ 64 :=
  ⟨load_run actions, statusCodeCount_run actions, errorTypeCount_run actions⟩

/-! ### The methods -/

end Metrics

/-- The methods that change the metrics. -/
inductive Method where
  | incrementRequests | incrementConnections
  | incrementActiveConnections | decrementActiveConnections
  | incrementErrors | incrementParserFailures
  | addBytesSent (bytes : UInt64)
  | addBytesReceived (bytes : UInt64)
  | incrementStatusCode (statusCode : ℤ)
  | incrementErrorType (errorType : Bytes)
  | recordLatency (latencyUs : UInt64)
  | reset
  deriving DecidableEq

namespace Metrics

def call (m : Metrics) : Method → Metrics
  | .incrementRequests => m.incrementRequests
  | .incrementConnections => m.incrementConnections
  | .incrementActiveConnections => m.incrementActiveConnections
  | .decrementActiveConnections => m.decrementActiveConnections
  | .incrementErrors => m.incrementErrors
  | .incrementParserFailures => m.incrementParserFailures
  | .addBytesSent bytes => m.addBytesSent bytes
  | .addBytesReceived bytes => m.addBytesReceived bytes
  | .incrementStatusCode statusCode => m.incrementStatusCode statusCode
  | .incrementErrorType errorType => m.incrementErrorType errorType
  | .recordLatency latencyUs => m.recordLatency latencyUs
  | .reset => m.reset

/-- The actions of a method: one, but for `reset`. -/
def actions : Method → List Action
  | .incrementRequests => [.fetchAdd .requests 1]
  | .incrementConnections => [.fetchAdd .connections 1]
  | .incrementActiveConnections => [.fetchAdd .activeConnections 1]
  | .decrementActiveConnections => [.fetchSub .activeConnections 1]
  | .incrementErrors => [.fetchAdd .errors 1]
  | .incrementParserFailures => [.fetchAdd .parserFailures 1]
  | .addBytesSent bytes => [.fetchAdd .bytesSent bytes]
  | .addBytesReceived bytes => [.fetchAdd .bytesReceived bytes]
  | .incrementStatusCode statusCode => [.incrementStatusCode statusCode]
  | .incrementErrorType errorType => [.incrementErrorType errorType]
  | .recordLatency latencyUs => [.recordLatency latencyUs]
  | .reset => resetActions

theorem run_actions (m : Metrics) (method : Method) : m.run (actions method) = m.call method := by
  cases method <;> rfl

/-- A method other than `reset` is one action, which sets no counter to zero. -/
theorem actions_single {method : Method} (h : method ≠ .reset) :
    ∃ a, actions method = [a] ∧ ∀ c, a ≠ .zero c := by
  cases method with
  | reset => exact absurd rfl h
  | _ => exact ⟨_, rfl, fun _ heq => by cases heq⟩

/-- The counters behind any calls: what the methods added since the last `reset`. -/
theorem load_calls (methods : List Method) (c : Counter) :
    (((methods.foldl call new).load c).toNat : ℤ) =
      ((since (fun method => decide (method = .reset)) methods).map fun method =>
        ((actions method).map (delta c)).sum).sum % 2 ^ 64 := by
  refine wrapped_foldl call (fun m => m.load c) _ _ (load_new c) (fun m method hmethod => ?_)
    (fun m method hmethod => ?_) methods
  · rw [of_decide_eq_true hmethod]
    cases c <;> rfl
  · obtain ⟨a, hactions, hzero⟩ := actions_single (of_decide_eq_false hmethod)
    have hact : m.call method = m.act a := by
      rw [← run_actions, hactions]
      rfl
    rw [hact, hactions, load_act m c (hzero c), List.map_singleton, List.sum_singleton]

/-! ### Latencies -/

/-- The latencies recorded since the samples were cleared. -/
def recorded (actions : List Action) : List UInt64 :=
  (since (fun a => decide (a = .clearLatencies)) actions).filterMap fun
    | .recordLatency latencyUs => some latencyUs
    | _ => none

/-- The samples are the last 10000 that were recorded. -/
theorem latencySamples_run (actions : List Action) :
    (new.run actions).latencySamples = (recorded actions).rtake maxLatencySamples := by
  have hrun := value_run act latencySamples (fun a => decide (a = .clearLatencies))
    (fun samples a => match a with
      | .recordLatency latencyUs => slide maxLatencySamples samples latencyUs
      | _ => samples)
    (s := new) (fun m a ha => ?_) (fun m a ha => ?_) actions
  · refine hrun.trans ?_
    have hslide := foldl_slide maxLatencySamples [] (recorded actions)
    rw [List.nil_append, List.rtake_nil] at hslide
    rw [← hslide, recorded, List.foldl_filterMap]
    congr 1
    funext samples a
    cases a <;> rfl
  · rw [of_decide_eq_true ha]
    rfl
  · cases a with
    | clearLatencies => exact absurd rfl (of_decide_eq_false ha)
    | fetchAdd c n => cases c <;> rfl
    | fetchSub c n => cases c <;> rfl
    | zero c => cases c <;> rfl
    | incrementStatusCode code => rfl
    | zeroStatusCodes => rfl
    | incrementErrorType type => rfl
    | zeroErrorTypes => rfl
    | recordLatency latencyUs => rfl

theorem latencyPercentile_of_nil {m : Metrics} (h : m.latencySamples = []) (percent : ℕ) :
    m.latencyPercentile percent = 0 := if_pos h

theorem latencyPercentile_hasRank {m : Metrics} (h : m.latencySamples ≠ []) {percent : ℕ}
    (hpercent : percent < 100) :
    HasRank m.latencySamples (m.latencySamples.length * percent / 100)
      (m.latencyPercentile percent) := by
  have hpos := List.length_pos_of_ne_nil h
  have hindex : m.latencySamples.length * percent / 100 < m.latencySamples.length :=
    Nat.div_lt_of_lt_mul (by rw [Nat.mul_comm 100]; exact Nat.mul_lt_mul_of_pos_left hpercent hpos)
  obtain ⟨v, hget, hrank⟩ := exists_hasRank hindex
  rw [latencyPercentile, if_neg h, hget]
  exact hrank

theorem latencyPercentile_mono (m : Metrics) {p q : ℕ} (hpq : p ≤ q) (hq : q < 100) :
    m.latencyPercentile p ≤ m.latencyPercentile q := by
  by_cases h : m.latencySamples = []
  · rw [latencyPercentile_of_nil h, latencyPercentile_of_nil h]
    exact UInt64.le_refl 0
  · exact (latencyPercentile_hasRank h (by omega)).mono (latencyPercentile_hasRank h hq)
      (Nat.div_le_div_right (Nat.mul_le_mul_left _ hpq))

theorem toNat_foldl_add (xs : List UInt64) (v : UInt64)
    (h : v.toNat + (xs.map UInt64.toNat).sum < 2 ^ 64) :
    (xs.foldl (· + ·) v).toNat = v.toNat + (xs.map UInt64.toNat).sum := by
  induction xs generalizing v with
  | nil => rfl
  | cons x xs ih =>
    rw [List.map_cons, List.sum_cons] at h
    have hstep : (v + x).toNat = v.toNat + x.toNat := by
      rw [UInt64.toNat_add]
      exact Nat.mod_eq_of_lt (by omega)
    rw [List.foldl_cons, ih (v + x) (by rw [hstep]; omega), hstep, List.map_cons, List.sum_cons,
      Nat.add_assoc]

theorem latencyMean_exact {m : Metrics} (hlength : m.latencySamples.length ≤ maxLatencySamples)
    (h : (m.latencySamples.map UInt64.toNat).sum < 2 ^ 64) :
    m.latencyMean.toNat =
      (m.latencySamples.map UInt64.toNat).sum / m.latencySamples.length := by
  unfold latencyMean
  split
  · rename_i hnil
    rw [hnil]
    rfl
  · have hsum := toNat_foldl_add m.latencySamples 0 (by rwa [UInt64.toNat_zero, zero_add])
    have hcount : (UInt64.ofNat m.latencySamples.length).toNat = m.latencySamples.length := by
      rw [UInt64.toNat_ofNat']
      exact Nat.mod_eq_of_lt (by rw [maxLatencySamples] at hlength; omega)
    rw [UInt64.toNat_div, hsum, hcount, UInt64.toNat_zero, zero_add]

/-- Over any order of actions the percentiles are those of the last 10000 latencies recorded since
the samples were cleared, each the latency of its rank, and they are in order; the mean is exact
while the sum is below 2^64. -/
theorem latencies_ranked (actions : List Action) :
    let m := new.run actions
    let window := (recorded actions).rtake maxLatencySamples
    m.latencyP50 ≤ m.latencyP95 ∧ m.latencyP95 ≤ m.latencyP99 ∧
    (window = [] → m.latencyP50 = 0 ∧ m.latencyP95 = 0 ∧ m.latencyP99 = 0) ∧
    (window ≠ [] → HasRank window (window.length * 50 / 100) m.latencyP50 ∧
      HasRank window (window.length * 95 / 100) m.latencyP95 ∧
      HasRank window (window.length * 99 / 100) m.latencyP99) ∧
    ((window.map UInt64.toNat).sum < 2 ^ 64 →
      m.latencyMean.toNat = (window.map UInt64.toNat).sum / window.length) := by
  intro m window
  have hwindow : m.latencySamples = window := latencySamples_run actions
  have hlength : window.length ≤ maxLatencySamples := by
    simp only [window, List.rtake, List.length_drop]
    omega
  refine ⟨latencyPercentile_mono m (by omega) (by omega),
    latencyPercentile_mono m (by omega) (by omega), fun h => ?_, fun h => ?_, fun h => ?_⟩
  · rw [← hwindow] at h
    exact ⟨latencyPercentile_of_nil h 50, latencyPercentile_of_nil h 95,
      latencyPercentile_of_nil h 99⟩
  · rw [← hwindow] at h ⊢
    exact ⟨latencyPercentile_hasRank h (by omega), latencyPercentile_hasRank h (by omega),
      latencyPercentile_hasRank h (by omega)⟩
  · rw [← hwindow] at h hlength ⊢
    exact latencyMean_exact hlength h

/-- Two samples of five and three microseconds after a reset. -/
theorem latencies_ranked_two :
    let m := new.run (.recordLatency 9 :: resetActions ++ [.recordLatency 5, .recordLatency 3])
    HasRank [5, 3] 1 m.latencyP50 ∧ m.latencyMean.toNat = 4 := by
  obtain ⟨-, -, -, hranks, hmean⟩ := latencies_ranked
    (.recordLatency 9 :: resetActions ++ [.recordLatency 5, .recordLatency 3])
  exact ⟨(hranks (by decide)).1, hmean (by decide)⟩

end Metrics
end Aevrix.Observability
