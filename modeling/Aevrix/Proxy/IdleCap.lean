import Aevrix.Proxy.Lifecycle

/-!
# The cap on idle connections

`release` asks for room before it parks a descriptor. A new cap is stored and closes nothing, so
the buckets stay under the cap as long as no new cap is below one of them
(`capped_iff_capsFit`).
-/

namespace Aevrix.Proxy.UpstreamPool

/-- `set_max_idle_per_target` (`upstream_pool.h:82`). -/
def setMaxIdlePerTarget (p : UpstreamPool) (value : ℕ) : UpstreamPool :=
  { p with maxIdlePerTarget := value }

/-- `set_idle_timeout_ms` (`upstream_pool.h:85`). -/
def setIdleTimeoutMs (p : UpstreamPool) (value : ℕ) : UpstreamPool :=
  { p with idleTimeoutMs := value }

theorem pool_refreshRuntimeLimits (h : Lifecycle.ProxyHandler) (maxIdle idleTimeoutMs : ℕ) :
    (h.refreshRuntimeLimits maxIdle idleTimeoutMs).pool =
      (h.pool.setMaxIdlePerTarget maxIdle).setIdleTimeoutMs idleTimeoutMs := rfl

inductive PoolCall where
  | acquire (target : ProxyTarget) (connect : Connect)
  | release (target : ProxyTarget) (fd : ℤ) (now : ℕ)
  | sweepIdle (now : ℕ)
  | closeAll
  | setMaxIdlePerTarget (value : ℕ)
  | setIdleTimeoutMs (value : ℕ)
  deriving DecidableEq

/-- The pool behind a call. -/
def call (p : UpstreamPool) : PoolCall → UpstreamPool
  | .acquire target connect => (p.acquire target connect).2.1
  | .release target fd now => (p.release target fd now).1
  | .sweepIdle now => (p.sweepIdle now).1
  | .closeAll => p.closeAll.1
  | .setMaxIdlePerTarget value => p.setMaxIdlePerTarget value
  | .setIdleTimeoutMs value => p.setIdleTimeoutMs value

def runCalls (p : UpstreamPool) (calls : List PoolCall) : UpstreamPool := calls.foldl call p

/-! ### The buckets under a cap -/

def Under (n : ℕ) (idle : List (Bytes × List IdleConnection)) : Prop :=
  ∀ b ∈ idle, b.2.length ≤ n

section buckets
variable {n : ℕ} {key : Bytes} {idle idle' rest : List (Bytes × List IdleConnection)}
  {b : Bytes × List IdleConnection}

theorem under_cons : Under n (b :: rest) ↔ b.2.length ≤ n ∧ Under n rest := List.forall_mem_cons

theorem Under.addTo (h : Under n idle) (hn : n ≠ 0)
    (hroom : ∀ bucket, idle.lookup key = some bucket → bucket.length < n)
    (connection : IdleConnection) : Under n (addTo key connection idle) := by
  induction idle with
  | nil =>
    intro b hb
    rw [List.mem_singleton.mp hb]
    exact Nat.one_le_iff_ne_zero.mpr hn
  | cons b rest ih =>
    obtain ⟨k, bucket⟩ := b
    obtain ⟨hbucket, hrest⟩ := under_cons.mp h
    rw [UpstreamPool.addTo]
    split
    · rename_i hkey
      have hlt := hroom bucket (by rw [hkey, List.lookup_cons_self])
      apply under_cons.mpr
      refine ⟨?_, hrest⟩
      rw [List.length_append]
      exact hlt
    · rename_i hkey
      have hne : (key == k) = false := beq_false_of_ne (Ne.symm hkey)
      apply under_cons.mpr
      refine ⟨hbucket, ih hrest fun bucket' hlookup => hroom bucket' ?_⟩
      rw [List.lookup_cons, hne]
      exact hlookup

theorem Under.takeBack {fd : ℤ} (h : Under n idle) (htake : takeBack key idle = some (fd, idle')) :
    Under n idle' := by
  induction idle generalizing fd idle' with
  | nil => cases htake
  | cons b rest ih =>
    obtain ⟨k, bucket⟩ := b
    obtain ⟨hbucket, hrest⟩ := under_cons.mp h
    rw [UpstreamPool.takeBack] at htake
    split at htake
    · split at htake
      · cases htake
      · simp only [Option.some.injEq, Prod.mk.injEq] at htake
        rw [← htake.2]
        split
        · exact hrest
        · apply under_cons.mpr
          refine ⟨?_, hrest⟩
          rw [List.length_dropLast]
          exact (Nat.sub_le _ _).trans hbucket
    · split at htake
      · cases htake
      · rename_i fd' rest' hback
        simp only [Option.some.injEq, Prod.mk.injEq] at htake
        rw [← htake.2]
        exact under_cons.mpr ⟨hbucket, ih hrest hback⟩

end buckets

/-- No bucket is over the configured cap. -/
def Capped (p : UpstreamPool) : Prop := Under p.maxIdlePerTarget p.idle

/-- A new cap is not below a bucket that is there. -/
def CapFits (p : UpstreamPool) : PoolCall → Prop
  | .setMaxIdlePerTarget value => Under value p.idle
  | _ => True

/-- Every cap that is set in a run fits. -/
def CapsFit (p : UpstreamPool) : List PoolCall → Prop
  | [] => True
  | k :: calls => p.CapFits k ∧ (p.call k).CapsFit calls

variable {p : UpstreamPool}

theorem Capped.acquire (h : Capped p) (target : ProxyTarget) (connect : Connect) :
    Capped (p.acquire target connect).2.1 := by
  unfold UpstreamPool.acquire
  split
  · rename_i htake
    exact Under.takeBack h htake
  · exact h

theorem Capped.release (h : Capped p) (target : ProxyTarget) (fd : ℤ) (now : ℕ) :
    Capped (p.release target fd now).1 := by
  unfold UpstreamPool.release
  split
  · exact h
  split
  · exact h
  rename_i hmax
  split
  · rename_i bucket hlookup
    split
    · exact h
    · rename_i hroom
      refine Under.addTo h hmax (fun bucket' hbucket => ?_) _
      have hsame : bucket = bucket' := Option.some.inj (hlookup.symm.trans hbucket)
      rw [← hsame]
      exact Nat.lt_of_not_le hroom
  · rename_i hlookup
    refine Under.addTo h hmax (fun bucket' hbucket => ?_) _
    rw [hlookup] at hbucket
    cases hbucket

theorem Capped.sweepIdle (h : Capped p) (now : ℕ) : Capped (p.sweepIdle now).1 := by
  intro b hb
  obtain ⟨b', hb', rfl⟩ := List.mem_map.mp (List.mem_filter.mp hb).1
  exact (List.length_filter_le _ _).trans (h b' hb')

/-- A call keeps the buckets under the cap, unless it sets a cap that is below one of them. -/
theorem capped_call (h : Capped p) (k : PoolCall) : Capped (p.call k) ↔ p.CapFits k := by
  cases k with
  | acquire target connect => exact iff_of_true (h.acquire target connect) trivial
  | release target fd now => exact iff_of_true (h.release target fd now) trivial
  | sweepIdle now => exact iff_of_true (h.sweepIdle now) trivial
  | closeAll => exact iff_of_true (fun _ hb => absurd hb List.not_mem_nil) trivial
  | setMaxIdlePerTarget value => rfl
  | setIdleTimeoutMs value => exact iff_of_true h trivial

theorem Capped.run (h : Capped p) (calls : List PoolCall) :
    (∀ done, done <+: calls → (p.runCalls done).Capped) ↔ p.CapsFit calls := by
  induction calls generalizing p with
  | nil =>
    refine iff_of_true (fun done hdone => ?_) trivial
    rw [List.prefix_nil.mp hdone]
    exact h
  | cons k calls ih =>
    rw [CapsFit]
    constructor
    · intro hall
      have hcall : (p.call k).Capped :=
        hall [k] (List.cons_prefix_cons.mpr ⟨rfl, List.nil_prefix⟩)
      have hrest : ∀ done, done <+: calls → ((p.call k).runCalls done).Capped :=
        fun done hdone => hall (k :: done) (List.cons_prefix_cons.mpr ⟨rfl, hdone⟩)
      exact ⟨(capped_call h k).mp hcall, (ih hcall).mp hrest⟩
    · rintro ⟨hfits, hrest⟩ done hdone
      have hcall := (capped_call h k).mpr hfits
      cases done with
      | nil => exact h
      | cons k' done =>
        obtain ⟨rfl, hbefore⟩ := List.cons_prefix_cons.mp hdone
        exact (ih hcall).mpr hrest done hbefore

/-- Along any calls on an empty pool, every bucket is under the cap that is configured then, if and
only if no call sets a cap below a bucket that the pool holds. -/
theorem capped_iff_capsFit (maxIdlePerTarget idleTimeoutMs : ℕ) (calls : List PoolCall) :
    let p : UpstreamPool := { maxIdlePerTarget, idleTimeoutMs }
    (∀ done, done <+: calls → (p.runCalls done).Capped) ↔ p.CapsFit calls :=
  Capped.run (fun _ hb => absurd hb List.not_mem_nil) calls

/-- Two idle connections, and then a cap of one. -/
theorem lowered_cap_ignored : ¬∀ (maxIdlePerTarget idleTimeoutMs : ℕ) (calls : List PoolCall),
    (runCalls { maxIdlePerTarget, idleTimeoutMs } calls).Capped := by
  intro h
  have hcapped := h 4 60000 [.release ⟨[], 80⟩ 3 0, .release ⟨[], 80⟩ 5 0, .setMaxIdlePerTarget 1]
  have htwo : 2 ≤ 1 := hcapped _ List.mem_cons_self
  omega

end Aevrix.Proxy.UpstreamPool
