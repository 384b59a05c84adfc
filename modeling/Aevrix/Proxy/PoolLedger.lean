import Aevrix.Proxy.UpstreamPool

/-!
# Where the descriptors of the pool are

Each release gets a number. `Ledger` runs the pool together with its caller, and keeps for each
number where its descriptor went: handed out again, or closed by the pool; what is in neither
list is idle. `Sound` says that nothing is lost and nothing is in two places.

A descriptor number may come back after it was closed, so releases are numbered rather than
descriptors; `number` is the release of a descriptor that is idle now.
-/

namespace Aevrix.Proxy.UpstreamPool

/-! ### Buckets -/

/-- One bucket for each key, and none of them empty. -/
structure Tidy (idle : List (Bytes × List IdleConnection)) : Prop where
  keys : (idle.map Prod.fst).Nodup
  filled : ∀ b ∈ idle, b.2 ≠ []

section Tidy
variable {key : Bytes} {idle idle' rest : List (Bytes × List IdleConnection)}
  {b : Bytes × List IdleConnection}

theorem Tidy.tail (h : Tidy (b :: rest)) : Tidy rest :=
  ⟨(List.nodup_cons.mp h.keys).2, fun b hb => h.filled b (List.mem_cons_of_mem _ hb)⟩

theorem Tidy.cons (h : Tidy rest) (hkey : b.1 ∉ rest.map Prod.fst) (hfilled : b.2 ≠ []) :
    Tidy (b :: rest) := by
  refine ⟨List.nodup_cons.mpr ⟨hkey, h.keys⟩, fun b' hb' => ?_⟩
  rcases List.mem_cons.mp hb' with rfl | hrest
  · exact hfilled
  · exact h.filled b' hrest

theorem keys_addTo {key' : Bytes} (connection : IdleConnection)
    (h : key' ∈ (addTo key connection idle).map Prod.fst) :
    key' = key ∨ key' ∈ idle.map Prod.fst := by
  induction idle with
  | nil => exact Or.inl (List.mem_singleton.mp h)
  | cons b rest ih =>
    rw [addTo] at h
    split at h
    · exact Or.inr h
    · rcases List.mem_cons.mp h with rfl | hrest
      · exact Or.inr List.mem_cons_self
      · exact (ih hrest).imp_right (List.mem_cons_of_mem _)

theorem Tidy.addTo (h : Tidy idle) (key : Bytes) (connection : IdleConnection) :
    Tidy (addTo key connection idle) := by
  induction idle with
  | nil => exact h.cons (by simp) (by simp)
  | cons b rest ih =>
    have hkey := (List.nodup_cons.mp h.keys).1
    rw [UpstreamPool.addTo]
    split
    · exact h.tail.cons hkey (by simp)
    · rename_i hne
      refine (ih h.tail).cons (fun hmem => ?_) (h.filled b List.mem_cons_self)
      exact (keys_addTo connection hmem).elim hne hkey

theorem keys_takeBack {fd : ℤ} (h : takeBack key idle = some (fd, idle')) :
    (idle'.map Prod.fst).Sublist (idle.map Prod.fst) := by
  induction idle generalizing fd idle' with
  | nil => cases h
  | cons b rest ih =>
    obtain ⟨k, bucket⟩ := b
    rw [takeBack] at h
    split at h
    · split at h
      · cases h
      · simp only [Option.some.injEq, Prod.mk.injEq] at h
        rw [← h.2]
        split
        · exact List.sublist_cons_self ..
        · exact List.Sublist.refl _
    · split at h
      · cases h
      · rename_i fd' rest' htake
        simp only [Option.some.injEq, Prod.mk.injEq] at h
        rw [← h.2]
        exact (ih htake).cons_cons k

theorem Tidy.takeBack {fd : ℤ} (h : Tidy idle) (htake : takeBack key idle = some (fd, idle')) :
    Tidy idle' := by
  refine ⟨h.keys.sublist (keys_takeBack htake), ?_⟩
  induction idle generalizing fd idle' with
  | nil => cases htake
  | cons b rest ih =>
    obtain ⟨k, bucket⟩ := b
    rw [UpstreamPool.takeBack] at htake
    split at htake
    · split at htake
      · cases htake
      · simp only [Option.some.injEq, Prod.mk.injEq] at htake
        rw [← htake.2]
        split
        · exact h.tail.filled
        · rename_i hne
          intro b' hb'
          rcases List.mem_cons.mp hb' with rfl | hrest
          · exact hne
          · exact h.tail.filled b' hrest
    · split at htake
      · cases htake
      · rename_i fd' rest' hrest
        simp only [Option.some.injEq, Prod.mk.injEq] at htake
        rw [← htake.2]
        intro b' hb'
        rcases List.mem_cons.mp hb' with rfl | hmem
        · exact h.filled _ List.mem_cons_self
        · exact ih h.tail hrest b' hmem

end Tidy

section operations
variable {p : UpstreamPool}

theorem tidy_release (h : Tidy p.idle) (target : ProxyTarget) (fd : ℤ) (now : ℕ) :
    Tidy (p.release target fd now).1.idle := by
  unfold release
  split
  · exact h
  split
  · exact h
  split
  · split
    · exact h
    · exact h.addTo _ _
  · exact h.addTo _ _

theorem tidy_acquire (h : Tidy p.idle) (target : ProxyTarget) (connect : Connect) :
    Tidy (p.acquire target connect).2.1.idle := by
  unfold acquire
  cases htake : takeBack target.authority p.idle with
  | some taken => exact h.takeBack htake
  | none => exact h

theorem tidy_sweepIdle (h : Tidy p.idle) (now : ℕ) : Tidy (p.sweepIdle now).1.idle := by
  simp only [sweepIdle]
  refine ⟨?_, fun b hb => ?_⟩
  · have hsub := (List.filter_sublist (l := p.idle.map fun b =>
      (b.1, b.2.filter fun c => !isStale p.idleTimeoutMs now c)) (p := fun b => !b.2.isEmpty)).map
        Prod.fst
    rw [List.map_map] at hsub
    exact h.keys.sublist hsub
  · have hfilled := (List.mem_filter.mp hb).2
    intro hnil
    rw [hnil] at hfilled
    cases hfilled

theorem idleCount_eq (p : UpstreamPool) : p.idleCount = p.parked.length := by
  simp only [idleCount, parked, entries, List.length_flatMap, List.length_map]

/-! ### Staleness -/

/-- Idle for at least the timeout. -/
def idleFor (timeoutMs now : ℕ) (connection : IdleConnection) : Bool :=
  decide (timeoutMs * 1000000 ≤ now - connection.since)

theorem isStale_eq {timeoutMs now : ℕ} {connection : IdleConnection} (h : timeoutMs < 2 ^ 63)
    (hsince : connection.since ≤ now) :
    isStale timeoutMs now connection = idleFor timeoutMs now connection := by
  have hcast : Int.bmod timeoutMs (2 ^ 64) = timeoutMs := by
    rw [Int.bmod_eq_of_le] <;> omega
  have helapsed : (now : ℤ) - connection.since = (now - connection.since : ℕ) := by omega
  have hquot : ((now : ℤ) - connection.since).tdiv 1000000 =
      ((now - connection.since) / 1000000 : ℕ) := by
    rw [helapsed]
    exact (Int.ofNat_tdiv _ 1000000).symm
  rw [isStale, idleFor, hcast, hquot, decide_eq_decide, Int.ofNat_le,
    Nat.le_div_iff_mul_le (by omega)]

theorem isStale_of_large {timeoutMs now : ℕ} {connection : IdleConnection}
    (h : 2 ^ 63 ≤ timeoutMs) (hrange : timeoutMs < 2 ^ 64) (hsince : connection.since ≤ now) :
    isStale timeoutMs now connection = true := by
  have hcast : Int.bmod timeoutMs (2 ^ 64) < 0 := by
    rw [Int.bmod_def, Int.emod_eq_of_lt (by omega) (by omega), if_neg (by omega)]
    omega
  have hquot : 0 ≤ ((now : ℤ) - connection.since).tdiv 1000000 :=
    Int.tdiv_nonneg (by omega) (by omega)
  rw [isStale, decide_eq_true_eq]
  omega

end operations

/-! ### The pool and its caller -/

structure Ledger where
  pool : UpstreamPool
  clock : ℕ
  /-- The descriptors the caller owns. -/
  owned : List ℤ
  /-- Authority and descriptor of each release. -/
  released : List (Bytes × ℤ)
  number : ℤ → ℕ
  handed : List ℕ
  closed : List ℕ

/-- What the caller does; `adopt` and `close` are descriptors it opens and closes itself. -/
inductive Operation where
  | acquire (target : ProxyTarget) (connect : Connect)
  | release (target : ProxyTarget) (fd : ℤ)
  | sweepIdle
  | closeAll
  | adopt (fd : ℤ)
  | close (fd : ℤ)

namespace Ledger

/-- All that is open. -/
def held (l : Ledger) : List ℤ := l.owned ++ l.pool.descriptors

/-- The releases whose descriptor is idle. -/
def idle (l : Ledger) : List ℕ := l.pool.parked.map fun e => l.number e.2.fd

def acquire (l : Ledger) (target : ProxyTarget) (connect : Connect) : Ledger :=
  let (result, pool, _) := l.pool.acquire target connect
  match result with
  | .acquired true fd =>
    { l with pool, owned := fd :: l.owned, handed := l.handed ++ [l.number fd] }
  | .acquired false fd => { l with pool, owned := fd :: l.owned }
  | .failed _ => { l with pool }

def release (l : Ledger) (target : ProxyTarget) (fd : ℤ) : Ledger :=
  let n := l.released.length
  let (pool, closing) := l.pool.release target fd l.clock
  let l := { l with
    pool, owned := l.owned.erase fd, released := l.released ++ [(target.authority, fd)] }
  match closing with
  | some _ => { l with closed := l.closed ++ [n] }
  | none => { l with number := fun d => if d = fd then n else l.number d }

def sweepIdle (l : Ledger) : Ledger :=
  let (pool, closing, _) := l.pool.sweepIdle l.clock
  { l with pool, closed := l.closed ++ closing.map l.number }

def closeAll (l : Ledger) : Ledger :=
  let (pool, closing) := l.pool.closeAll
  { l with pool, closed := l.closed ++ closing.map l.number }

/-- An operation, some time after the one before it. -/
def step (l : Ledger) (wait : ℕ) (operation : Operation) : Ledger :=
  let l := { l with clock := l.clock + wait }
  match operation with
  | .acquire target connect => l.acquire target connect
  | .release target fd => l.release target fd
  | .sweepIdle => l.sweepIdle
  | .closeAll => l.closeAll
  | .adopt fd => { l with owned := fd :: l.owned }
  | .close fd => { l with owned := l.owned.erase fd }

/-- The kernel hands out no descriptor that is open. -/
def Fresh (l : Ledger) (fd : ℤ) : Prop := 0 ≤ fd ∧ fd ∉ l.held

/-- The caller releases what it owns. -/
def Allowed (l : Ledger) : Operation → Prop
  | .acquire _ connect => ∀ fd, connect = .started fd → l.Fresh fd
  | .release _ fd => fd ∈ l.owned
  | .adopt fd => l.Fresh fd
  | _ => True

def run (l : Ledger) : List (ℕ × Operation) → Ledger
  | [] => l
  | (wait, operation) :: steps => (l.step wait operation).run steps

def AllowedRun (l : Ledger) : List (ℕ × Operation) → Prop
  | [] => True
  | (wait, operation) :: steps => l.Allowed operation ∧ (l.step wait operation).AllowedRun steps

/-- A pool that was just made. -/
def new (maxIdlePerTarget : ℕ) (idleTimeoutMs : UInt64) : Ledger where
  pool := { maxIdlePerTarget, idleTimeoutMs := idleTimeoutMs.toNat }
  clock := 0
  owned := []
  released := []
  number := fun _ => 0
  handed := []
  closed := []

/-! ### The invariant -/

structure Sound (maxIdle idleTimeoutMs : ℕ) (l : Ledger) : Prop where
  limits : l.pool.maxIdlePerTarget = maxIdle ∧ l.pool.idleTimeoutMs = idleTimeoutMs
  tidy : Tidy l.pool.idle
  apart : l.held.Nodup
  real : ∀ fd ∈ l.held, 0 ≤ fd
  since : ∀ e ∈ l.pool.parked, e.2.since ≤ l.clock
  filed : ∀ e ∈ l.pool.parked, l.released[l.number e.2.fd]? = some (e.1, e.2.fd)
  places : (l.idle ++ (l.handed ++ l.closed)).Perm (List.range l.released.length)
  shut : maxIdle = 0 → l.pool.parked = []

section Sound
variable {maxIdle idleTimeoutMs : ℕ} {l l' : Ledger} {fd : ℤ}

theorem sound_new (maxIdle : ℕ) (idleTimeoutMs : UInt64) :
    Sound maxIdle idleTimeoutMs.toNat (new maxIdle idleTimeoutMs) := by
  refine ⟨⟨rfl, rfl⟩, ⟨List.nodup_nil, ?_⟩, List.nodup_nil, ?_, ?_, ?_, List.Perm.nil, fun _ => rfl⟩
  all_goals
    intro x hx
    cases hx

theorem Sound.wait (hs : Sound maxIdle idleTimeoutMs l) (wait : ℕ) :
    Sound maxIdle idleTimeoutMs { l with clock := l.clock + wait } :=
  ⟨hs.limits, hs.tidy, hs.apart, hs.real, fun e he => (hs.since e he).trans (Nat.le_add_right ..),
    hs.filed, hs.places, hs.shut⟩

/-- Connections that leave the pool, each for one place, and descriptors that close. -/
theorem Sound.leave (hs : Sound maxIdle idleTimeoutMs l) (gone : List (Bytes × IdleConnection))
    (lost : List ℤ)
    (hlimits : l'.pool.maxIdlePerTarget = l.pool.maxIdlePerTarget ∧
      l'.pool.idleTimeoutMs = l.pool.idleTimeoutMs)
    (htidy : Tidy l'.pool.idle) (hparked : l.pool.parked.Perm (gone ++ l'.pool.parked))
    (hheld : l.held.Perm (lost ++ l'.held)) (hclock : l'.clock = l.clock)
    (hreleased : l'.released = l.released) (hnumber : l'.number = l.number)
    (hplaces : (l'.handed ++ l'.closed).Perm
      (gone.map (fun e => l.number e.2.fd) ++ (l.handed ++ l.closed))) :
    Sound maxIdle idleTimeoutMs l' := by
  have hsub : ∀ e ∈ l'.pool.parked, e ∈ l.pool.parked := fun e he =>
    hparked.mem_iff.mpr (List.mem_append_right _ he)
  refine ⟨⟨hlimits.1.trans hs.limits.1, hlimits.2.trans hs.limits.2⟩, htidy, ?_, ?_, ?_, ?_, ?_, ?_⟩
  · exact (hheld.nodup_iff.mp hs.apart).of_append_right
  · exact fun fd hfd => hs.real fd (hheld.mem_iff.mpr (List.mem_append_right _ hfd))
  · intro e he
    rw [hclock]
    exact hs.since e (hsub e he)
  · intro e he
    rw [hreleased, hnumber]
    exact hs.filed e (hsub e he)
  · have hidle := hparked.map fun e => l.number e.2.fd
    rw [List.map_append] at hidle
    rw [hreleased]
    refine List.Perm.trans ?_ hs.places
    rw [idle, idle, hnumber]
    refine (List.Perm.append_left _ hplaces).trans ?_
    rw [← List.append_assoc]
    exact List.Perm.append_right _ (List.perm_append_comm.trans hidle.symm)
  · intro hmax
    have hnil := hs.shut hmax
    rw [hnil] at hparked
    exact (List.append_eq_nil_iff.mp hparked.symm.eq_nil).2

theorem Sound.adopt (hs : Sound maxIdle idleTimeoutMs l) (hfresh : l.Fresh fd) :
    Sound maxIdle idleTimeoutMs { l with owned := fd :: l.owned } := by
  refine ⟨hs.limits, hs.tidy, List.nodup_cons.mpr ⟨hfresh.2, hs.apart⟩, ?_, hs.since, hs.filed,
    hs.places, hs.shut⟩
  intro d hd
  rcases List.mem_cons.mp hd with rfl | hd
  · exact hfresh.1
  · exact hs.real d hd

theorem Sound.close (hs : Sound maxIdle idleTimeoutMs l) (fd : ℤ) :
    Sound maxIdle idleTimeoutMs { l with owned := l.owned.erase fd } := by
  have hheld : ∃ lost, l.held.Perm (lost ++ (l.owned.erase fd ++ l.pool.descriptors)) := by
    by_cases hfd : fd ∈ l.owned
    · exact ⟨[fd], (List.perm_cons_erase hfd).append_right _⟩
    · rw [List.erase_of_not_mem hfd]
      exact ⟨[], List.Perm.refl _⟩
  obtain ⟨lost, hheld⟩ := hheld
  exact hs.leave [] lost ⟨rfl, rfl⟩ hs.tidy (List.Perm.refl _) hheld rfl rfl rfl (List.Perm.refl _)

theorem Sound.acquire (hs : Sound maxIdle idleTimeoutMs l) (target : ProxyTarget)
    (connect : Connect) (hfresh : ∀ fd, connect = .started fd → l.Fresh fd) :
    Sound maxIdle idleTimeoutMs (l.acquire target connect) := by
  by_cases hreused : ∃ fd, (l.pool.acquire target connect).1 = .acquired true fd
  · obtain ⟨fd, hacquired⟩ := hreused
    obtain ⟨since, hparked⟩ := parked_acquire_reused hacquired
    have hlimits : (l.pool.acquire target connect).2.1.maxIdlePerTarget = l.pool.maxIdlePerTarget ∧
        (l.pool.acquire target connect).2.1.idleTimeoutMs = l.pool.idleTimeoutMs := by
      unfold UpstreamPool.acquire
      split <;> exact ⟨rfl, rfl⟩
    have hdescriptors := descriptors_acquire_reused hacquired
    simp only [Ledger.acquire, hacquired]
    refine hs.leave [(target.authority, ⟨fd, since⟩)] [] hlimits
      (tidy_acquire hs.tidy target connect) hparked ?_ rfl rfl rfl ?_
    · exact (List.Perm.append_left _ hdescriptors).trans List.perm_middle
    · rw [List.append_assoc, List.singleton_append]
      exact List.perm_middle
  · rw [Ledger.acquire, acquire_created fun fd hfd => hreused ⟨fd, hfd⟩]
    cases connect with
    | noSocket reason => exact hs
    | refused fd reason => exact hs
    | started fd => exact hs.adopt (hfresh fd rfl)

theorem Sound.release (hs : Sound maxIdle idleTimeoutMs l) (target : ProxyTarget)
    (hfd : fd ∈ l.owned) : Sound maxIdle idleTimeoutMs (l.release target fd) := by
  have hlimits : (l.pool.release target fd l.clock).1.maxIdlePerTarget = l.pool.maxIdlePerTarget ∧
      (l.pool.release target fd l.clock).1.idleTimeoutMs = l.pool.idleTimeoutMs := by
    unfold UpstreamPool.release
    split
    · exact ⟨rfl, rfl⟩
    split
    · exact ⟨rfl, rfl⟩
    split
    · split <;> exact ⟨rfl, rfl⟩
    · exact ⟨rfl, rfl⟩
  have hreal : 0 ≤ fd := hs.real fd (List.mem_append_left _ hfd)
  have hheld : l.held.Perm (fd :: (l.owned.erase fd ++ l.pool.descriptors)) :=
    (List.perm_cons_erase hfd).append_right _
  have hnodup := hheld.nodup_iff.mp hs.apart
  rw [List.nodup_cons] at hnodup
  have hfiled : ∀ e ∈ l.pool.parked, (l.released ++ [(target.authority, fd)])[l.number e.2.fd]? =
      some (e.1, e.2.fd) := by
    intro e he
    have hold := hs.filed e he
    rw [List.getElem?_append_left (List.getElem?_eq_some_iff.mp hold).1]
    exact hold
  have hrange : List.range (l.released ++ [(target.authority, fd)]).length =
      List.range l.released.length ++ [l.released.length] := by
    rw [List.length_append, List.length_singleton, List.range_succ]
  rcases l.pool.parked_release target fd l.clock with ⟨hmax, hkept, hparked⟩ | ⟨hsame, hclosed⟩
  · -- it is idle under the new number
    simp only [Ledger.release, hkept]
    have hdescriptors := hparked.map fun e => e.2.fd
    rw [List.map_cons, ← descriptors_eq, ← descriptors_eq] at hdescriptors
    have hheld' : l.held.Perm (l.owned.erase fd ++ (l.pool.release target fd l.clock).1.descriptors) :=
      hheld.trans (List.perm_middle.symm.trans (List.Perm.append_left _ hdescriptors.symm))
    have hne : ∀ e ∈ l.pool.parked, e.2.fd ≠ fd := by
      intro e he hfd'
      apply hnodup.1
      rw [List.mem_append, descriptors_eq]
      exact Or.inr (List.mem_map.mpr ⟨e, he, hfd'⟩)
    refine ⟨⟨hlimits.1.trans hs.limits.1, hlimits.2.trans hs.limits.2⟩, tidy_release hs.tidy _ _ _,
      hheld'.nodup_iff.mp hs.apart, fun d hd => hs.real d (hheld'.mem_iff.mpr hd), ?_, ?_, ?_, ?_⟩
    · intro e he
      rcases List.mem_cons.mp (hparked.mem_iff.mp he) with rfl | he
      · exact le_rfl
      · exact hs.since e he
    · intro e he
      rcases List.mem_cons.mp (hparked.mem_iff.mp he) with rfl | he
      · simp only [if_true, List.getElem?_concat_length]
      · dsimp only
        rw [if_neg (hne e he)]
        exact hfiled e he
    · have hrest : (l.pool.parked.map fun e =>
          if e.2.fd = fd then l.released.length else l.number e.2.fd) = l.idle :=
        List.map_congr_left fun e he => if_neg (hne e he)
      have hidle := hparked.map fun e =>
        if e.2.fd = fd then l.released.length else l.number e.2.fd
      rw [List.map_cons, hrest, if_pos rfl] at hidle
      rw [hrange]
      refine (hidle.append_right _).trans ?_
      exact (hs.places.cons _).trans (List.perm_append_singleton _ _).symm
    · intro hzero
      exact absurd (hs.limits.1.trans hzero) hmax
  · -- it closes
    simp only [Ledger.release, hclosed hreal, hsame]
    refine ⟨hs.limits, hs.tidy, hnodup.2, fun d hd => hs.real d (hheld.mem_iff.mpr ?_), hs.since,
      hfiled, ?_, hs.shut⟩
    · exact List.mem_cons_of_mem _ hd
    · rw [hrange, ← List.append_assoc, ← List.append_assoc]
      exact (List.append_assoc .. ▸ hs.places).append_right _

theorem Sound.sweepIdle (hs : Sound maxIdle idleTimeoutMs l) :
    Sound maxIdle idleTimeoutMs l.sweepIdle := by
  have hparked : l.pool.parked.Perm ((l.pool.parked.filter fun e =>
      isStale l.pool.idleTimeoutMs l.clock e.2) ++ (l.pool.sweepIdle l.clock).1.parked) := by
    rw [parked_sweepIdle]
    exact (List.filter_append_perm _ _).symm
  have hdescriptors := hparked.map fun e => e.2.fd
  rw [List.map_append, ← descriptors_eq, ← descriptors_eq, ← closing_sweepIdle] at hdescriptors
  have hstep : l.sweepIdle = { l with
      pool := (l.pool.sweepIdle l.clock).1
      closed := l.closed ++ (l.pool.sweepIdle l.clock).2.1.map l.number } := rfl
  rw [hstep]
  refine hs.leave _ (l.pool.sweepIdle l.clock).2.1 ⟨rfl, rfl⟩ (tidy_sweepIdle hs.tidy l.clock)
    hparked ?_ rfl rfl rfl ?_
  · refine (List.Perm.append_left _ hdescriptors).trans ?_
    rw [held, ← List.append_assoc, ← List.append_assoc]
    exact List.perm_append_comm.append_right _
  · dsimp only
    rw [closing_sweepIdle, List.map_map, ← List.append_assoc]
    exact List.perm_append_comm

theorem Sound.closeAll (hs : Sound maxIdle idleTimeoutMs l) :
    Sound maxIdle idleTimeoutMs l.closeAll := by
  refine hs.leave l.pool.parked l.pool.descriptors ⟨rfl, rfl⟩ ⟨List.nodup_nil, ?_⟩ ?_ ?_ rfl rfl rfl ?_
  · intro b hb
    cases hb
  · exact (List.append_nil _).symm ▸ List.Perm.refl _
  · show (l.owned ++ l.pool.descriptors).Perm (l.pool.descriptors ++ (l.owned ++ []))
    rw [List.append_nil]
    exact List.perm_append_comm
  · show (l.handed ++ (l.closed ++ l.pool.descriptors.map l.number)).Perm _
    rw [descriptors_eq, List.map_map, ← List.append_assoc]
    exact List.perm_append_comm

theorem Sound.step (hs : Sound maxIdle idleTimeoutMs l) (wait : ℕ) {operation : Operation}
    (hallowed : l.Allowed operation) : Sound maxIdle idleTimeoutMs (l.step wait operation) := by
  cases operation with
  | acquire target connect => exact (hs.wait wait).acquire target connect hallowed
  | release target fd => exact (hs.wait wait).release target hallowed
  | sweepIdle => exact (hs.wait wait).sweepIdle
  | closeAll => exact (hs.wait wait).closeAll
  | adopt fd => exact (hs.wait wait).adopt hallowed
  | close fd => exact (hs.wait wait).close fd

theorem Sound.run (hs : Sound maxIdle idleTimeoutMs l) {steps : List (ℕ × Operation)}
    (hallowed : l.AllowedRun steps) : Sound maxIdle idleTimeoutMs (l.run steps) := by
  induction steps generalizing l with
  | nil => exact hs
  | cons s steps ih =>
    obtain ⟨wait, operation⟩ := s
    exact ih (hs.step wait hallowed.1) hallowed.2

end Sound

/-! ### What the pool promises -/

/-- A sweep closes what was idle for the timeout, keeps the rest, and counts what it closed. -/
structure SweepIsExact (p : UpstreamPool) (now : ℕ) : Prop where
  closes : (p.sweepIdle now).2.1 =
    (p.parked.filter fun e => idleFor p.idleTimeoutMs now e.2).map fun e => e.2.fd
  keeps : (p.sweepIdle now).1.parked = p.parked.filter fun e => !idleFor p.idleTimeoutMs now e.2
  counts : (p.sweepIdle now).2.2 = (p.sweepIdle now).2.1.length

/-- Every release is idle under its authority, handed out again or closed, and just one of
these; what `acquire`, `idle_count` and `sweep_idle` say is true. -/
structure Accounted (l : Ledger) : Prop where
  places : (l.idle ++ (l.handed ++ l.closed)).Perm (List.range l.released.length)
  filed : ∀ e ∈ l.pool.parked, l.released[l.number e.2.fd]? = some (e.1, e.2.fd)
  tidy : Tidy l.pool.idle
  idleCount : l.pool.idleCount = l.idle.length
  acquired : ∀ target connect, match (l.pool.acquire target connect).1 with
    | .acquired true fd =>
      l.number fd ∈ l.idle ∧ l.released[l.number fd]? = some (target.authority, fd)
    | .acquired false fd => connect = .started fd
    | .failed _ => ∀ fd, connect ≠ .started fd
  swept : ∀ wait, SweepIsExact l.pool (l.clock + wait)

section Accounted
variable {maxIdle idleTimeoutMs : ℕ} {l : Ledger}

theorem Sound.acquired (hs : Sound maxIdle idleTimeoutMs l) (target : ProxyTarget)
    (connect : Connect) : match (l.pool.acquire target connect).1 with
    | .acquired true fd =>
      l.number fd ∈ l.idle ∧ l.released[l.number fd]? = some (target.authority, fd)
    | .acquired false fd => connect = .started fd
    | .failed _ => ∀ fd, connect ≠ .started fd := by
  by_cases hreused : ∃ fd, (l.pool.acquire target connect).1 = .acquired true fd
  · obtain ⟨fd, hacquired⟩ := hreused
    obtain ⟨since, hparked⟩ := parked_acquire_reused hacquired
    have hmem : (target.authority, ⟨fd, since⟩) ∈ l.pool.parked :=
      hparked.mem_iff.mpr List.mem_cons_self
    rw [hacquired]
    exact ⟨List.mem_map.mpr ⟨_, hmem, rfl⟩, hs.filed _ hmem⟩
  · rw [acquire_created fun fd hfd => hreused ⟨fd, hfd⟩]
    cases connect with
    | noSocket reason => exact fun fd hfd => by cases hfd
    | refused fd reason => exact fun fd hfd => by cases hfd
    | started fd => rfl

/-- Where the cast keeps the timeout, or nothing is ever idle, sweeps are exact. -/
theorem Sound.sweepIsExact (hs : Sound maxIdle idleTimeoutMs l)
    (hlimit : idleTimeoutMs < 2 ^ 63 ∨ maxIdle = 0) (wait : ℕ) :
    SweepIsExact l.pool (l.clock + wait) := by
  have hstale : ∀ e ∈ l.pool.parked, isStale l.pool.idleTimeoutMs (l.clock + wait) e.2 =
      idleFor l.pool.idleTimeoutMs (l.clock + wait) e.2 := by
    intro e he
    rcases hlimit with hsmall | hzero
    · rw [hs.limits.2]
      exact isStale_eq hsmall ((hs.since e he).trans (Nat.le_add_right ..))
    · rw [hs.shut hzero] at he
      cases he
  refine ⟨?_, ?_, removed_sweepIdle ..⟩
  · rw [closing_sweepIdle, List.filter_congr hstale]
  · rw [parked_sweepIdle, List.filter_congr fun e he => congrArg (!·) (hstale e he)]

theorem Sound.accounted (hs : Sound maxIdle idleTimeoutMs l)
    (hlimit : idleTimeoutMs < 2 ^ 63 ∨ maxIdle = 0) : Accounted l := by
  refine ⟨hs.places, hs.filed, hs.tidy, ?_, hs.acquired, hs.sweepIsExact hlimit⟩
  rw [idleCount_eq, idle, List.length_map]

/-- The caller opens a descriptor and releases it. -/
def releaseOne : List (ℕ × Operation) := [(0, .adopt 3), (0, .release ⟨[], 80⟩ 3)]

theorem releaseOne_allowed (l : Ledger) (h : l.Fresh 3) : l.AllowedRun releaseOne :=
  ⟨h, List.mem_cons_self, trivial⟩

theorem releaseOne_parked {maxIdle : ℕ} (hmax : maxIdle ≠ 0) (idleTimeoutMs : UInt64) :
    ((new maxIdle idleTimeoutMs).run releaseOne).pool.parked =
        [(ProxyTarget.authority ⟨[], 80⟩, ⟨3, 0⟩)] ∧
      ((new maxIdle idleTimeoutMs).run releaseOne).clock = 0 := by
  simp [releaseOne, run, step, release, UpstreamPool.release, new, hmax, addTo, parked, entries]

/-- Every run is accounted for exactly where the timeout fits a signed number, or no
connection is kept at all. -/
theorem accounted_iff (maxIdle : ℕ) (idleTimeoutMs : UInt64) :
    (∀ steps, (new maxIdle idleTimeoutMs).AllowedRun steps →
      Accounted ((new maxIdle idleTimeoutMs).run steps)) ↔
    idleTimeoutMs.toNat < 2 ^ 63 ∨ maxIdle = 0 := by
  constructor
  · intro h
    by_contra hlimit
    rw [not_or, not_lt] at hlimit
    obtain ⟨hlarge, hmax⟩ := hlimit
    have hallowed := releaseOne_allowed (new maxIdle idleTimeoutMs)
      ⟨by omega, by simp [held, new, descriptors]⟩
    have hcloses := ((h releaseOne hallowed).swept 0).closes
    have hs := (sound_new maxIdle idleTimeoutMs).run hallowed
    have hstale : ∀ now, isStale idleTimeoutMs.toNat now ⟨3, 0⟩ = true := fun now =>
      isStale_of_large hlarge idleTimeoutMs.toNat_lt (Nat.zero_le now)
    have hyoung : idleFor idleTimeoutMs.toNat 0 ⟨3, 0⟩ = false := by
      rw [idleFor, decide_eq_false_iff_not]
      dsimp only
      omega
    obtain ⟨hparked, hclock⟩ := releaseOne_parked hmax idleTimeoutMs
    rw [closing_sweepIdle, hs.limits.2, hparked, hclock] at hcloses
    simp only [List.filter_cons, hstale, hyoung, if_true] at hcloses
    cases hcloses
  · intro hlimit steps hallowed
    exact ((sound_new maxIdle idleTimeoutMs).run hallowed).accounted hlimit

/-- A timeout of `2^64 - 1`, which is what a configured `-1` becomes: the sweep closes a
connection that has just become idle. -/
theorem sweep_closes_young :
    (new 4 18446744073709551615).AllowedRun releaseOne ∧
      (((new 4 18446744073709551615).run releaseOne).pool.sweepIdle 0).2.1 = [3] ∧
      ¬Accounted ((new 4 18446744073709551615).run releaseOne) := by
  refine ⟨releaseOne_allowed _ ⟨by omega, by decide⟩, by decide, fun h => ?_⟩
  exact absurd (h.swept 0).closes (by decide)

end Accounted
end Ledger
end Aevrix.Proxy.UpstreamPool
