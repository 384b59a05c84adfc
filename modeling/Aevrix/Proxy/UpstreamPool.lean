import Aevrix.Http.Bytes

/-!
# Idle upstream connections (`upstream_pool.h`, `upstream_pool.cpp`)

The pool keeps a bounded bucket of idle descriptors for each upstream, under the
upstream's authority. A descriptor is the number its `UniqueFd` owns; what the pool
does not keep closes.
-/

namespace Aevrix.Proxy

/-- The upstream endpoint (`proxy_target.h`). -/
structure ProxyTarget where
  host : Bytes
  port : UInt16
  deriving DecidableEq

/-- `host:port`, the key of the pool (`proxy_target.cpp:109-111`). -/
def ProxyTarget.authority (t : ProxyTarget) : Bytes := t.host ++ 58 :: decimalText t.port.toNat

structure IdleConnection where
  fd : ℤ
  since : ℕ
  deriving DecidableEq

/-- The timeout is a 64-bit unsigned number. -/
structure UpstreamPool where
  idle : List (Bytes × List IdleConnection) := []
  maxIdlePerTarget : ℕ := 4
  idleTimeoutMs : ℕ := 60000

namespace UpstreamPool

/-- The descriptors the pool holds. -/
def descriptors (p : UpstreamPool) : List ℤ := p.idle.flatMap fun b => b.2.map IdleConnection.fd

/-- `connection` at the back of the bucket of `key`. -/
def addTo (key : Bytes) (connection : IdleConnection) :
    List (Bytes × List IdleConnection) → List (Bytes × List IdleConnection)
  | [] => [(key, [connection])]
  | (k, bucket) :: rest =>
    if k = key then (k, bucket ++ [connection]) :: rest else (k, bucket) :: addTo key connection rest

/-- `UpstreamPool::release` (`upstream_pool.cpp:92-114`), with the descriptor that closes
here, if any. -/
def release (p : UpstreamPool) (target : ProxyTarget) (fd : ℤ) (now : ℕ) :
    UpstreamPool × Option ℤ :=
  if fd < 0 then (p, none)
  else if p.maxIdlePerTarget = 0 then (p, some fd)
  else match p.idle.lookup target.authority with
    | some bucket =>
      if p.maxIdlePerTarget ≤ bucket.length then (p, some fd)
      else ({ p with idle := addTo target.authority ⟨fd, now⟩ p.idle }, none)
    | none => ({ p with idle := addTo target.authority ⟨fd, now⟩ p.idle }, none)

/-- What `socket` and `connect` may return. -/
inductive Connect where
  | noSocket (reason : Bytes)
  | refused (fd : ℤ) (reason : Bytes)
  | started (fd : ℤ)
  deriving DecidableEq

/-- `AcquireResult`. -/
inductive AcquireResult where
  | acquired (reused : Bool) (fd : ℤ)
  | failed (error : Bytes)
  deriving DecidableEq

/-- `UpstreamPool::create` (`upstream_pool.cpp:55-86`), with the descriptor that closes. -/
def create : Connect → AcquireResult × Option ℤ
  | .noSocket reason => (.failed (ascii "socket() failed: " ++ reason), none)
  | .refused fd reason => (.failed (ascii "connect() failed: " ++ reason), some fd)
  | .started fd => (.acquired false fd, none)

/-- The last connection in the bucket of `key`, and the buckets without it. -/
def takeBack (key : Bytes) :
    List (Bytes × List IdleConnection) → Option (ℤ × List (Bytes × List IdleConnection))
  | [] => none
  | (k, bucket) :: rest =>
    if k = key then match bucket.getLast? with
      | none => none
      | some connection => some (connection.fd,
          if bucket.dropLast = [] then rest else (k, bucket.dropLast) :: rest)
    else match takeBack key rest with
      | none => none
      | some (fd, rest) => some (fd, (k, bucket) :: rest)

/-- `UpstreamPool::acquire` (`upstream_pool.cpp:32-53`), with the descriptor that closes. -/
def acquire (p : UpstreamPool) (target : ProxyTarget) (connect : Connect) :
    AcquireResult × UpstreamPool × Option ℤ :=
  match takeBack target.authority p.idle with
  | some (fd, idle) => (.acquired true fd, { p with idle }, none)
  | none =>
    let (result, closing) := create connect
    (result, p, closing)

/-- The test of the sweep; the clock is in nanoseconds, and the timeout is cast to a signed
number first. -/
def isStale (idleTimeoutMs now : ℕ) (connection : IdleConnection) : Bool :=
  decide (Int.bmod idleTimeoutMs (2 ^ 64) ≤ ((now : ℤ) - connection.since).tdiv 1000000)

/-- `UpstreamPool::sweep_idle` (`upstream_pool.cpp:121-149`): the pool, the descriptors that
close, and the number that it returns. -/
def sweepIdle (p : UpstreamPool) (now : ℕ) : UpstreamPool × List ℤ × ℕ :=
  let kept := p.idle.map fun b => (b.1, b.2.filter fun c => !isStale p.idleTimeoutMs now c)
  let closing := p.idle.flatMap fun b =>
    (b.2.filter (isStale p.idleTimeoutMs now)).map IdleConnection.fd
  let removed := (p.idle.map fun b =>
    b.2.length - (b.2.filter fun c => !isStale p.idleTimeoutMs now c).length).sum
  ({ p with idle := kept.filter fun b => !b.2.isEmpty }, closing, removed)

/-- `UpstreamPool::close_all` (`upstream_pool.cpp:151-153`), with the descriptors that
close. -/
def closeAll (p : UpstreamPool) : UpstreamPool × List ℤ := ({ p with idle := [] }, p.descriptors)

/-- `UpstreamPool::idle_count` (`upstream_pool.cpp:155-161`). -/
def idleCount (p : UpstreamPool) : ℕ := (p.idle.map fun b => b.2.length).sum

/-! ### What each operation does to the idle connections -/

/-- The idle connections, each under the authority of its bucket. -/
def entries (idle : List (Bytes × List IdleConnection)) : List (Bytes × IdleConnection) :=
  idle.flatMap fun b => b.2.map fun c => (b.1, c)

def parked (p : UpstreamPool) : List (Bytes × IdleConnection) := entries p.idle

theorem descriptors_eq (p : UpstreamPool) : p.descriptors = p.parked.map fun e => e.2.fd := by
  simp only [descriptors, parked, entries, List.map_flatMap, List.map_map, Function.comp_def]

theorem entries_cons (b : Bytes × List IdleConnection) (rest : List (Bytes × List IdleConnection)) :
    entries (b :: rest) = b.2.map (fun c => (b.1, c)) ++ entries rest := List.flatMap_cons ..

theorem entries_addTo (key : Bytes) (connection : IdleConnection)
    (idle : List (Bytes × List IdleConnection)) :
    (entries (addTo key connection idle)).Perm ((key, connection) :: entries idle) := by
  induction idle with
  | nil => exact List.Perm.refl _
  | cons b rest ih =>
    rw [addTo]
    split
    · rename_i hkey
      simp only [entries_cons, hkey, List.map_append, List.map_cons, List.map_nil,
        List.append_assoc]
      exact List.perm_middle
    · simp only [entries_cons]
      exact (List.Perm.append_left _ ih).trans List.perm_middle

/-- A released descriptor joins the idle ones, or the pool stays as it was and it closes. -/
theorem parked_release (p : UpstreamPool) (target : ProxyTarget) (fd : ℤ) (now : ℕ) :
    (p.maxIdlePerTarget ≠ 0 ∧ (p.release target fd now).2 = none ∧
        (p.release target fd now).1.parked.Perm ((target.authority, ⟨fd, now⟩) :: p.parked)) ∨
      (p.release target fd now).1 = p ∧ (0 ≤ fd → (p.release target fd now).2 = some fd) := by
  unfold release
  split
  · exact Or.inr ⟨rfl, fun h => by omega⟩
  split
  · exact Or.inr ⟨rfl, fun _ => rfl⟩
  rename_i hmax
  split
  · split
    · exact Or.inr ⟨rfl, fun _ => rfl⟩
    · exact Or.inl ⟨hmax, rfl, entries_addTo _ _ _⟩
  · exact Or.inl ⟨hmax, rfl, entries_addTo _ _ _⟩

theorem entries_takeBack {key : Bytes} {idle idle' : List (Bytes × List IdleConnection)}
    {fd : ℤ} (h : takeBack key idle = some (fd, idle')) :
    ∃ since, (entries idle).Perm ((key, ⟨fd, since⟩) :: entries idle') := by
  induction idle generalizing idle' with
  | nil => cases h
  | cons b rest ih =>
    obtain ⟨k, bucket⟩ := b
    rw [takeBack] at h
    split at h
    · rename_i hkey
      split at h
      · cases h
      · rename_i connection hlast
        simp only [Option.some.injEq, Prod.mk.injEq] at h
        obtain ⟨rfl, rfl⟩ := h
        have hbucket : bucket = bucket.dropLast ++ [connection] :=
          (List.dropLast_append_getLast? connection hlast).symm
        have hrest : entries (if bucket.dropLast = [] then rest else (k, bucket.dropLast) :: rest) =
            bucket.dropLast.map (fun c => (k, c)) ++ entries rest := by
          split
          · rename_i hnil
            rw [hnil]
            rfl
          · exact entries_cons ..
        refine ⟨connection.since, ?_⟩
        rw [hrest, entries_cons]
        dsimp only
        nth_rewrite 1 [hbucket]
        rw [List.map_append, List.append_assoc, hkey]
        exact List.perm_middle
    · split at h
      · cases h
      · rename_i fd' rest' htake
        simp only [Option.some.injEq, Prod.mk.injEq] at h
        obtain ⟨rfl, rfl⟩ := h
        obtain ⟨since, hperm⟩ := ih htake
        refine ⟨since, ?_⟩
        simp only [entries_cons]
        exact (List.Perm.append_left _ hperm).trans List.perm_middle

/-- A descriptor that is handed out again was idle under the target's authority. -/
theorem parked_acquire_reused {p : UpstreamPool} {target : ProxyTarget} {connect : Connect}
    {fd : ℤ} (h : (p.acquire target connect).1 = .acquired true fd) :
    ∃ since, p.parked.Perm
      ((target.authority, ⟨fd, since⟩) :: (p.acquire target connect).2.1.parked) := by
  unfold acquire at h ⊢
  cases htake : takeBack target.authority p.idle with
  | some taken =>
    obtain ⟨fd', idle'⟩ := taken
    simp only [htake, AcquireResult.acquired.injEq, true_and] at h
    rw [← h]
    exact entries_takeBack htake
  | none =>
    rw [htake] at h
    cases connect <;> simp [create] at h

theorem acquire_created {p : UpstreamPool} {target : ProxyTarget} {connect : Connect}
    (h : ∀ fd, (p.acquire target connect).1 ≠ .acquired true fd) :
    p.acquire target connect = ((create connect).1, p, (create connect).2) := by
  unfold acquire at h ⊢
  cases htake : takeBack target.authority p.idle with
  | some taken =>
    obtain ⟨fd', idle'⟩ := taken
    rw [htake] at h
    exact absurd rfl (h fd')
  | none => rfl

theorem parked_sweepIdle (p : UpstreamPool) (now : ℕ) :
    (p.sweepIdle now).1.parked = p.parked.filter fun e => !isStale p.idleTimeoutMs now e.2 := by
  simp only [sweepIdle, parked]
  generalize p.idleTimeoutMs = idleTimeoutMs
  generalize p.idle = idle
  induction idle with
  | nil => rfl
  | cons b rest ih =>
    have hbucket : (b.2.map fun c => (b.1, c)).filter (fun e => !isStale idleTimeoutMs now e.2) =
        (b.2.filter fun c => !isStale idleTimeoutMs now c).map fun c => (b.1, c) := List.filter_map ..
    rw [List.map_cons, List.filter_cons, entries_cons, List.filter_append, hbucket, ← ih]
    split
    · rw [entries_cons]
    · rename_i hempty
      have hnil : (b.2.filter fun c => !isStale idleTimeoutMs now c) = [] := by simpa using hempty
      rw [hnil]
      rfl

theorem closing_sweepIdle (p : UpstreamPool) (now : ℕ) : (p.sweepIdle now).2.1 =
    (p.parked.filter fun e => isStale p.idleTimeoutMs now e.2).map fun e => e.2.fd := by
  simp only [sweepIdle, parked, entries, List.filter_flatMap, List.map_flatMap, List.filter_map,
    List.map_map, Function.comp_def]

theorem removed_sweepIdle (p : UpstreamPool) (now : ℕ) :
    (p.sweepIdle now).2.2 = (p.sweepIdle now).2.1.length := by
  simp only [sweepIdle, List.length_flatMap, List.length_map]
  congr 1
  refine List.map_congr_left fun b _ => ?_
  have hsplit := List.length_eq_length_filter_add (l := b.2) (isStale p.idleTimeoutMs now)
  omega

theorem descriptors_release (p : UpstreamPool) (target : ProxyTarget) (fd : ℤ) (now : ℕ) :
    (p.release target fd now).1.descriptors.Perm (fd :: p.descriptors) ∨
      (p.release target fd now).1 = p := by
  rcases p.parked_release target fd now with ⟨-, -, hperm⟩ | ⟨hsame, -⟩
  · rw [descriptors_eq, descriptors_eq]
    exact Or.inl (hperm.map _)
  · exact Or.inr hsame

theorem descriptors_acquire_reused {p : UpstreamPool} {target : ProxyTarget} {connect : Connect}
    {fd : ℤ} (h : (p.acquire target connect).1 = .acquired true fd) :
    p.descriptors.Perm (fd :: (p.acquire target connect).2.1.descriptors) := by
  obtain ⟨since, hperm⟩ := parked_acquire_reused h
  rw [descriptors_eq, descriptors_eq]
  exact hperm.map _

theorem descriptors_sweepIdle (p : UpstreamPool) (now : ℕ) :
    (p.sweepIdle now).1.descriptors.Sublist p.descriptors := by
  rw [descriptors_eq, descriptors_eq, parked_sweepIdle]
  exact List.filter_sublist.map _

end UpstreamPool
end Aevrix.Proxy
