import Aevrix.Proxy.Sending

/-!
# How long a proxied request waits

A request has a deadline in each of its phases, and a sweep ends what is past it. With timeouts
that are set and sweeps no more than a period apart, no request waits longer than one connect
timeout, two read timeouts and two periods (`answered_in_time`).
-/

namespace Aevrix.Proxy.Lifecycle

/-- Bounds on the timeouts, in milliseconds, and on the time between sweeps, in nanoseconds. -/
structure Pace where
  connectTimeoutMs : ℕ
  readTimeoutMs : ℕ
  period : ℕ

namespace Pace

/-- How long after its start the deadline of a request may be. -/
def allowance (p : Pace) : Phase → ℕ
  | .connecting => p.connectTimeoutMs * 1000000
  | .writing => p.connectTimeoutMs * 1000000 + p.period + p.readTimeoutMs * 1000000
  | .reading => p.connectTimeoutMs * 1000000 + 2 * p.period + 2 * (p.readTimeoutMs * 1000000)

/-- A read timeout that is set and bounded. -/
def Reads (p : Pace) (b : Budget) : Prop := 0 < b.readTimeoutMs ∧ b.readTimeoutMs ≤ p.readTimeoutMs

def Connects (p : Pace) (b : Budget) : Prop :=
  0 < b.connectTimeoutMs ∧ b.connectTimeoutMs ≤ p.connectTimeoutMs

/-- A time at most one period behind the last sweep. -/
def Soon (p : Pace) (swept now : ℕ) : Prop := swept ≤ now ∧ now ≤ swept + p.period

/-- Calls behind the sweep at `swept`. -/
def Run (p : Pace) : ℕ → List ProxyHandler.Call → Prop
  | _, [] => True
  | swept, .start c :: calls =>
    p.Soon swept c.now ∧ p.Connects c.budget ∧ p.Reads c.budget ∧ Run p swept calls
  | swept, .event _ _ _ io :: calls => p.Soon swept io.now ∧ p.Reads io.budget ∧ Run p swept calls
  | swept, .sweep now :: calls => p.Soon swept now ∧ Run p now calls
  | swept, .refresh _ _ :: calls => Run p swept calls

end Pace

/-- The request `x`, started at `start`, is due within its allowance, and was not at the last
sweep, unless it started later. -/
def Due (p : Pace) (swept start : ℕ) (x : Half) : Prop :=
  ∃ deadline, x.deadline = some deadline ∧ (swept ≤ start ∨ swept < deadline) ∧
    deadline ≤ start + p.allowance x.phase

section Due
variable {p : Pace} {swept start now : ℕ} {x : Half} {r : PendingRequest} {io : Io}

theorem deadlineAfter_set {timeoutMs : ℕ} (h : 0 < timeoutMs) (now : ℕ) :
    deadlineAfter timeoutMs now = some (now + timeoutMs * 1000000) :=
  if_neg (Nat.pos_iff_ne_zero.mp h)

theorem Due.now_le (hd : Due p swept start x) (hnow : p.Soon swept now) :
    now ≤ start + p.allowance x.phase + p.period := by
  obtain ⟨deadline, -, hswept, hdeadline⟩ := hd
  have hsoon := hnow.2
  omega

theorem due_new {timeoutMs bound : ℕ} (hset : 0 < timeoutMs) (hbound : timeoutMs ≤ bound)
    (hallowed : bound * 1000000 ≤ p.allowance x.phase) (hsoon : p.Soon swept now)
    (hdeadline : x.deadline = deadlineAfter timeoutMs now) : Due p swept now x := by
  refine ⟨_, hdeadline.trans (deadlineAfter_set hset now), Or.inl hsoon.1, ?_⟩
  have hmul := Nat.mul_le_mul_right 1000000 hbound
  omega

theorem Due.connected (hd : Due p swept start (half r)) (hsoon : p.Soon swept io.now)
    (hreads : p.Reads io.budget) : Due p swept start (half (connected io r)) := by
  unfold Lifecycle.connected
  split
  · rename_i hphase
    have hnow := hd.now_le hsoon
    rw [show (half r).phase = .connecting from hphase] at hnow
    have hmul := Nat.mul_le_mul_right 1000000 hreads.2
    have hset := Nat.mul_pos hreads.1 (by omega : 0 < 1000000)
    have hswept := hsoon.1
    refine ⟨_, deadlineAfter_set hreads.1 io.now, Or.inr (by omega), ?_⟩
    show io.now + io.budget.readTimeoutMs * 1000000 ≤ start + p.allowance .writing
    simp only [Pace.allowance] at hnow ⊢
    omega
  · exact hd

theorem Due.flushed (hd : Due p swept start (half r)) (hsoon : p.Soon swept io.now)
    (hreads : p.Reads io.budget) : Due p swept start (half (flushed io r)) := by
  unfold Lifecycle.flushed
  split
  · rename_i hphase
    rcases sendLoop r.requestBytes.length r.bytesWritten io.sends with ⟨written, result⟩
    cases result with
    | flushed =>
      have hnow := hd.now_le hsoon
      rw [show (half r).phase = .writing from hphase] at hnow
      have hmul := Nat.mul_le_mul_right 1000000 hreads.2
      have hset := Nat.mul_pos hreads.1 (by omega : 0 < 1000000)
      have hswept := hsoon.1
      refine ⟨_, deadlineAfter_set hreads.1 io.now, Or.inr (by omega), ?_⟩
      show io.now + io.budget.readTimeoutMs * 1000000 ≤ start + p.allowance .reading
      simp only [Pace.allowance] at hnow ⊢
      omega
    | blocked => exact hd
    | failed reason => exact hd
  · exact hd

theorem Due.sweep (hd : Due p swept start x)
    (hlive : ∀ deadline, x.deadline = some deadline → now < deadline) : Due p now start x := by
  obtain ⟨deadline, hdeadline, -, hle⟩ := hd
  exact ⟨deadline, hdeadline, Or.inr (hlive deadline hdeadline), hle⟩

end Due

namespace ProxyHandler
variable {h : ProxyHandler}

/-! ### The sweep -/

theorem pending_expire (h : ProxyHandler) (fd : ℤ) :
    (h.expire fd).pending = h.pending.filter fun e => e.1 != fd := by
  unfold expire
  cases hfind : h.find fd with
  | none =>
    symm
    rw [List.filter_eq_self]
    intro e he
    rw [bne_comm]
    exact List.lookup_eq_none_iff.mp hfind e he
  | some request =>
    dsimp only
    unfold fail
    rw [hfind]
    rfl

theorem pending_expireAll (h : ProxyHandler) (fds : List ℤ) :
    (fds.foldl expire h).pending = h.pending.filter fun e => decide (e.1 ∉ fds) := by
  induction fds generalizing h with
  | nil =>
    symm
    rw [List.foldl_nil, List.filter_eq_self]
    intro e _
    exact decide_eq_true List.not_mem_nil
  | cons fd fds ih =>
    rw [List.foldl_cons, ih, pending_expire, List.filter_filter]
    refine List.filter_congr fun e _ => ?_
    by_cases hfd : e.1 = fd
    · simp [hfd]
    · simp [hfd]

/-- Nothing that is left is past its deadline. -/
theorem live_sweepTimeouts {now : ℕ} {x : ℤ × Half} (hx : x ∈ (h.sweepTimeouts now).halves)
    {deadline : ℕ} (hdeadline : x.2.deadline = some deadline) : now < deadline := by
  obtain ⟨e, he, rfl⟩ := List.mem_map.mp hx
  replace hdeadline : e.2.deadline = some deadline := hdeadline
  replace he : e ∈ (((h.pending.filter fun e => isExpired now e.2).map Prod.fst).foldl expire
    h).pending := he
  rw [pending_expireAll, List.mem_filter] at he
  obtain ⟨hmem, hkept⟩ := he
  by_contra hpast
  have hexpired : isExpired now e.2 = true := by
    rw [isExpired, hdeadline]
    exact decide_eq_true (Nat.le_of_not_lt hpast)
  refine of_decide_eq_true hkept (List.mem_map.mpr ⟨e, ?_, rfl⟩)
  exact List.mem_filter.mpr ⟨hmem, hexpired⟩

/-! ### Runs -/

/-- Every request in flight is due. -/
def AllDue (p : Pace) (cs : List Start) (swept : ℕ) (h : ProxyHandler) : Prop :=
  ∀ x ∈ h.halves, ∃ c, cs[x.2.ticket]? = some c ∧ Due p swept c.now x.2

section AllDue
variable {p : Pace} {cs : List Start} {swept : ℕ}

theorem AllDue.shrinks {h' : ProxyHandler} (hd : AllDue p cs swept h) (hs : Shrinks h h')
    (added : List Start) : AllDue p (cs ++ added) swept h' := by
  intro x hx
  obtain ⟨c, hc, hdue⟩ := hd x (hs.subset hx)
  exact ⟨c, getElem?_started hc, hdue⟩

theorem AllDue.start (hd : AllDue p cs swept h) (hlength : h.started.length = cs.length) {c : Start}
    (hsoon : p.Soon swept c.now) (hconnects : p.Connects c.budget) (hreads : p.Reads c.budget) :
    AllDue p (cs ++ [c]) swept (h.start c) := by
  rcases halves_start h c with hshrinks | ⟨fd, reused, hadded⟩
  · exact hd.shrinks hshrinks [c]
  · intro x hx
    rw [hadded, List.mem_append, List.mem_singleton] at hx
    rcases hx with hx | hx
    · obtain ⟨c', hc', hdue⟩ := hd x hx
      exact ⟨c', getElem?_started hc', hdue⟩
    · have hticket : x.2.ticket = cs.length := by
        rw [hx, ← hlength]
        rfl
      refine ⟨c, by rw [hticket, List.getElem?_concat_length], ?_⟩
      rw [hx]
      cases reused with
      | false => exact due_new hconnects.1 hconnects.2 (Nat.le_refl _) hsoon rfl
      | true =>
        refine due_new hreads.1 hreads.2 ?_ hsoon rfl
        show p.readTimeoutMs * 1000000 ≤ p.allowance .writing
        simp only [Pace.allowance]
        omega

theorem AllDue.event (hd : AllDue p cs swept h) (hkeys : (h.pending.map Prod.fst).Nodup) {fd : ℤ}
    {generation : ℕ} {event : EventType} {io : Io} (hsoon : p.Soon swept io.now)
    (hreads : p.Reads io.budget) :
    AllDue p cs swept (h.onUpstreamEvent fd generation event io) := by
  cases call_halves hkeys (.event fd generation event io) with
  | shrinks _ hshrinks =>
    have hnext := hd.shrinks hshrinks []
    rwa [List.append_nil] at hnext
  | advanced request hfind _ _ hshrinks =>
    intro x hx
    rcases mem_halves_update (hshrinks.subset hx) with rfl | ⟨hold, -⟩
    · obtain ⟨c, hc, hdue⟩ := hd _ (mem_halves_find hfind)
      refine ⟨c, ?_, (hdue.connected hsoon hreads).flushed hsoon hreads⟩
      show cs[(advanced io request).ticket]? = some c
      rw [advanced_ticket]
      exact hc
    · exact hd x hold

theorem AllDue.sweep (hd : AllDue p cs swept h) (now : ℕ) : AllDue p cs now (h.sweepTimeouts now) := by
  intro x hx
  obtain ⟨c, hc, hdue⟩ := hd x ((shrinks_sweepTimeouts h now).subset hx)
  exact ⟨c, hc, hdue.sweep fun deadline => live_sweepTimeouts hx⟩

theorem AllDue.run (hd : AllDue p cs swept h) (hs : Sound (cs.map Start.clientConnectionId) h)
    {calls : List Call} {now : ℕ} (hfresh : h.FreshRun (calls ++ [.sweep now]))
    (hpace : p.Run swept (calls ++ [.sweep now])) :
    AllDue p (cs ++ startCalls calls) now (h.run (calls ++ [.sweep now])) := by
  induction calls generalizing h cs swept with
  | nil =>
    simp only [startCalls, List.append_nil]
    exact hd.sweep now
  | cons c calls ih =>
    obtain ⟨hsound, hrest⟩ := hs.call hfresh
    rw [← List.map_append] at hsound
    have hstarts : cs ++ startCalls (c :: calls) = cs ++ startCalls [c] ++ startCalls calls := by
      rw [List.append_assoc]
      cases c <;> rfl
    rw [hstarts]
    cases c with
    | start c =>
      have hlength : h.started.length = cs.length := by
        rw [hs.started, List.length_map]
      exact ih (hd.start hlength hpace.1 hpace.2.1 hpace.2.2.1) hsound hrest hpace.2.2.2
    | event fd generation event io =>
      rw [show startCalls [.event fd generation event io] = [] from rfl, List.append_nil] at hsound ⊢
      exact ih (hd.event hs.keys hpace.1 hpace.2.1) hsound hrest hpace.2.2
    | sweep now' =>
      rw [show startCalls [.sweep now'] = [] from rfl, List.append_nil] at hsound ⊢
      exact ih (hd.sweep now') hsound hrest hpace.2
    | refresh maxIdle idleTimeoutMs =>
      rw [show startCalls [.refresh maxIdle idleTimeoutMs] = [] from rfl, List.append_nil] at hsound ⊢
      exact ih hd hsound hrest hpace

end AllDue

/-- With timeouts that are set and bounded and sweeps at most a period apart, whoever started a
connect timeout, two read timeouts and two periods before a sweep has been answered behind it. -/
theorem answered_in_time (target : Except Bytes ProxyTarget) (maxIdle idleTimeoutMs : ℕ) (p : Pace)
    (created : ℕ) (calls : List Call) (now : ℕ)
    (hfresh : (new target maxIdle idleTimeoutMs).FreshRun (calls ++ [.sweep now]))
    (hpace : p.Run created (calls ++ [.sweep now])) :
    let h := (new target maxIdle idleTimeoutMs).run (calls ++ [.sweep now])
    ∀ ticket c, (startCalls calls)[ticket]? = some c →
      c.now + p.connectTimeoutMs * 1000000 + 2 * (p.readTimeoutMs * 1000000) + 2 * p.period ≤ now →
      ∃ d ∈ h.delivered, d.ticket = ticket ∧ d.clientConnectionId = c.clientConnectionId := by
  intro h ticket c hc hlate
  have hs : Sound (starts (calls ++ [.sweep now])) h := by
    simpa using (sound_new target maxIdle idleTimeoutMs).run hfresh
  have hdue : AllDue p (startCalls calls) now h := by
    have hnew : AllDue p [] created (new target maxIdle idleTimeoutMs) := by
      intro x hx
      cases hx
    exact hnew.run (sound_new target maxIdle idleTimeoutMs) hfresh hpace
  have hstarts : (starts (calls ++ [.sweep now]))[ticket]? = some c.clientConnectionId := by
    have hmap : starts (calls ++ [.sweep now]) = (startCalls calls).map Start.clientConnectionId := by
      clear hc hlate hs hdue h hfresh hpace
      induction calls with
      | nil => rfl
      | cons call calls ih =>
        cases call with
        | start c => exact congrArg (List.cons c.clientConnectionId) ih
        | event fd generation event io => exact ih
        | sweep now' => exact ih
        | refresh maxIdle idleTimeoutMs => exact ih
    rw [hmap, List.getElem?_map, hc]
    rfl
  have hmem : (c.clientConnectionId, ticket) ∈ h.tickets := by
    rw [hs.tickets.mem_iff, List.mem_zipIdx_iff_getElem?]
    exact hstarts
  rcases List.mem_append.mp hmem with hdelivered | hpending
  · obtain ⟨d, hd, heq⟩ := List.mem_map.mp hdelivered
    exact ⟨d, hd, (Prod.mk.inj heq).2, (Prod.mk.inj heq).1⟩
  · exfalso
    obtain ⟨e, he, heq⟩ := List.mem_map.mp hpending
    have hhalf : (e.1, half e.2) ∈ h.halves := List.mem_map.mpr ⟨e, he, rfl⟩
    obtain ⟨c', hc', deadline, hdeadline, -, hle⟩ := hdue _ hhalf
    replace hc' : (startCalls calls)[e.2.ticket]? = some c' := hc'
    rw [(Prod.mk.inj heq).2] at hc'
    obtain rfl : c = c' := Option.some.inj (hc.symm.trans hc')
    have hallowed : p.allowance e.2.phase ≤ p.connectTimeoutMs * 1000000 + 2 * p.period +
        2 * (p.readTimeoutMs * 1000000) := by
      cases e.2.phase <;> simp only [Pace.allowance] <;> omega
    have hswept : h = ((new target maxIdle idleTimeoutMs).run calls).sweepTimeouts now := by
      simp only [h, run, List.foldl_append]
      rfl
    rw [hswept] at hhalf
    have hlive : now < deadline := live_sweepTimeouts hhalf hdeadline
    replace hle : deadline ≤ c.now + p.allowance e.2.phase := hle
    omega

/-- The upstream accepts the connection and then stays silent. -/
def silentUpstream : List Call :=
  let budget : Budget := ⟨5, 10, 0⟩
  [.start ⟨1, {}, {}, budget, 100, .started 5, true⟩, .sweep 1000000,
    .event 5 1 .writable { now := 1000001, budget }, .sweep 20000000, .sweep 40000000,
    .sweep 60000000]

theorem answered_in_time_silent :
    ∃ d ∈ ((new (.ok ⟨[], 80⟩) 4 60000).run (silentUpstream ++ [.sweep 80000000])).delivered,
      d.ticket = 0 ∧ d.clientConnectionId = 1 := by
  have hfresh : (new (.ok ⟨[], 80⟩) 4 60000).FreshRun (silentUpstream ++ [.sweep 80000000]) := by
    refine ⟨fun fd hfd => ?_, trivial⟩
    cases hfd
    decide
  have hpace : (Pace.mk 5 10 20000000).Run 0 (silentUpstream ++ [.sweep 80000000]) := by
    simp only [silentUpstream, List.cons_append, List.nil_append, Pace.Run, Pace.Soon,
      Pace.Connects, Pace.Reads]
    decide
  exact answered_in_time (.ok ⟨[], 80⟩) 4 60000 ⟨5, 10, 20000000⟩ 0 silentUpstream 80000000 hfresh
    hpace 0 _ rfl (by decide)

end ProxyHandler
end Aevrix.Proxy.Lifecycle
