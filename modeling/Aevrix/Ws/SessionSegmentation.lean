import Aevrix.Ws.FrameCodec
import Aevrix.Ws.SessionSteps

/-!
# Sessions and the cuts in their input

As long as a session is established, feeding it is draining a machine that reads frames
(`Session.machine`), and that does not see the cuts. The session leaves the machine at the
first violation or at the Close; from there on its output is fixed (`Session.After`), and
what else may change depends on what follows.
-/

namespace Aevrix.Ws
open Incremental

/-! ### Frames on an established session -/

theorem readFrame_productive (maxPayloadBytes : ℕ) : (readFrame maxPayloadBytes).Productive :=
  Reader.productive_take_bind (by decide) _

/-- What the parser gives up with is an error. -/
def Reported (e : ParseError × Bytes) : Prop := e.1 ≠ .none

theorem readFrame_failsWith (maxPayloadBytes : ℕ) :
    (readFrame maxPayloadBytes).FailsWith Reported := by
  have hviolation : ∀ message, Reported (violation message) := by
    intro message
    simp [Reported, violation]
  have hlength : ∀ len7, (readLength len7).FailsWith Reported := by
    intro len7
    unfold readLength
    split
    · exact Reader.failsWith_bind (Reader.failsWith_take 2) fun _ => Reader.failsWith_pure _
    · split
      · exact Reader.failsWith_bind (Reader.failsWith_take 8) fun _ =>
          Reader.failsWith_bind (Reader.failsWith_require (hviolation _)) fun _ =>
            Reader.failsWith_pure _
      · exact Reader.failsWith_pure _
  have hcheck : ∀ fin opcode n, (checkLength maxPayloadBytes fin opcode n).FailsWith Reported := by
    intro fin opcode n
    exact Reader.failsWith_bind (Reader.failsWith_require (hviolation _)) fun _ =>
      Reader.failsWith_bind (Reader.failsWith_require (hviolation _)) fun _ =>
        Reader.failsWith_require (by simp [Reported])
  have hkey : ∀ masked, (readMaskKey masked).FailsWith Reported := by
    intro masked
    unfold readMaskKey
    split
    · exact Reader.failsWith_bind (Reader.failsWith_take 4) fun _ => Reader.failsWith_pure _
    · exact Reader.failsWith_pure _
  refine Reader.failsWith_bind (Reader.failsWith_take 2) fun v => ?_
  refine Reader.failsWith_bind (Reader.failsWith_require (hviolation _)) fun _ => ?_
  split
  · exact Reader.failsWith_fail (hviolation _)
  · exact Reader.failsWith_bind (hlength _) fun _ => Reader.failsWith_bind (hcheck _ _ _) fun _ =>
      Reader.failsWith_bind (hkey _) fun _ =>
        Reader.failsWith_bind (Reader.failsWith_take _) fun _ => Reader.failsWith_pure _

namespace Session

def live (s : Session) : Bool := decide (s.state = .established) && !s.protocolError

theorem live_iff {s : Session} (hc : s.Coherent) : s.live = true ↔ s.state = .established := by
  constructor
  · intro h
    simp only [live, Bool.and_eq_true, decide_eq_true_eq] at h
    exact h.1
  · intro h
    simp [live, h, hc.no_error h]

theorem reportError_not_live (s : Session) (error : ParseError × Bytes) :
    (s.reportError error).live = false := by
  simp [live, reportError, failConnection_protocolError]

def machine (maxMessageBytes : ℕ) : Machine Session Byte :=
  Reader.machine (readFrame maxMessageBytes) (readFrame_productive maxMessageBytes) live
    processFrame reportError reportError_not_live

section machine
variable {maxMessageBytes : ℕ} {s s' : Session} {u u' : Bytes}

theorem machine_step_coherent (hc : s.Coherent)
    (h : (machine maxMessageBytes).step s u = some (s', u')) : s'.Coherent := by
  obtain ⟨-, ⟨frame, -, rfl⟩ | ⟨e, -, rfl, -⟩⟩ := Reader.of_machine_step h
  · exact hc.processFrame frame
  · exact hc.reportError e

theorem drain_coherent (maxMessageBytes : ℕ) (hc : s.Coherent) (u : Bytes) :
    ((machine maxMessageBytes).drain s u).1.Coherent :=
  Machine.drain_preserves (P := fun s _ => s.Coherent)
    (fun _ _ _ _ hc h => machine_step_coherent hc h) s u hc

theorem machine_dead (hs : s.state ≠ .established) (u : Bytes) :
    (machine maxMessageBytes).step s u = none := by
  refine Reader.machine_step_dead ?_
  simp [live, hs]

theorem drain_append_dead (x : Bytes)
    (h : ((machine maxMessageBytes).drain s u).1.state ≠ .established) :
    (machine maxMessageBytes).drain s (u ++ x) =
      (((machine maxMessageBytes).drain s u).1, ((machine maxMessageBytes).drain s u).2 ++ x) :=
  Machine.drain_append_dead x (machine_dead h)

/-- Unless the session failed, the drain needs nothing behind what it consumed. -/
theorem drain_front (herror : ((machine maxMessageBytes).drain s u).1.protocolError = false)
    (hs : ((machine maxMessageBytes).drain s u).1.state ≠ .established) :
    ∃ v, u = v ++ ((machine maxMessageBytes).drain s u).2 ∧
      (machine maxMessageBytes).drain s v = (((machine maxMessageBytes).drain s u).1, []) := by
  have hfront : (∀ (s' : Session) e, ((machine maxMessageBytes).drain s u).1 ≠ s'.reportError e) → _ :=
    Reader.machine_drain_front s u
  obtain ⟨v, hv, hdrain⟩ := hfront (by
    intro s' e he
    have hfail : (s'.reportError e).protocolError = true := failConnection_protocolError
    rw [← he] at hfail
    exact Bool.false_ne_true (herror.symm.trans hfail))
  exact ⟨v, hv, hdrain.trans (Machine.drain_none (machine_dead hs []))⟩

end machine

/-! ### Behind the Close -/

/-- What is settled of a session once its Close was sent. -/
structure After (s s' : Session) : Prop where
  output : s'.output = s.output
  closeSent : s'.closeSent = s.closeSent
  closed : s.state = .closed → s'.state = .closed ∧ s'.closeReceived = s.closeReceived
  error : s.protocolError = true → s'.protocolError = true

theorem After.refl (s : Session) : After s s := ⟨rfl, rfl, fun h => ⟨h, rfl⟩, fun h => h⟩

theorem After.trans {s s' s'' : Session} (h : After s s') (h' : After s' s'') : After s s'' where
  output := h'.output.trans h.output
  closeSent := h'.closeSent.trans h.closeSent
  closed hs := by
    obtain ⟨hs', hr⟩ := h.closed hs
    obtain ⟨hs'', hr'⟩ := h'.closed hs'
    exact ⟨hs'', hr'.trans hr⟩
  error he := h'.error (h.error he)

section After
variable {s s' : Session}

theorem After.failed (hsent : s.closeSent = true) (hc : s.Coherent) (received : Bool) (code : ℕ)
    (reason : Bytes) :
    After s ({ s with closeReceived := s.closeReceived || received }.failConnection code reason) := by
  have hclosed : s.state = .closed → (s.closeReceived || received) = s.closeReceived := by
    intro hs
    rw [hc.closed hs, Bool.true_or]
  cases he : s.protocolError with
  | true =>
    rw [failConnection_of_error rfl]
    exact ⟨rfl, rfl, fun hs => ⟨hs, hclosed hs⟩, fun _ => rfl⟩
  | false =>
    rw [failConnection_eq rfl]
    refine ⟨?_, hsent.symm, fun hs => ⟨?_, hclosed hs⟩, fun _ => rfl⟩
    · simp only [hsent, if_true]
    · simp only [hc.closed hs, Bool.true_or, if_true]

theorem Outcome.after {frame : Frame} (hc : s.Coherent) (hs : s.state ≠ .established)
    (h : Outcome s frame s') : After s s' := by
  have hsent := hc.sent hs
  cases h with
  | ignored => exact After.refl s
  | failed received code reason => exact After.failed hsent hc received code reason
  | answered h | echoed h | started h | extended h | assembled h | closed h => exact absurd h hs
  | acknowledged _ hreceived =>
    refine ⟨rfl, hsent.symm, fun hclosed => ?_, fun he => he⟩
    rw [hc.closed hclosed] at hreceived
    cases hreceived

theorem After.reportError (hc : s.Coherent) (hs : s.state ≠ .established)
    (error : ParseError × Bytes) : After s (s.reportError error) := by
  have h := After.failed (hc.sent hs) hc false (if error.1 = .payloadTooLarge then 1009 else 1002)
    error.2
  rw [Bool.or_false] at h
  exact h

end After
end Session

namespace WebSocketConnection
open Session

/-- A connection between two feeds, with `u` left in its parser. -/
def waiting (maxPayloadBytes : ℕ) (s : Session) (u : Bytes) : WebSocketConnection where
  parser := { buffer := u, maxPayloadBytes }
  session := s

/-- All feeds of a list. -/
def feedAll (c : WebSocketConnection) (ds : List Bytes) : WebSocketConnection := ds.foldl feed c

section feedLoop
variable {maxPayloadBytes : ℕ} {s : Session} {u r : Bytes} {n : ℕ}

theorem feedLoop_needMore (h : (readFrame maxPayloadBytes).run u = .needMore) (hn : 0 < n) :
    feedLoop n (waiting maxPayloadBytes s u) = waiting maxPayloadBytes s u := by
  obtain ⟨n, rfl⟩ := Nat.exists_eq_succ_of_ne_zero (Nat.ne_of_gt hn)
  simp only [feedLoop, waiting, FrameParser.hasError, FrameParser.next_needMore h, bne_self_eq_false,
    Bool.false_eq_true, if_false]

theorem feedLoop_done {frame : Frame} (h : (readFrame maxPayloadBytes).run u = .done (frame, r)) :
    feedLoop (n + 1) (waiting maxPayloadBytes s u) =
      if (s.processFrame frame).protocolError then waiting maxPayloadBytes (s.processFrame frame) []
      else feedLoop n (waiting maxPayloadBytes (s.processFrame frame) r) := by
  simp only [feedLoop, waiting, FrameParser.hasError, FrameParser.next_ready h, bne_self_eq_false,
    Bool.false_eq_true, if_false]
  rfl

theorem feedLoop_failed {e : ParseError × Bytes}
    (h : (readFrame maxPayloadBytes).run u = .failed e) :
    feedLoop (n + 2) (waiting maxPayloadBytes s u) = waiting maxPayloadBytes (s.reportError e) [] := by
  let p : FrameParser := { buffer := u, maxPayloadBytes, error := e.1, errorMessage := e.2 }
  have hhas : p.hasError = true := by
    simpa [p, FrameParser.hasError, Reported] using readFrame_failsWith maxPayloadBytes u e h
  have hnext : FrameParser.next { buffer := u, maxPayloadBytes } = (.error, p) := by
    rw [FrameParser.next, if_neg (by simp [FrameParser.hasError]), h]
  have hfind : feedLoop (n + 2) (waiting maxPayloadBytes s u) =
      feedLoop (n + 1) { parser := p, session := s } := by
    rw [feedLoop, if_neg (by simp [waiting, FrameParser.hasError])]
    simp only [waiting, hnext]
  rw [hfind, feedLoop, if_pos hhas]
  split
  · rename_i he
    rw [reportError, failConnection_of_error he]
    rfl
  · rfl

theorem feedLoop_rests (maxPayloadBytes : ℕ) (hn : u.length + 2 ≤ n) :
    ∃ s' w, feedLoop n (waiting maxPayloadBytes s u) = waiting maxPayloadBytes s' w ∧
      (readFrame maxPayloadBytes).run w = .needMore := by
  have hnil : (readFrame maxPayloadBytes).run [] = .needMore :=
    Reader.run_bind_needMore (Reader.run_take_short (by decide)) _
  induction n generalizing s u with
  | zero => omega
  | succ n ih =>
    cases hr : (readFrame maxPayloadBytes).run u with
    | needMore => exact ⟨s, u, feedLoop_needMore hr (Nat.succ_pos n), hr⟩
    | failed e =>
      obtain ⟨m, rfl⟩ := Nat.exists_eq_succ_of_ne_zero (by omega : n ≠ 0)
      exact ⟨s.reportError e, [], feedLoop_failed hr, hnil⟩
    | done p =>
      obtain ⟨frame, r⟩ := p
      have hlt := readFrame_productive maxPayloadBytes hr
      rw [feedLoop_done hr]
      split
      · exact ⟨s.processFrame frame, [], rfl, hnil⟩
      · exact ih (by omega)

theorem feedLoop_after (maxPayloadBytes : ℕ) (hc : s.Coherent) (hs : s.state ≠ .established) (hn : u.length + 2 ≤ n) :
    ∃ s' w, feedLoop n (waiting maxPayloadBytes s u) = waiting maxPayloadBytes s' w ∧
      s'.Coherent ∧ s.After s' := by
  induction n generalizing s u with
  | zero => omega
  | succ n ih =>
    cases hr : (readFrame maxPayloadBytes).run u with
    | needMore => exact ⟨s, u, feedLoop_needMore hr (Nat.succ_pos n), hc, After.refl s⟩
    | failed e =>
      obtain ⟨m, rfl⟩ := Nat.exists_eq_succ_of_ne_zero (by omega : n ≠ 0)
      exact ⟨s.reportError e, [], feedLoop_failed hr, hc.reportError e, After.reportError hc hs e⟩
    | done p =>
      obtain ⟨frame, r⟩ := p
      have hout := processFrame_cases hc frame
      have hafter := hout.after hc hs
      have hc' := hc.processFrame frame
      rw [feedLoop_done hr]
      split
      · exact ⟨s.processFrame frame, [], rfl, hc', hafter⟩
      · have hlt := readFrame_productive maxPayloadBytes hr
        have hs' : (s.processFrame frame).state ≠ .established := by
          rw [ne_eq, hc'.established, hafter.closeSent, hc.sent hs]
          simp
        obtain ⟨s', w, hloop, hc'', hafter'⟩ := ih hc' hs' (by omega : r.length + 2 ≤ n)
        exact ⟨s', w, hloop, hc'', hafter.trans hafter'⟩

/-- Feeding an established session drains its machine. What is left when the session stops
is dropped after a violation, and looked at after a Close. -/
theorem feedLoop_drain (maxPayloadBytes : ℕ) (hc : s.Coherent) (hs : s.state = .established) (hn : u.length + 2 ≤ n) :
    let x := (machine maxPayloadBytes).drain s u
    ∃ m, x.2.length + 2 ≤ m ∧ feedLoop n (waiting maxPayloadBytes s u) =
      if x.1.protocolError then waiting maxPayloadBytes x.1 []
      else feedLoop m (waiting maxPayloadBytes x.1 x.2) := by
  intro x
  induction s, u using Machine.run_induction (M := machine maxPayloadBytes) generalizing n with
  | blocked s u hb =>
    have hx : x = (s, u) := Machine.drain_none hb
    rw [hx]
    exact ⟨n, hn, by rw [if_neg (by rw [hc.no_error hs]; exact Bool.false_ne_true)]⟩
  | progress s u s' u' hstep ih =>
    have hx : x = (machine maxPayloadBytes).drain s' u' := Machine.drain_some hstep
    have hc' := machine_step_coherent hc hstep
    obtain ⟨n, rfl⟩ := Nat.exists_eq_add_of_le' (by omega : 2 ≤ n)
    obtain ⟨-, ⟨frame, hr, rfl⟩ | ⟨e, hr, rfl, rfl⟩⟩ := Reader.of_machine_step hstep
    · have hlt := readFrame_productive maxPayloadBytes hr
      rw [feedLoop_done hr, hx]
      by_cases hs' : (s.processFrame frame).state = .established
      · rw [if_neg (by rw [hc'.no_error hs']; exact Bool.false_ne_true)]
        exact ih hc' hs' (by omega)
      · rw [Machine.drain_none (machine_dead hs' u')]
        refine ⟨n + 1, ?_, rfl⟩
        show u'.length + 2 ≤ n + 1
        omega
    · have he : (s.reportError e).protocolError = true := failConnection_protocolError
      have hs' : (s.reportError e).state ≠ .established := by
        intro hs'
        rw [hc'.no_error hs'] at he
        cases he
      rw [feedLoop_failed hr, hx, Machine.drain_none (machine_dead hs' u')]
      exact ⟨u'.length + 2, Nat.le_refl _, by rw [if_pos he]⟩

end feedLoop

/-! ### Feeds -/

section feed
variable {maxPayloadBytes : ℕ} {s : Session} {u d : Bytes}

theorem feed_open (hs : s.state ≠ .closed) : feed (waiting maxPayloadBytes s u) d =
    feedLoop ((u ++ d).length + 2) (waiting maxPayloadBytes s (u ++ d)) := by
  rw [feed, if_neg (by exact hs)]
  rfl

theorem feed_closed (hs : s.state = .closed) :
    feed (waiting maxPayloadBytes s u) d = waiting maxPayloadBytes s u := by
  rw [feed, if_pos (by exact hs)]

theorem feed_nil : feed (waiting maxPayloadBytes s []) [] = waiting maxPayloadBytes s [] := by
  by_cases hs : s.state = .closed
  · exact feed_closed hs
  · rw [feed_open hs]
    exact feedLoop_needMore (Reader.run_bind_needMore (Reader.run_take_short (by decide)) _)
      (Nat.succ_pos _)

theorem feedAll_nil {ds : List Bytes} (h : ds.flatten = []) :
    feedAll (waiting maxPayloadBytes s []) ds = waiting maxPayloadBytes s [] := by
  induction ds with
  | nil => rfl
  | cons d ds ih =>
    obtain ⟨rfl, hds⟩ := List.append_eq_nil_iff.mp h
    show feedAll (feed (waiting maxPayloadBytes s []) []) ds = _
    rw [feed_nil, ih hds]

theorem feed_after (maxPayloadBytes : ℕ) (u d : Bytes) (hc : s.Coherent)
    (hs : s.state ≠ .established) :
    ∃ s' w, feed (waiting maxPayloadBytes s u) d = waiting maxPayloadBytes s' w ∧
      s'.Coherent ∧ s.After s' := by
  by_cases hclosed : s.state = .closed
  · exact ⟨s, u, feed_closed hclosed, hc, After.refl s⟩
  · rw [feed_open hclosed]
    exact feedLoop_after maxPayloadBytes hc hs (Nat.le_refl _)

theorem feedAll_after (maxPayloadBytes : ℕ) (u : Bytes) (hc : s.Coherent)
    (hs : s.state ≠ .established) (ds : List Bytes) :
    ∃ s' w, feedAll (waiting maxPayloadBytes s u) ds = waiting maxPayloadBytes s' w ∧
      s.After s' := by
  induction ds generalizing s u with
  | nil => exact ⟨s, u, rfl, After.refl s⟩
  | cons d ds ih =>
    obtain ⟨s₁, w₁, hfeed, hc₁, hafter⟩ := feed_after maxPayloadBytes u d hc hs
    have hs₁ : s₁.state ≠ .established := by
      rw [ne_eq, hc₁.established, hafter.closeSent, hc.sent hs]
      simp
    obtain ⟨s', w, hrun, hafter'⟩ := ih w₁ hc₁ hs₁
    refine ⟨s', w, ?_, hafter.trans hafter'⟩
    show feedAll (feed (waiting maxPayloadBytes s u) d) ds = _
    rw [hfeed, hrun]

theorem feed_established (hc : s.Coherent) (hs : s.state = .established)
    (hx : ((machine maxPayloadBytes).drain s (u ++ d)).1.state = .established) :
    feed (waiting maxPayloadBytes s u) d =
      waiting maxPayloadBytes ((machine maxPayloadBytes).drain s (u ++ d)).1
        ((machine maxPayloadBytes).drain s (u ++ d)).2 := by
  have hcx := drain_coherent maxPayloadBytes hc (u ++ d)
  have hblocked := Machine.step_drain (M := machine maxPayloadBytes) s (u ++ d)
  obtain ⟨m, hm, hloop⟩ := feedLoop_drain maxPayloadBytes hc hs
    (Nat.le_refl ((u ++ d).length + 2))
  rw [feed_open (by rw [hs]; simp), hloop, if_neg (by rw [hcx.no_error hx]; exact Bool.false_ne_true)]
  exact feedLoop_needMore (Reader.of_machine_blocked ((live_iff hcx).mpr hx) hblocked) (by omega)

theorem feed_stopped (hc : s.Coherent) (hs : s.state = .established)
    (hx : ((machine maxPayloadBytes).drain s (u ++ d)).1.state ≠ .established) :
    ∃ s' w, feed (waiting maxPayloadBytes s u) d = waiting maxPayloadBytes s' w ∧ s'.Coherent ∧
      ((machine maxPayloadBytes).drain s (u ++ d)).1.After s' ∧
      (((machine maxPayloadBytes).drain s (u ++ d)).1.protocolError = true ∨
        ((machine maxPayloadBytes).drain s (u ++ d)).2 = [] →
          s' = ((machine maxPayloadBytes).drain s (u ++ d)).1 ∧ w = []) := by
  have hcx := drain_coherent maxPayloadBytes hc (u ++ d)
  obtain ⟨m, hm, hloop⟩ := feedLoop_drain maxPayloadBytes hc hs
    (Nat.le_refl ((u ++ d).length + 2))
  rw [feed_open (by rw [hs]; simp), hloop]
  generalize (machine maxPayloadBytes).drain s (u ++ d) = x at hx hcx hm
  by_cases he : x.1.protocolError = true
  · rw [if_pos he]
    exact ⟨x.1, [], rfl, hcx, After.refl x.1, fun _ => ⟨rfl, rfl⟩⟩
  · rw [if_neg he]
    by_cases hnil : x.2 = []
    · rw [hnil]
      have hmore : (readFrame maxPayloadBytes).run [] = .needMore :=
        Reader.run_bind_needMore (Reader.run_take_short (by decide)) _
      exact ⟨x.1, [], feedLoop_needMore hmore (by omega), hcx, After.refl x.1,
        fun _ => ⟨rfl, rfl⟩⟩
    · obtain ⟨s', w, hrun, hc', hafter⟩ := feedLoop_after (u := x.2) maxPayloadBytes hcx hx hm
      exact ⟨s', w, hrun, hc', hafter, fun h => (h.elim he hnil).elim⟩

/-- No proper front of the stream stops the session. -/
def StopsAtEnd (maxPayloadBytes : ℕ) (s : Session) (u : Bytes) : Prop :=
  ∀ v y, u = v ++ y → y ≠ [] → ((machine maxPayloadBytes).drain s v).1.state = .established

theorem stopsAtEnd_of_drain (h : ((machine maxPayloadBytes).drain s u).2 = []) :
    StopsAtEnd maxPayloadBytes s u := by
  intro v y hu hy
  by_contra hs
  rw [hu, drain_append_dead y hs] at h
  exact hy (List.append_eq_nil_iff.mp h).2

/-- **All feeds of a stream.** From a front `p` of the stream on, the session comes to what
the drain of the whole stream says, as far as that is settled by its stop. -/
theorem feedAll_drain (maxPayloadBytes : ℕ) (hc : s.Coherent) (ds : List Bytes) (p : Bytes)
    (hp : ((machine maxPayloadBytes).drain s p).1.state = .established) :
    let x := (machine maxPayloadBytes).drain s (p ++ ds.flatten)
    ∃ s' w, feedAll (waiting maxPayloadBytes ((machine maxPayloadBytes).drain s p).1
        ((machine maxPayloadBytes).drain s p).2) ds = waiting maxPayloadBytes s' w ∧
      x.1.After s' ∧ (x.1.state = .established → s' = x.1) ∧
      (StopsAtEnd maxPayloadBytes s (p ++ ds.flatten) → s' = x.1) := by
  intro x
  induction ds generalizing p with
  | nil =>
    have hx : x = (machine maxPayloadBytes).drain s p := by
      show (machine maxPayloadBytes).drain s (p ++ []) = _
      rw [List.append_nil]
    rw [hx]
    exact ⟨_, _, rfl, After.refl _, fun _ => rfl, fun _ => rfl⟩
  | cons d ds ih =>
    have hcp := drain_coherent maxPayloadBytes hc p
    have hy := Machine.drain_append (M := machine maxPayloadBytes) s p d
    have hassoc : p ++ (d :: ds).flatten = (p ++ d) ++ ds.flatten := by
      rw [List.flatten_cons, List.append_assoc]
    by_cases hest : ((machine maxPayloadBytes).drain s (p ++ d)).1.state = .established
    · have hfeed := feed_established (d := d) hcp hp (by rw [← hy]; exact hest)
      have hrun := ih (p ++ d) hest
      rw [← hy] at hfeed
      simp only [x, hassoc]
      obtain ⟨s', w, hall, hrest⟩ := hrun
      refine ⟨s', w, ?_, hrest⟩
      rw [← hall, ← hfeed]
      rfl
    · have hx : x = (((machine maxPayloadBytes).drain s (p ++ d)).1,
          ((machine maxPayloadBytes).drain s (p ++ d)).2 ++ ds.flatten) := by
        simp only [x, hassoc]
        exact drain_append_dead ds.flatten hest
      obtain ⟨s₁, w₁, hfeed, hc₁, hafter, hexact⟩ := feed_stopped (d := d) hcp hp
        (by rw [← hy]; exact hest)
      rw [← hy] at hafter hexact
      have hs₁ : s₁.state ≠ .established := by
        have hcy := drain_coherent maxPayloadBytes hc (p ++ d)
        rw [ne_eq, hc₁.established, hafter.closeSent, hcy.sent hest]
        simp
      obtain ⟨s', w, hrun, hafter'⟩ := feedAll_after maxPayloadBytes w₁ hc₁ hs₁ ds
      have hall : feedAll (waiting maxPayloadBytes ((machine maxPayloadBytes).drain s p).1
          ((machine maxPayloadBytes).drain s p).2) (d :: ds) = waiting maxPayloadBytes s' w := by
        rw [← hrun, ← hfeed]
        rfl
      rw [hx]
      refine ⟨s', w, hall, hafter.trans hafter', fun h => absurd h hest, fun hend => ?_⟩
      rw [hassoc] at hend
      -- nothing follows the feed that stopped the session
      have hds : ds.flatten = [] := by
        by_contra hne
        exact hest (hend (p ++ d) ds.flatten rfl hne)
      have hrest : ((machine maxPayloadBytes).drain s (p ++ d)).1.protocolError = true ∨
          ((machine maxPayloadBytes).drain s (p ++ d)).2 = [] := by
        by_contra hnot
        obtain ⟨herror, hne⟩ := not_or.mp hnot
        obtain ⟨v, hv, hdrain⟩ := drain_front (by simpa using herror) hest
        have hfront := hend v ((machine maxPayloadBytes).drain s (p ++ d)).2
          (by rw [hds, List.append_nil]; exact hv) hne
        rw [hdrain] at hfront
        exact hest hfront
      obtain ⟨hs', hw⟩ := hexact hrest
      rw [hw, feedAll_nil hds] at hrun
      exact (congrArg WebSocketConnection.session hrun).symm.trans hs'

end feed

/-! ### Two partitions of one stream -/

theorem drain_closing {maxPayloadBytes : ℕ} {s : Session} (hc : s.Coherent)
    (hs : s.state = .established) (u : Bytes)
    (h : ((machine maxPayloadBytes).drain s u).1.state = .closing) :
    ((machine maxPayloadBytes).drain s u).1.protocolError = true := by
  have hinv := Machine.drain_preserves (M := machine maxPayloadBytes)
    (P := fun s _ => s.Coherent ∧ (s.state = .closing → s.protocolError = true)) ?_ s u
    ⟨hc, fun hclosing => by rw [hs] at hclosing; cases hclosing⟩
  · exact hinv.2 h
  · intro s u s' u' hP hstep
    refine ⟨machine_step_coherent hP.1 hstep, ?_⟩
    obtain ⟨hl, ⟨frame, -, rfl⟩ | ⟨e, -, rfl, -⟩⟩ := Reader.of_machine_step hstep
    · have hest := (live_iff hP.1).mp hl
      have hout := processFrame_cases hP.1 frame
      intro hclosing
      generalize s.processFrame frame = s' at hout hclosing ⊢
      cases hout with
      | ignored => exact hP.2 hclosing
      | failed => exact failConnection_protocolError
      | answered | echoed | started | extended | assembled => cases hest.symm.trans hclosing
      | closed | acknowledged => cases hclosing
    · exact fun _ => failConnection_protocolError

theorem feed_drain {s : Session} (maxPayloadBytes : ℕ) (u : Bytes) (hc : s.Coherent)
    (hs : s.state = .established)
    (hx : ((machine maxPayloadBytes).drain s u).1.state ≠ .established)
    (h : ((machine maxPayloadBytes).drain s u).1.protocolError = true ∨
      ((machine maxPayloadBytes).drain s u).2 = []) :
    (feed (waiting maxPayloadBytes s []) u).session = ((machine maxPayloadBytes).drain s u).1 := by
  obtain ⟨s', w, hfeed, -, -, hexact⟩ := feed_stopped (u := []) (d := u) hc hs hx
  rw [hfeed]
  exact (hexact h).1

section partitions
variable {s : Session}

/-- What every partition of a stream has in common with the drain of the stream. -/
theorem feedAll_settled (maxPayloadBytes : ℕ) (hc : s.Coherent) (hs : s.state = .established) (ds : List Bytes) :
    let c := waiting maxPayloadBytes s []
    let x := (machine maxPayloadBytes).drain s ds.flatten
    let a := (feedAll c ds).session
    a.output = x.1.output ∧ a.closeSent = x.1.closeSent ∧
    ((∀ v y, ds.flatten = v ++ y → y ≠ [] → (feed c v).session.state ≠ .closing) →
      a.state = x.1.state ∧ a.closeReceived = x.1.closeReceived) ∧
    ((∀ v y, ds.flatten = v ++ y → y ≠ [] → (feed c v).session.state = .closed →
      (feed c v).session.protocolError = true) → a.protocolError = x.1.protocolError) := by
  intro c x a
  have hnil : (machine maxPayloadBytes).drain s [] = (s, []) := Machine.drain_none
    (Reader.machine_step_needMore (Reader.run_bind_needMore (Reader.run_take_short (by decide)) _))
  obtain ⟨s', w, hrun, hafter, hest, hend⟩ := feedAll_drain maxPayloadBytes
    hc ds [] (by rw [hnil]; exact hs)
  rw [hnil] at hrun
  rw [List.nil_append] at hafter hest hend
  have ha : a = s' := congrArg WebSocketConnection.session hrun
  rw [ha]
  refine ⟨hafter.output, hafter.closeSent, fun hcond => ?_, fun hcond => ?_⟩
  · cases hx : x.1.state with
    | established => exact ⟨by rw [hest hx, hx], by rw [hest hx]⟩
    | closed => exact ⟨(hafter.closed hx).1, (hafter.closed hx).2⟩
    | closing =>
      have hstop : StopsAtEnd maxPayloadBytes s ds.flatten := by
        intro v y hv hy
        by_contra hne
        have hdead : x.1 = ((machine maxPayloadBytes).drain s v).1 := by
          show ((machine maxPayloadBytes).drain s ds.flatten).1 = _
          rw [hv, drain_append_dead y hne]
        rw [hdead] at hx
        have hfeed := feed_drain maxPayloadBytes v hc hs hne (Or.inl (drain_closing hc hs v hx))
        exact hcond v y hv hy (by rw [hfeed]; exact hx)
      rw [hend hstop]
      exact ⟨hx, rfl⟩
  · by_cases hx : x.1.state = .established
    · rw [hest hx]
    · cases he : x.1.protocolError with
      | true => exact hafter.error he
      | false =>
        have hclosed : x.1.state = .closed := by
          cases hstate : x.1.state with
          | established => exact absurd hstate hx
          | closed => rfl
          | closing =>
            rw [drain_closing hc hs ds.flatten hstate] at he
            cases he
        have hrest : x.2 = [] := by
          by_contra hne
          obtain ⟨v, hv, hdrain⟩ := drain_front he hx
          have hfeed := feed_drain maxPayloadBytes v hc hs
            (by rw [hdrain]; exact hx) (by rw [hdrain]; exact Or.inr rfl)
          rw [hdrain] at hfeed
          have herror := hcond v x.2 hv hne (by rw [hfeed]; exact hclosed)
          rw [hfeed, he] at herror
          cases herror
        rw [hend (stopsAtEnd_of_drain hrest)]
        exact he

end partitions

/-- **Partitions of one stream.** The output and the sent Close are the same for any two.
So are the state and the received Close, unless bytes follow a violation that left the
session Closing, and the protocol error, unless bytes follow a completed handshake. -/
theorem partitions_agree (maxMessageBytes now : ℕ) (ds es : List Bytes)
    (h : ds.flatten = es.flatten) :
    let c := fresh maxMessageBytes now
    let a := (feedAll c ds).session
    let b := (feedAll c es).session
    a.output = b.output ∧ a.closeSent = b.closeSent ∧
    ((∀ v y, ds.flatten = v ++ y → y ≠ [] → (feed c v).session.state ≠ .closing) →
      a.state = b.state ∧ a.closeReceived = b.closeReceived) ∧
    ((∀ v y, ds.flatten = v ++ y → y ≠ [] → (feed c v).session.state = .closed →
      (feed c v).session.protocolError = true) → a.protocolError = b.protocolError) := by
  have hc := Coherent.fresh maxMessageBytes now
  obtain ⟨hout, hsent, hstate, herror⟩ :=
    feedAll_settled maxMessageBytes hc rfl ds
  obtain ⟨hout', hsent', hstate', herror'⟩ :=
    feedAll_settled maxMessageBytes hc rfl es
  rw [← h] at hout' hsent' hstate' herror'
  intro c a b
  refine ⟨hout.trans hout'.symm, hsent.trans hsent'.symm, fun hcond => ?_, fun hcond => ?_⟩
  · exact ⟨(hstate hcond).1.trans (hstate' hcond).1.symm,
      (hstate hcond).2.trans (hstate' hcond).2.symm⟩
  · exact (herror hcond).trans (herror' hcond).symm

/-- A masked ping and a Close, cut inside both. -/
theorem partitions_agree_ping :
    (feedAll (fresh 8 0) [[0x89, 0x80, 1], [2, 3, 4, 0x88, 0x80, 0], [0, 0, 0]]).session.output =
      (feedAll (fresh 8 0) [[0x89, 0x80, 1, 2, 3, 4, 0x88, 0x80, 0, 0, 0, 0]]).session.output :=
  (partitions_agree 8 0 _ _ (by decide)).1

/-- An unmasked ping, then the peer's Close: in one read the Close is dropped. -/
theorem close_dropped :
    let ds : List Bytes := [[0x89, 0x00, 0x88, 0x80, 0, 0, 0, 0]]
    let es : List Bytes := [[0x89, 0x00], [0x88, 0x80, 0, 0, 0, 0]]
    ds.flatten = es.flatten ∧ (feedAll (fresh 8 0) ds).session.state = .closing ∧
      (feedAll (fresh 8 0) es).session.state = .closed := by
  decide

end WebSocketConnection
end Aevrix.Ws
