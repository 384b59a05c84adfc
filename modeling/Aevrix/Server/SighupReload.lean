import Aevrix.Concurrent.Latch
import Aevrix.Server.Program
import Aevrix.Worker.CompletionHandler

/-!
# Reloads on SIGHUP (`signal_handler.cpp`, `main.cpp`)

The handler of the signal stores a flag and writes an eventfd; it may run in any thread, between
any two steps of the event loop. The loop reads the eventfd and then takes the flag, and it takes
the flag once more behind each batch of events (`main.cpp:1771-1805, 2036-2057`). A burst of
signals becomes one reload (`reloads_coalesced`), and a signal is followed by a reload that reads
the file after it (`signal_reloaded`).
-/

namespace Aevrix.Server
open Concurrent (Latch)
open Concurrent.Latch (System Move)
open Aevrix.Config (Files)
open Aevrix.Worker (eventFdMax)

/-- `SignalHandler` as far as reloads go, and the counter of the eventfd that it writes. -/
structure SignalHandler where
  reloadRequested : Bool
  reloadNotifyFd : ℤ
  counter : ℕ

namespace SignalHandler

/-- The store of `request_reload` (`signal_handler.cpp:113`). -/
def storeRequest (h : SignalHandler) : SignalHandler := { h with reloadRequested := true }

/-- The write of `request_reload` (`signal_handler.cpp:115-125`). -/
def wake (h : SignalHandler) : SignalHandler :=
  if 0 ≤ h.reloadNotifyFd then
    { h with counter := if h.counter < eventFdMax then h.counter + 1 else h.counter }
  else h

/-- The loop of reads in the wake-up callback (`main.cpp:1787-1790`). -/
def drain (h : SignalHandler) : SignalHandler := { h with counter := 0 }

/-- `consume_reload_request` (`signal_handler.cpp:104-108`). -/
def consumeReloadRequest (h : SignalHandler) : Bool × SignalHandler :=
  if h.reloadRequested = true then (true, { h with reloadRequested := false }) else (false, h)

/-- The eventfd is created and registered with the loop, or there is none
(`main.cpp:1776-1805`). -/
def registered (eventFd : ℤ) (addFd : Bool) : SignalHandler where
  reloadRequested := false
  reloadNotifyFd := if 0 ≤ eventFd ∧ addFd = true then eventFd else -1
  counter := 0

theorem wake_counter {h : SignalHandler} (hfd : decide (h.reloadNotifyFd < 0) = false) :
    decide (0 < h.wake.counter) = true := by
  have hnotify : 0 ≤ h.reloadNotifyFd := Int.not_lt.mp (of_decide_eq_false hfd)
  rw [wake, if_pos hnotify, decide_eq_true_eq]
  show 0 < if h.counter < eventFdMax then h.counter + 1 else h.counter
  split
  · exact Nat.succ_pos _
  · rename_i hfull
    exact Nat.lt_of_lt_of_le (by decide) (Nat.le_of_not_lt hfull)

theorem wake_kept (h : SignalHandler) :
    h.wake.reloadRequested = h.reloadRequested ∧ h.wake.reloadNotifyFd = h.reloadNotifyFd := by
  unfold wake
  split
  · exact ⟨rfl, rfl⟩
  · exact ⟨rfl, rfl⟩

theorem consumeReloadRequest_spec (h : SignalHandler) :
    h.consumeReloadRequest.1 = h.reloadRequested ∧
    h.consumeReloadRequest.2 = { h with reloadRequested := false } := by
  rcases h with ⟨requested, fd, counter⟩
  cases requested with
  | true => exact ⟨rfl, rfl⟩
  | false => exact ⟨rfl, rfl⟩

/-- The handler as a flag with a bell. -/
def latch : Latch SignalHandler where
  raise := storeRequest
  ring := wake
  silence := drain
  clear := consumeReloadRequest
  raised := reloadRequested
  ringing h := decide (0 < h.counter)
  deaf h := decide (h.reloadNotifyFd < 0)
  raised_raise _ := rfl
  ringing_raise _ := rfl
  deaf_raise _ := rfl
  raised_ring h := (wake_kept h).1
  ringing_ring _ hfd := wake_counter hfd
  deaf_ring h := by rw [(wake_kept h).2]
  raised_silence _ := rfl
  deaf_silence _ := rfl
  clear_fst h := (consumeReloadRequest_spec h).1
  raised_clear h := by rw [(consumeReloadRequest_spec h).2]
  ringing_clear h := by rw [(consumeReloadRequest_spec h).2]
  deaf_clear h := by rw [(consumeReloadRequest_spec h).2]

end SignalHandler

/-! ### The running server -/

/-- The signal handler with the event loop, and the program it serves. A signal has a number. -/
structure Reloading where
  signals : System SignalHandler ℕ Files
  program : Program

/-- A thread stores the flag for a signal, or writes the eventfd; the loop makes its next step, for
which a reload finds these files; or one of the handlers of the loop runs. -/
inductive SignalEvent where
  | store (thread signal : ℕ)
  | write (thread : ℕ)
  | loop (timedOut : Bool) (files : Files)
  | handle (step : Program.Step)

def SignalEvent.move : SignalEvent → Move ℕ Files
  | .store thread signal => .raise thread signal
  | .write thread => .ring thread
  | .loop timedOut files => .serve timedOut files
  | .handle _ => .other

namespace Reloading

/-- What an event does to the program: a reload, once the flag was taken
(`main.cpp:1793-1795, 2055-2057`), or a handler. -/
def react (s : Reloading) : SignalEvent → Program
  | .loop _ files => match s.signals.server with
    | .working _ => s.program.performReload [] files
    | _ => s.program
  | .handle step => s.program.step step
  | _ => s.program

def step (s : Reloading) (e : SignalEvent) : Reloading where
  signals := SignalHandler.latch.step s.signals e.move
  program := s.react e

def start (handler : SignalHandler) (threads : ℕ) (program : Program) : Reloading where
  signals := Latch.start handler threads
  program := program

def run (s : Reloading) (events : List SignalEvent) : Reloading := events.foldl step s

def trace (s : Reloading) (schedule : ℕ → SignalEvent) : ℕ → Reloading
  | 0 => s
  | n + 1 => (s.trace schedule n).step (schedule n)

theorem signals_run (s : Reloading) (events : List SignalEvent) :
    (s.run events).signals = SignalHandler.latch.run s.signals (events.map SignalEvent.move) := by
  induction events generalizing s with
  | nil => rfl
  | cons e events ih => exact ih (s.step e)

theorem signals_trace (s : Reloading) (schedule : ℕ → SignalEvent) (n : ℕ) :
    (s.trace schedule n).signals =
      SignalHandler.latch.trace s.signals (fun n => (schedule n).move) n := by
  induction n with
  | zero => rfl
  | succ n ih =>
    show SignalHandler.latch.step (s.trace schedule n).signals (schedule n).move = _
    rw [ih]
    rfl

section
variable (eventFd : ℤ) (addFd : Bool) (threads : ℕ) (program : Program)

/-- The server as its loop begins. -/
abbrev started : Reloading := start (.registered eventFd addFd) threads program

/-- Any number of threads and the loop, in any order: each reload answers signals that no other
reload answers, one at least, in the order in which they came; the flag is up exactly while a
signal is unanswered; and then the eventfd, if it was registered, is readable, or a thread is about
to write it, or the loop has just read it. -/
theorem reloads_coalesced (events : List SignalEvent) :
    let s := ((started eventFd addFd threads program).run events).signals
    (s.done.map Prod.fst).flatten ++ s.batch ++ s.pending = s.requests ∧
    (∀ d ∈ s.done, d.1 ≠ []) ∧ s.done.length ≤ s.requests.length ∧
    (s.state.reloadRequested = true ↔ s.pending ≠ []) ∧
    (0 ≤ s.state.reloadNotifyFd → s.pending ≠ [] →
      0 < s.state.counter ∨ Latch.Raiser.between ∈ s.raisers ∨ s.server = .answering) := by
  intro s
  have htold : SignalHandler.latch.Told s := by
    show SignalHandler.latch.Told ((started eventFd addFd threads program).run events).signals
    rw [signals_run]
    exact Latch.told_run rfl threads _
  refine ⟨htold.order, htold.done, htold.length_done, htold.flag, fun hfd hpending => ?_⟩
  rcases htold.announced (decide_eq_false (Int.not_lt.mpr hfd)) hpending with hcounter | hrest
  · exact Or.inl (of_decide_eq_true hcounter)
  · exact Or.inr hrest

/-- A signal is followed by a reload that reads the file after it, if the waits of the loop end
after a time, or if the eventfd is registered, the loop goes on and the threads come to their
writes. -/
theorem signal_reloaded (schedule : ℕ → SignalEvent)
    (hends : (∀ n, ∃ m, n ≤ m ∧ ∃ files, schedule m = .loop true files) ∨
      (0 ≤ eventFd ∧ addFd = true ∧
        (∀ n, ∃ m, n ≤ m ∧ ∃ timedOut files, schedule m = .loop timedOut files) ∧
        ∀ t < threads, ∀ n, ∃ m, n ≤ m ∧ schedule m = .write t))
    (n t signal : ℕ) (hmove : schedule n = .store t signal) :
    let s := (started eventFd addFd threads program).trace schedule
    (s n).signals.raisers[t]? = some .idle →
      ∃ m timedOut files, n < m ∧ schedule m = .loop timedOut files ∧
        signal ∈ (s m).signals.batch ∧
        (s (m + 1)).program = (s m).program.performReload [] files ∧
        (s (m + 1)).signals.done = (s m).signals.done ++ [((s m).signals.batch, files)] := by
  intro s hidle
  have hends' : Latch.TimesOut (fun n => (schedule n).move) ∨
      SignalHandler.latch.deaf (.registered eventFd addFd) = false ∧
        Latch.Serves (fun n => (schedule n).move) ∧
        Latch.Rings threads (fun n => (schedule n).move) := by
    rcases hends with htimes | ⟨hfd, hadd, hloops, hwrites⟩
    · refine Or.inl fun n => ?_
      obtain ⟨m, hnm, files, hm⟩ := htimes n
      exact ⟨m, hnm, files, congrArg SignalEvent.move hm⟩
    · refine Or.inr ⟨?_, fun n => ?_, fun t ht n => ?_⟩
      · show decide ((if 0 ≤ eventFd ∧ addFd = true then eventFd else -1) < 0) = false
        rw [if_pos ⟨hfd, hadd⟩]
        exact decide_eq_false (Int.not_lt.mpr hfd)
      · obtain ⟨m, hnm, timedOut, files, hm⟩ := hloops n
        exact ⟨m, hnm, timedOut, files, congrArg SignalEvent.move hm⟩
      · obtain ⟨m, hnm, hm⟩ := hwrites t ht n
        exact ⟨m, hnm, congrArg SignalEvent.move hm⟩
  have hpending : signal ∈ (s (n + 1)).signals.pending := by
    show signal ∈ (SignalHandler.latch.step (s n).signals (schedule n).move).pending
    rw [hmove]
    simp only [SignalEvent.move, Latch.step, hidle]
    exact List.mem_append_right _ (List.mem_singleton_self signal)
  rw [signals_trace] at hpending
  obtain ⟨m, timedOut, files, hnm, hserve, hbatch, ⟨answered, hserver⟩, hdone⟩ :=
    Latch.done_of_pending rfl hends' (n + 1) hpending
  simp only [show Latch.start (.registered eventFd addFd) threads =
    (started eventFd addFd threads program).signals from rfl, ← signals_trace] at hbatch hserver hdone
  have hloop : schedule m = .loop timedOut files := by
    cases hm : schedule m with
    | loop timedOut' files' =>
      rw [hm] at hserve
      cases hserve
      rfl
    | store t' signal' => rw [hm] at hserve; cases hserve
    | write t' => rw [hm] at hserve; cases hserve
    | handle step => rw [hm] at hserve; cases hserve
  refine ⟨m, timedOut, files, hnm, hloop, hbatch, ?_, hdone⟩
  show (s m).react (schedule m) = _
  rw [hloop]
  simp only [react, s, hserver]

end

/-- A thread that takes a signal, and the loop, by turns. -/
def byTurns (n : ℕ) : SignalEvent :=
  if n % 3 = 0 then .store 0 n
  else if n % 3 = 1 then .write 0
  else .loop false ⟨fun _ => false, fun _ => none, fun _ => false⟩

theorem signal_reloaded_byTurns :
    let s := (started 7 true 1 (Program.start {} [] fun _ => none)).trace byTurns
    ∃ m timedOut files, 0 < m ∧ byTurns m = .loop timedOut files ∧ 0 ∈ (s m).signals.batch ∧
      (s (m + 1)).program = (s m).program.performReload [] files ∧
      (s (m + 1)).signals.done = (s m).signals.done ++ [((s m).signals.batch, files)] := by
  refine signal_reloaded 7 true 1 (Program.start {} [] fun _ => none) byTurns
    (Or.inr ⟨by decide, rfl, fun n => ?_, fun t ht n => ?_⟩) 0 0 0 rfl rfl
  · refine ⟨3 * n + 2, by omega, false, ⟨fun _ => false, fun _ => none, fun _ => false⟩, ?_⟩
    rw [byTurns, if_neg (by omega), if_neg (by omega)]
  · have hzero : t = 0 := by omega
    refine ⟨3 * n + 1, by omega, ?_⟩
    rw [byTurns, if_neg (by omega), if_pos (by omega), hzero]

end Reloading
end Aevrix.Server
