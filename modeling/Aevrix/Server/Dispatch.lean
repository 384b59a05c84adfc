import Mathlib.Data.Int.Notation
import Mathlib.Logic.Function.Basic
import Aevrix.Proxy.Lifecycle

/-!
# The dispatch of events (`event_loop.h`, `event_loop.cpp`)

The loop keeps a callback for each descriptor, and the kernel the set of descriptors it watches
for the loop. A callback may register, change and remove any descriptor while the rest of the
batch is still to come. So an event reaches the callback it was reported for, unless a callback
before it in the batch removed the descriptor or registered another callback for its number
(`event_delivered`).
-/

namespace Aevrix.Server
open Aevrix.Proxy.Lifecycle (EventType)

/-- What the bits of `revents` stand for, in the order in which the loop looks at them
(`event_loop.cpp:256-275`). -/
def eventTypes (revents : UInt32) : List EventType :=
  (if revents &&& 0x001 ≠ 0 then [.readable] else []) ++
  (if revents &&& 0x004 ≠ 0 then [.writable] else []) ++
  (if revents &&& 0x008 ≠ 0 then [.error] else []) ++
  (if revents &&& 0x010 ≠ 0 then [.hangup] else []) ++
  (if revents &&& 0x2000 ≠ 0 then [.hangup] else [])

/-- `EventLoop` with epoll. A callback may be null; `interest` is what the kernel watches. -/
structure EventLoop (κ : Type) where
  fdCallbacks : ℤ → Option (Option κ)
  interest : ℤ → Option UInt32
  running : Bool

/-- What is done to the loop and to its descriptors; `accepts` is false where the kernel refuses
for a reason of its own. -/
inductive LoopOperation (κ : Type) where
  | addFd (fd : ℤ) (events : UInt32) (callback : Option κ) (accepts : Bool)
  | modifyFd (fd : ℤ) (events : UInt32) (accepts : Bool)
  | removeFd (fd : ℤ)
  | closeFd (fd : ℤ)
  | stop

/-- What `epoll_wait` returns. -/
inductive Wait where
  | interrupted | failed
  | reported (events : List (ℤ × UInt32))

namespace EventLoop
variable {κ ω : Type}

/-- The constructor (`event_loop.cpp:31-42`). -/
def new : EventLoop κ where
  fdCallbacks _ := none
  interest _ := none
  running := false

/-- `add_fd` (`event_loop.cpp:106-122`): the callback is stored first, whatever the kernel says. -/
def addFd (l : EventLoop κ) (fd : ℤ) (events : UInt32) (callback : Option κ) (accepts : Bool) :
    Bool × EventLoop κ :=
  let l := { l with fdCallbacks := Function.update l.fdCallbacks fd (some callback) }
  if accepts && (l.interest fd).isNone then
    (true, { l with interest := Function.update l.interest fd (some events) })
  else (false, l)

/-- `modify_fd` (`event_loop.cpp:138-151`). -/
def modifyFd (l : EventLoop κ) (fd : ℤ) (events : UInt32) (accepts : Bool) : Bool × EventLoop κ :=
  if accepts && (l.interest fd).isSome then
    (true, { l with interest := Function.update l.interest fd (some events) })
  else (false, l)

/-- `fd_callbacks_.erase`. -/
def eraseCallback (l : EventLoop κ) (fd : ℤ) : EventLoop κ :=
  { l with fdCallbacks := Function.update l.fdCallbacks fd none }

/-- `remove_fd` (`event_loop.cpp:160-177`). -/
def removeFd (l : EventLoop κ) (fd : ℤ) : EventLoop κ :=
  { l with interest := Function.update l.interest fd none }.eraseCallback fd

/-- A descriptor is closed; the kernel watches it no longer. -/
def closeFd (l : EventLoop κ) (fd : ℤ) : EventLoop κ :=
  { l with interest := Function.update l.interest fd none }

def apply (l : EventLoop κ) : LoopOperation κ → EventLoop κ
  | .addFd fd events callback accepts => (l.addFd fd events callback accepts).2
  | .modifyFd fd events accepts => (l.modifyFd fd events accepts).2
  | .removeFd fd => l.removeFd fd
  | .closeFd fd => l.closeFd fd
  | .stop => { l with running := false }

def applyAll (l : EventLoop κ) (operations : List (LoopOperation κ)) : EventLoop κ :=
  operations.foldl apply l

/-! ### One batch -/

/-- The loop with the rest of the world, while a batch is dispatched: what the callbacks did, and
which were called for each event. -/
structure Dispatching (κ ω : Type) where
  loop : EventLoop κ
  world : ω
  operations : List (LoopOperation κ)
  calls : List (List (κ × EventType))

/-- What a callback does, given the world. -/
abbrev Call (κ ω : Type) := κ → ℤ → EventType → ω → ω × List (LoopOperation κ)

/-- The calls of one callback, one type after the other. -/
def callEach (call : Call κ ω) (callback : κ) (fd : ℤ) :
    List EventType → ω → ω × List (LoopOperation κ)
  | [], world => (world, [])
  | type :: types, world =>
    let (world, operations) := call callback fd type world
    let (world, rest) := callEach call callback fd types world
    (world, operations ++ rest)

/-- The body of the loop over a batch (`event_loop.cpp:231-276`). The callback is copied, so all
types of one event go to the same one. -/
def handle (call : Call κ ω) (d : Dispatching κ ω) (event : ℤ × UInt32) : Dispatching κ ω :=
  match d.loop.fdCallbacks event.1 with
  | none => { d with calls := d.calls ++ [[]] }
  | some none => { d with
    loop := d.loop.eraseCallback event.1
    calls := d.calls ++ [[]] }
  | some (some callback) =>
    let (world, operations) := callEach call callback event.1 (eventTypes event.2) d.world
    { loop := d.loop.applyAll operations
      world
      operations := d.operations ++ operations
      calls := d.calls ++ [(eventTypes event.2).map fun type => (callback, type)] }

def dispatch (call : Call κ ω) (l : EventLoop κ) (world : ω) (events : List (ℤ × UInt32)) :
    Dispatching κ ω :=
  events.foldl (handle call) ⟨l, world, [], []⟩

/-- `run` (`event_loop.cpp:204-285, 345-349`). -/
def run (call : Call κ ω) (l : EventLoop κ) (world : ω) (shutdownRequested : Bool) (wait : Wait) :
    Bool × EventLoop κ × ω :=
  let l := { l with running := true }
  match wait with
  | .failed => (false, l, world)
  | .interrupted | .reported [] =>
    if shutdownRequested then (false, { l with running := false }, world) else (true, l, world)
  | .reported events =>
    let d := l.dispatch call world events
    (true, d.loop, d.world)

/-! ### The callback of a descriptor -/

/-- The callback that an event of a descriptor would reach. -/
def callable (l : EventLoop κ) (fd : ℤ) : Option κ := (l.fdCallbacks fd).join

/-- What the operations last made of the callback of a descriptor, if they touched it. -/
def latest (fd : ℤ) (operations : List (LoopOperation κ)) : Option (Option κ) :=
  operations.foldl (fun last operation => match operation with
    | .addFd fd' _ callback _ => if fd' = fd then some callback else last
    | .removeFd fd' => if fd' = fd then some none else last
    | _ => last) none

theorem callable_eraseCallback {l : EventLoop κ} {fd' : ℤ} (hnull : l.fdCallbacks fd' = some none)
    (fd : ℤ) : (l.eraseCallback fd').callable fd = l.callable fd := by
  show (Function.update l.fdCallbacks fd' none fd).join = (l.fdCallbacks fd).join
  by_cases hfd : fd = fd'
  · rw [hfd, Function.update_self, hnull]
    rfl
  · rw [Function.update_of_ne hfd]

theorem callable_apply (l : EventLoop κ) (fd : ℤ) (operation : LoopOperation κ) :
    (l.apply operation).callable fd = (latest fd [operation]).getD (l.callable fd) := by
  cases operation with
  | addFd fd' events callback accepts =>
    have hcallbacks : (l.addFd fd' events callback accepts).2.fdCallbacks =
        Function.update l.fdCallbacks fd' (some callback) := by
      simp only [addFd]
      split
      · rfl
      · rfl
    show ((l.addFd fd' events callback accepts).2.fdCallbacks fd).join =
      (if fd' = fd then some callback else none).getD (l.callable fd)
    rw [hcallbacks]
    by_cases hfd : fd' = fd
    · rw [if_pos hfd, hfd, Function.update_self]
      rfl
    · rw [if_neg hfd, Function.update_of_ne (Ne.symm hfd)]
      rfl
  | modifyFd fd' events accepts =>
    show ((l.modifyFd fd' events accepts).2.fdCallbacks fd).join = l.callable fd
    simp only [modifyFd]
    split
    · rfl
    · rfl
  | removeFd fd' =>
    show (Function.update l.fdCallbacks fd' none fd).join =
      (if fd' = fd then some none else none).getD (l.callable fd)
    by_cases hfd : fd' = fd
    · rw [if_pos hfd, hfd, Function.update_self]
      rfl
    · rw [if_neg hfd, Function.update_of_ne (Ne.symm hfd)]
      rfl
  | closeFd fd' => rfl
  | stop => rfl

theorem latest_concat (fd : ℤ) (operations : List (LoopOperation κ))
    (operation : LoopOperation κ) :
    latest fd (operations ++ [operation]) =
      (latest fd [operation]).or (latest fd operations) := by
  unfold latest
  rw [List.foldl_append, List.foldl_cons, List.foldl_nil, List.foldl_cons, List.foldl_nil]
  cases operation with
  | addFd fd' events callback accepts =>
    by_cases hfd : fd' = fd
    · simp only [hfd, if_true, Option.some_or]
    · simp only [hfd, if_false, Option.none_or]
  | removeFd fd' =>
    by_cases hfd : fd' = fd
    · simp only [hfd, if_true, Option.some_or]
    · simp only [hfd, if_false, Option.none_or]
  | modifyFd fd' events accepts => rfl
  | closeFd fd' => rfl
  | stop => rfl

theorem latest_append (fd : ℤ) (operations later : List (LoopOperation κ)) :
    latest fd (operations ++ later) = (latest fd later).or (latest fd operations) := by
  induction later using List.reverseRecOn with
  | nil => rw [List.append_nil]; rfl
  | append_singleton later operation ih =>
    rw [← List.append_assoc, latest_concat, ih, latest_concat, Option.or_assoc]

theorem callable_applyAll (l : EventLoop κ) (fd : ℤ) (operations : List (LoopOperation κ)) :
    (l.applyAll operations).callable fd = (latest fd operations).getD (l.callable fd) := by
  induction operations using List.reverseRecOn with
  | nil => rfl
  | append_singleton operations operation ih =>
    rw [applyAll, List.foldl_append, List.foldl_cons, List.foldl_nil, callable_apply, ← applyAll,
      ih, latest_concat]
    cases latest fd [operation] with
    | none => rw [Option.none_or, Option.getD_none]
    | some callback => rw [Option.some_or, Option.getD_some, Option.getD_some]

/-! ### What a batch does -/

/-- While a batch is dispatched, the callbacks are those that the operations so far left. -/
def Follows (l : EventLoop κ) (d : Dispatching κ ω) : Prop :=
  ∀ fd, d.loop.callable fd = (latest fd d.operations).getD (l.callable fd)

/-- The calls for an event whose descriptor has this callback. -/
def callsOf (callback : Option κ) (revents : UInt32) : List (κ × EventType) :=
  callback.elim [] fun callback => (eventTypes revents).map fun type => (callback, type)

theorem Follows.handle (call : Call κ ω) {l : EventLoop κ} {d : Dispatching κ ω}
    (h : Follows l d) (event : ℤ × UInt32) :
    Follows l (handle call d event) ∧
    (handle call d event).calls = d.calls ++
      [callsOf ((latest event.1 d.operations).getD (l.callable event.1)) event.2] := by
  rw [← h event.1]
  unfold EventLoop.handle
  split
  · rename_i hnone
    refine ⟨h, ?_⟩
    rw [EventLoop.callable, hnone]
    rfl
  · rename_i hnull
    refine ⟨fun fd => ?_, ?_⟩
    · rw [← h fd]
      exact callable_eraseCallback hnull fd
    · rw [EventLoop.callable, hnull]
      rfl
  · rename_i callback hcallback
    refine ⟨fun fd => ?_, ?_⟩
    · show ((d.loop.applyAll _).callable fd) = (latest fd (d.operations ++ _)).getD (l.callable fd)
      rw [callable_applyAll, h fd, latest_append]
      cases latest fd (callEach call callback event.1 (eventTypes event.2) d.world).2 with
      | none => rw [Option.none_or, Option.getD_none]
      | some callback => rw [Option.some_or, Option.getD_some, Option.getD_some]
    · rw [EventLoop.callable, hcallback]
      rfl

theorem dispatch_concat (call : Call κ ω) (l : EventLoop κ) (world : ω)
    (events : List (ℤ × UInt32)) (event : ℤ × UInt32) :
    l.dispatch call world (events ++ [event]) = handle call (l.dispatch call world events) event := by
  rw [dispatch, List.foldl_append, List.foldl_cons, List.foldl_nil]
  rfl

theorem follows_dispatch (call : Call κ ω) (l : EventLoop κ) (world : ω)
    (events : List (ℤ × UInt32)) :
    Follows l (l.dispatch call world events) ∧
    (l.dispatch call world events).calls.length = events.length := by
  induction events using List.reverseRecOn with
  | nil => exact ⟨fun fd => rfl, rfl⟩
  | append_singleton events event ih =>
    rw [dispatch_concat]
    obtain ⟨hfollows, hcalls⟩ := ih.1.handle call event
    refine ⟨hfollows, ?_⟩
    rw [hcalls, List.length_append, List.length_append, ih.2]
    rfl

theorem calls_dispatch_prefix (call : Call κ ω) (l : EventLoop κ) (world : ω)
    (before after : List (ℤ × UInt32)) :
    (l.dispatch call world before).calls <+: (l.dispatch call world (before ++ after)).calls := by
  induction after using List.reverseRecOn with
  | nil => rw [List.append_nil]
  | append_singleton after event ih =>
    rw [← List.append_assoc, dispatch_concat, ((follows_dispatch call l world
      (before ++ after)).1.handle call event).2]
    exact ih.trans (List.prefix_append _ _)

/-- The calls for one event of a batch go by what the callbacks before it did. -/
theorem calls_dispatch (call : Call κ ω) (l : EventLoop κ) (world : ω)
    (before after : List (ℤ × UInt32)) (event : ℤ × UInt32) :
    (l.dispatch call world (before ++ event :: after)).calls[before.length]? =
      some (callsOf ((latest event.1 (l.dispatch call world before).operations).getD
        (l.callable event.1)) event.2) := by
  obtain ⟨hfollows, hlength⟩ := follows_dispatch call l world before
  have hprefix := calls_dispatch_prefix call l world (before ++ [event]) after
  rw [dispatch_concat, (hfollows.handle call event).2, List.append_assoc, List.singleton_append]
    at hprefix
  obtain ⟨rest, hrest⟩ := hprefix
  rw [← hrest, ← hlength, List.append_assoc, List.getElem?_append_right (Nat.le_refl _),
    Nat.sub_self]
  rfl

/-! ### Whole runs -/

/-- No null callback is registered. -/
def Registers (operations : List (LoopOperation κ)) : Prop :=
  ∀ fd events accepts, LoopOperation.addFd fd events none accepts ∉ operations

/-- What the kernel watches has a callback. -/
def Covered (l : EventLoop κ) : Prop := ∀ fd, l.interest fd ≠ none → l.callable fd ≠ none

theorem Covered.apply {l : EventLoop κ} (h : Covered l) {operation : LoopOperation κ}
    (hregisters : Registers [operation]) : Covered (l.apply operation) := by
  intro fd hinterest
  rw [callable_apply]
  cases operation with
  | addFd fd' events callback accepts =>
    obtain ⟨callback, rfl⟩ : ∃ c, callback = some c := by
      cases callback with
      | none => exact absurd (List.mem_singleton_self _) (hregisters fd' events accepts)
      | some c => exact ⟨c, rfl⟩
    by_cases hfd : fd' = fd
    · show (if fd' = fd then some (some callback) else none).getD (l.callable fd) ≠ none
      rw [if_pos hfd]
      exact Option.some_ne_none callback
    · show (if fd' = fd then some (some callback) else none).getD (l.callable fd) ≠ none
      rw [if_neg hfd]
      refine h fd ?_
      have hsame : (l.addFd fd' events (some callback) accepts).2.interest fd = l.interest fd := by
        simp only [addFd]
        split
        · exact Function.update_of_ne (Ne.symm hfd) _ _
        · rfl
      rw [← hsame]
      exact hinterest
  | modifyFd fd' events accepts =>
    refine h fd ?_
    intro hnone
    refine hinterest ?_
    show (l.modifyFd fd' events accepts).2.interest fd = none
    simp only [modifyFd]
    split
    · rename_i hboth
      have hne : fd ≠ fd' := by
        rintro rfl
        rw [hnone, Option.isSome_none, Bool.and_false] at hboth
        cases hboth
      exact (Function.update_of_ne hne _ _).trans hnone
    · exact hnone
  | removeFd fd' =>
    have hne : fd' ≠ fd := by
      rintro rfl
      exact hinterest (Function.update_self _ _ _)
    show (if fd' = fd then some none else none).getD (l.callable fd) ≠ none
    rw [if_neg hne]
    refine h fd ?_
    rwa [show (l.apply (.removeFd fd')).interest fd = l.interest fd from
      Function.update_of_ne (Ne.symm hne) _ _] at hinterest
  | closeFd fd' =>
    have hne : fd' ≠ fd := by
      rintro rfl
      exact hinterest (Function.update_self _ _ _)
    refine h fd ?_
    rwa [show (l.apply (.closeFd fd')).interest fd = l.interest fd from
      Function.update_of_ne (Ne.symm hne) _ _] at hinterest
  | stop => exact h fd hinterest

theorem Covered.applyAll {l : EventLoop κ} (h : Covered l) {operations : List (LoopOperation κ)}
    (hregisters : Registers operations) : Covered (l.applyAll operations) := by
  induction operations generalizing l with
  | nil => exact h
  | cons operation operations ih =>
    refine ih (h.apply fun fd events accepts hmem => ?_) fun fd events accepts hmem => ?_
    · exact hregisters fd events accepts (List.mem_cons.mpr (Or.inl (List.mem_singleton.mp hmem)))
    · exact hregisters fd events accepts (List.mem_cons_of_mem _ hmem)

theorem registers_callEach {call : Call κ ω}
    (hcall : ∀ callback fd type world, Registers (call callback fd type world).2) (callback : κ)
    (fd : ℤ) (types : List EventType) (world : ω) :
    Registers (callEach call callback fd types world).2 := by
  induction types generalizing world with
  | nil => exact fun _ _ _ hmem => by cases hmem
  | cons type types ih =>
    intro fd' events accepts hmem
    rcases List.mem_append.mp hmem with hnow | hlater
    · exact hcall callback fd type world fd' events accepts hnow
    · exact ih _ fd' events accepts hlater

theorem Covered.dispatch {call : Call κ ω}
    (hcall : ∀ callback fd type world, Registers (call callback fd type world).2)
    {l : EventLoop κ} (h : Covered l) (world : ω) (events : List (ℤ × UInt32)) :
    Covered (l.dispatch call world events).loop := by
  induction events using List.reverseRecOn with
  | nil => exact h
  | append_singleton events event ih =>
    rw [dispatch_concat]
    unfold EventLoop.handle
    split
    · exact ih
    · rename_i hnull
      intro fd hinterest
      rw [callable_eraseCallback hnull fd]
      exact ih fd hinterest
    · exact ih.applyAll (registers_callEach hcall _ _ _ _)

/-- What happens to the loop between two waits, and one call of `run`. -/
inductive Turn (κ : Type) where
  | meanwhile (operations : List (LoopOperation κ))
  | run (shutdownRequested : Bool) (wait : Wait)

def turn (call : Call κ ω) (s : EventLoop κ × ω) : Turn κ → EventLoop κ × ω
  | .meanwhile operations => (s.1.applyAll operations, s.2)
  | .run shutdownRequested wait => (s.1.run call s.2 shutdownRequested wait).2

def turns (call : Call κ ω) (world : ω) (ts : List (Turn κ)) : EventLoop κ × ω :=
  ts.foldl (turn call) (new, world)

/-- No null callback is registered between the waits. -/
def Turn.Registers : Turn κ → Prop
  | .meanwhile operations => EventLoop.Registers operations
  | .run _ _ => True

theorem covered_turns {call : Call κ ω}
    (hcall : ∀ callback fd type world, Registers (call callback fd type world).2) (world : ω)
    {ts : List (Turn κ)} (hturns : ∀ t ∈ ts, t.Registers) : Covered (turns call world ts).1 := by
  have hrun : ∀ s : EventLoop κ × ω, Covered s.1 → Covered (ts.foldl (turn call) s).1 := by
    induction ts with
    | nil => exact fun s h => h
    | cons t ts ih =>
      intro s h
      refine ih (fun t ht => hturns t (List.mem_cons_of_mem _ ht)) (turn call s t) ?_
      cases t with
      | meanwhile operations =>
        exact h.applyAll (hturns (.meanwhile operations) List.mem_cons_self)
      | run shutdownRequested wait =>
        simp only [turn, EventLoop.run]
        split
        · exact h
        · split
          · exact h
          · exact h
        · split
          · exact h
          · exact h
        · exact Covered.dispatch hcall (l := { s.1 with running := true }) h s.2 _
  exact hrun (new, world) fun fd hinterest => absurd rfl hinterest

/-- In any run in which no null callback is registered, an event that the kernel reports had a
callback when the loop waited. It reaches that one, unless callbacks before it in the batch touched
the descriptor: then it reaches the one registered last, or nobody if the descriptor was removed
last. -/
theorem event_delivered (call : Call κ ω)
    (hcall : ∀ callback fd type world, Registers (call callback fd type world).2) (world : ω)
    (ts : List (Turn κ)) (hturns : ∀ t ∈ ts, t.Registers) (before after : List (ℤ × UInt32))
    (fd : ℤ) (revents : UInt32)
    (hreported : ((turns call world ts).1.interest fd).isSome = true) :
    let s := turns call world ts
    let d := s.1.dispatch call s.2 (before ++ (fd, revents) :: after)
    ∃ callback, s.1.callable fd = some callback ∧
      d.calls[before.length]? = some
        (match latest fd (s.1.dispatch call s.2 before).operations with
        | none => callsOf (some callback) revents
        | some none => []
        | some (some other) => callsOf (some other) revents) := by
  intro s d
  have hcovered := covered_turns hcall world hturns fd (Option.isSome_iff_ne_none.mp hreported)
  obtain ⟨callback, hcallback⟩ := Option.ne_none_iff_exists'.mp hcovered
  refine ⟨callback, hcallback, ?_⟩
  rw [show d.calls[before.length]? = _ from calls_dispatch call s.1 s.2 before after (fd, revents),
    show s.1.callable fd = some callback from hcallback]
  cases latest fd (s.1.dispatch call s.2 before).operations with
  | none => rfl
  | some last =>
    cases last with
    | none => rfl
    | some other => rfl

/-- The callback of 5 removes 7 and registers another one, as an accept does that gets the number
of a connection closed before it; the event of 7 is behind it in the batch. -/
def reuses : Call ℕ Unit := fun _ fd _ world =>
  (world, if fd = 5 then [.removeFd 7, .addFd 7 0x001 (some 2) true] else [])

theorem event_delivered_reused :
    let s := turns reuses ()
      [.meanwhile [.addFd 5 0x001 (some 0) true, .addFd 7 0x001 (some 1) true]]
    (s.1.dispatch reuses s.2 [(5, 0x001), (7, 0x010)]).calls[1]? = some [(2, .hangup)] := by
  have hcall : ∀ callback fd type world, Registers (reuses callback fd type world).2 := by
    intro callback fd type world fd' events accepts hmem
    simp only [reuses] at hmem
    split at hmem
    · simp only [List.mem_cons, reduceCtorEq, LoopOperation.addFd.injEq, false_and, and_false,
        List.not_mem_nil, or_self] at hmem
    · cases hmem
  obtain ⟨callback, -, hcalls⟩ := event_delivered reuses hcall ()
    [.meanwhile [.addFd 5 0x001 (some 0) true, .addFd 7 0x001 (some 1) true]]
    (fun t ht => by
      rw [List.mem_singleton.mp ht]
      intro fd events accepts hmem
      simp only [List.mem_cons, LoopOperation.addFd.injEq, reduceCtorEq, false_and, and_false,
        List.not_mem_nil, or_self] at hmem)
    [(5, 0x001)] [] 7 0x010 rfl
  exact hcalls

end EventLoop
end Aevrix.Server
