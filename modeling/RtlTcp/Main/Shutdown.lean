import RtlTcp.Lib.Transition
import RtlTcp.Lib.ByteIo

/-!
# Shutdown of the multi-client modes

A signal, the end of the source and the two accept loops meet in a channel of capacity one, a
cancel thread and the exit flag. In `run_serve_multi` the cancel thread takes the message, stops
the device read and sets the flag; in `run_proxy_multi` nobody takes it. The source's reader sets
the flag in neither mode. `loss_stops_service_iff` says when the flag is set all the same once
the source has ended.
-/

namespace RtlTcp
set_option autoImplicit false
open ByteIo Transition

/-- `sync_channel(1)`: the message in it, and whether its receiver still exists. -/
structure SyncChannel where
  message : Bool
  receiver : Bool
  deriving DecidableEq, Repr

/-- `try_send(())` with its result ignored: it fails when the channel is full or disconnected. -/
def SyncChannel.trySend (c : SyncChannel) : SyncChannel := if c.receiver then { c with message := true } else c

/-- The points of the cancel thread; when it is done, the receiver is gone. -/
inductive CancelPoint where
  | waiting
  | cancelling
  | storing
  | done
  deriving DecidableEq, Repr

/-- The points of the signal handler, which runs on a thread of its own, once for each signal. -/
inductive HandlerPoint where
  | idle
  | storing
  deriving DecidableEq, Repr

/-- The points of the thread that reads the source: the USB reader of `run_serve_multi`, and the
upstream reader of `run_proxy_multi`, which is `failed` between a read error and its `try_send`. -/
inductive ReaderPoint where
  | starting
  | readAsync (cancelled : Bool)
  | checkExit
  | reading
  | failed
  | ended
  deriving DecidableEq, Repr

/-- The points of an accept loop; `serving` is the master loop's wait for its control thread. -/
inductive AcceptPoint where
  | checkExit
  | accepting
  | serving
  | left
  deriving DecidableEq, Repr

/-- How a read of the upstream socket ends. -/
inductive UpstreamRead where
  | data
  | timeout
  | closed
  | error
  deriving DecidableEq, Repr

/-- The threads and what they share. `cancel` is missing in proxy mode; `handled` says that a
signal handler has run to its end, `admitted` counts the clients of both accept loops. -/
structure MultiMode where
  channel : SyncChannel
  shouldExit : Bool
  handler : HandlerPoint
  handled : Bool
  cancel : Option CancelPoint
  reader : ReaderPoint
  master : AcceptPoint
  slave : AcceptPoint
  admitted : Nat
  deriving DecidableEq, Repr

/-- The next step of one of the threads, with what the outside world answers it. -/
inductive ShutdownAct where
  | signal
  | handlerStores
  | cancelReceives
  | cancelReads (locked : Bool)
  | cancelStores
  | startRead
  | callback (broadcast : Bool)
  | readAsyncReturns
  | readerChecks
  | readerReads (outcome : UpstreamRead)
  | readerNotifies
  | masterChecks
  | masterAccepts (connected : Bool)
  | sessionEnds
  | slaveChecks
  | slaveAccepts (connected : Bool)
  deriving DecidableEq, Repr

namespace MultiMode

/-- `run_serve_multi` with all its threads started. -/
def serve : MultiMode := ⟨⟨false, true⟩, false, .idle, false, some .waiting, .starting, .checkExit, .checkExit, 0⟩

/-- `run_proxy_multi` with all its threads started. -/
def proxy : MultiMode := ⟨⟨false, true⟩, false, .idle, false, none, .checkExit, .checkExit, .checkExit, 0⟩

def step (s : MultiMode) : ShutdownAct → Option MultiMode
  | .signal =>
    if s.handler = .idle then some { s with channel := s.channel.trySend, handler := .storing } else none
  | .handlerStores =>
    if s.handler = .storing then some { s with shouldExit := true, handler := .idle, handled := true } else none
  | .cancelReceives =>
    if s.cancel = some .waiting ∧ s.channel.message then
      some { s with channel := { s.channel with message := false }, cancel := some .cancelling }
    else none
  | .cancelReads locked =>
    -- a poisoned device lock leaves the read alone; a read that is not active is not cancelled
    if s.cancel = some .cancelling then
      some { s with
        cancel := some .storing
        reader := match s.reader with
          | .readAsync cancelled => .readAsync (cancelled || locked)
          | reader => reader }
    else none
  | .cancelStores =>
    if s.cancel = some .storing then
      some { s with shouldExit := true, cancel := some .done, channel := { s.channel with receiver := false } }
    else none
  | .startRead => if s.reader = .starting then some { s with reader := .readAsync false } else none
  | .callback broadcast =>
    match s.reader with
    | .readAsync _ => some { s with channel := if broadcast then s.channel else s.channel.trySend }
    | _ => none
  | .readAsyncReturns =>
    -- because it was cancelled, or because the device is gone
    match s.reader with
    | .readAsync _ => some { s with reader := .ended }
    | _ => none
  | .readerChecks =>
    if s.reader = .checkExit then some { s with reader := if s.shouldExit then .ended else .reading } else none
  | .readerReads outcome =>
    if s.reader = .reading then
      match outcome with
      | .data | .timeout => some { s with reader := .checkExit }
      | .closed => some { s with reader := .ended }
      | .error => some { s with reader := .failed }
    else none
  | .readerNotifies =>
    if s.reader = .failed then some { s with channel := s.channel.trySend, reader := .ended } else none
  | .masterChecks =>
    if s.master = .checkExit then some { s with master := if s.shouldExit then .left else .accepting } else none
  | .masterAccepts connected =>
    if s.master = .accepting then
      some (if connected then { s with master := .serving, admitted := s.admitted + 1 } else { s with master := .checkExit })
    else none
  | .sessionEnds => if s.master = .serving then some { s with master := .checkExit } else none
  | .slaveChecks =>
    if s.slave = .checkExit then some { s with slave := if s.shouldExit then .left else .accepting } else none
  | .slaveAccepts connected =>
    if s.slave = .accepting then
      some { s with slave := .checkExit, admitted := if connected then s.admitted + 1 else s.admitted }
    else none

/-- Once the source's reader has ended, the exit flag is set. -/
def LossStops (s : MultiMode) : Prop := s.reader = .ended → s.shouldExit = true

/-- Whether the step is one in which the source ends: `read_async` returns, or the upstream reader
leaves its loop at the end of the stream or after a read error. -/
def SourceEnds : ShutdownAct → Prop
  | .readAsyncReturns | .readerReads .closed | .readerNotifies => True
  | _ => False

/-- The source ends only after a signal has been handled or the cancel thread has done its work. -/
def StopCameFirst (s : MultiMode) (a : ShutdownAct) : Prop := SourceEnds a → s.handled = true ∨ s.cancel = some .done

/-- What a step does to the flag and to the reader: the flag is set by the handler or the cancel
thread, or the source ends, or both stay as they are, except that a reader that finds the flag
set ends too. -/
inductive Effect (s : MultiMode) (a : ShutdownAct) (t : MultiMode) : Prop where
  | stores (other : ¬SourceEnds a) (flag : t.shouldExit = true) (by' : t.handled = true ∨ t.cancel = some .done)
  | ends (source : SourceEnds a) (reader : t.reader = .ended) (flag : t.shouldExit = s.shouldExit)
      (handled : t.handled = s.handled) (cancel : t.cancel = s.cancel)
  | quiet (other : ¬SourceEnds a) (reader : t.reader = .ended → s.reader = .ended ∨ s.shouldExit = true)
      (flag : t.shouldExit = s.shouldExit) (handled : t.handled = s.handled)
      (cancel : t.cancel = some .done ↔ s.cancel = some .done)

theorem step_effect {s t : MultiMode} {a : ShutdownAct} (taken : s.step a = some t) : Effect s a t := by
  cases a with
  | handlerStores =>
    simp only [step, Option.ite_none_right_eq_some, Option.some.injEq] at taken
    obtain ⟨-, rfl⟩ := taken
    exact .stores id rfl (.inl rfl)
  | cancelStores =>
    simp only [step, Option.ite_none_right_eq_some, Option.some.injEq] at taken
    obtain ⟨-, rfl⟩ := taken
    exact .stores id rfl (.inr rfl)
  | readAsyncReturns =>
    simp only [step] at taken
    split at taken
    · cases taken
      exact .ends trivial rfl rfl rfl rfl
    · cases taken
  | readerNotifies =>
    simp only [step, Option.ite_none_right_eq_some, Option.some.injEq] at taken
    obtain ⟨-, rfl⟩ := taken
    exact .ends trivial rfl rfl rfl rfl
  | readerReads outcome =>
    simp only [step] at taken
    split at taken
    · cases outcome with
      | closed =>
        cases taken
        exact .ends trivial rfl rfl rfl rfl
      | data => cases taken; exact .quiet id (by simp) rfl rfl Iff.rfl
      | timeout => cases taken; exact .quiet id (by simp) rfl rfl Iff.rfl
      | error => cases taken; exact .quiet id (by simp) rfl rfl Iff.rfl
    · cases taken
  | readerChecks =>
    simp only [step, Option.ite_none_right_eq_some, Option.some.injEq] at taken
    obtain ⟨-, rfl⟩ := taken
    refine .quiet id (fun ended => ?_) rfl rfl Iff.rfl
    cases flag : s.shouldExit with
    | true => exact .inr rfl
    | false => simp [flag] at ended
  | cancelReceives =>
    simp only [step, Option.ite_none_right_eq_some, Option.some.injEq] at taken
    obtain ⟨⟨waiting, -⟩, rfl⟩ := taken
    exact .quiet id .inl rfl rfl (by simp [waiting])
  | cancelReads locked =>
    simp only [step, Option.ite_none_right_eq_some, Option.some.injEq] at taken
    obtain ⟨cancelling, rfl⟩ := taken
    refine .quiet id (fun ended => .inl ?_) rfl rfl (by simp [cancelling])
    dsimp only at ended
    split at ended
    · cases ended
    · exact ended
  | callback broadcast =>
    simp only [step] at taken
    split at taken
    · cases taken
      exact .quiet id .inl rfl rfl Iff.rfl
    · cases taken
  | startRead =>
    simp only [step, Option.ite_none_right_eq_some, Option.some.injEq] at taken
    obtain ⟨-, rfl⟩ := taken
    exact .quiet id (by simp) rfl rfl Iff.rfl
  | masterAccepts connected =>
    simp only [step, Option.ite_none_right_eq_some, Option.some.injEq] at taken
    obtain ⟨-, rfl⟩ := taken
    cases connected <;> exact .quiet id .inl rfl rfl Iff.rfl
  | signal | masterChecks | sessionEnds | slaveChecks | slaveAccepts connected =>
    simp only [step, Option.ite_none_right_eq_some, Option.some.injEq] at taken
    obtain ⟨-, rfl⟩ := taken
    exact .quiet id .inl rfl rfl Iff.rfl

/-- Nothing sets the flag but a signal handler and the cancel thread. -/
def FlagSource (s : MultiMode) : Prop := s.shouldExit = true ↔ s.handled = true ∨ s.cancel = some .done

theorem FlagSource.step {s t : MultiMode} {a : ShutdownAct} (inv : s.FlagSource) (taken : s.step a = some t) :
    t.FlagSource := by
  unfold FlagSource at inv ⊢
  cases step_effect taken with
  | stores _ flag by' => exact ⟨fun _ => by', fun _ => flag⟩
  | ends _ _ flag handled cancel => rwa [flag, handled, cancel]
  | quiet _ _ flag handled cancel => rwa [flag, handled, cancel]

/-- A step keeps the flag ahead of the source exactly when the stop came first. -/
theorem lossStops_step {s t : MultiMode} {a : ShutdownAct} (inv : s.FlagSource) (holds : s.LossStops)
    (taken : s.step a = some t) : t.LossStops ↔ s.StopCameFirst a := by
  cases step_effect taken with
  | stores other flag => exact ⟨fun _ source => absurd source other, fun _ _ => flag⟩
  | ends source reader flag =>
    constructor
    · intro stops _
      exact inv.1 (flag ▸ stops reader)
    · intro first _
      rw [flag]
      exact inv.2 (first source)
  | quiet other reader flag =>
    refine ⟨fun _ source => absurd source other, fun _ ended => ?_⟩
    rw [flag]
    exact (reader ended).elim holds id

/-- **Loss of the source and the exit flag.** In both modes and for every interleaving: in every
state of a run in which the source's reader has ended the exit flag is set, if and only if the
source only ever ended after a signal had been handled or the cancel thread had finished. -/
theorem loss_stops_service_iff (acts : List ShutdownAct) :
    (Always step LossStops serve acts ↔ Along step StopCameFirst serve acts) ∧
      (Always step LossStops proxy acts ↔ Along step StopCameFirst proxy acts) := by
  have exact_run : ∀ {s : MultiMode}, s.FlagSource → s.LossStops →
      (Always step LossStops s acts ↔ Along step StopCameFirst s acts) :=
    always_iff_along (fun _ _ _ => FlagSource.step) (fun _ _ _ => lossStops_step)
  exact ⟨exact_run (by simp [FlagSource, serve]) (by simp [LossStops, serve]),
    exact_run (by simp [FlagSource, proxy]) (by simp [LossStops, proxy])⟩

/-- A run that ends with the source lost and the flag unset. -/
theorem not_always_of_lost {s : MultiMode} {acts : List ShutdownAct}
    (lost : (run step s acts).map (fun t => (t.reader, t.shouldExit)) = some (.ended, false)) :
    ¬Always step LossStops s acts := by
  intro always
  obtain ⟨t, reached, data⟩ := Option.map_eq_some_iff.1 lost
  obtain ⟨reader, flag⟩ := Prod.mk.inj data
  rw [always.last reached reader] at flag
  cases flag

/-- The device disappears, and a slave is admitted afterwards. -/
def deviceLost : List ShutdownAct := [.startRead, .readAsyncReturns, .slaveChecks, .slaveAccepts true]

/-- The upstream closes the connection, and a master is admitted afterwards. -/
def upstreamClosed : List ShutdownAct := [.readerChecks, .readerReads .closed, .masterChecks, .masterAccepts true]

/-- The upstream connection breaks; the message that reports it stays in the channel. -/
def upstreamBroken : List ShutdownAct :=
  [.readerChecks, .readerReads .error, .readerNotifies, .slaveChecks, .slaveAccepts true]

/-- In each case the source is gone, the flag is unset and a client has been let in. -/
theorem lost_source_keeps_serving :
    (run step serve deviceLost).map (fun s => (s.reader, s.shouldExit, s.admitted)) = some (.ended, false, 1) ∧
      (run step proxy upstreamClosed).map (fun s => (s.reader, s.shouldExit, s.admitted)) = some (.ended, false, 1) ∧
      (run step proxy upstreamBroken).map (fun s => (s.reader, s.shouldExit, s.channel.message, s.admitted)) =
        some (.ended, false, true, 1) ∧
      ¬Always step LossStops serve deviceLost ∧ ¬Always step LossStops proxy upstreamClosed ∧
      ¬Always step LossStops proxy upstreamBroken :=
  ⟨by decide, by decide, by decide, not_always_of_lost (by decide), not_always_of_lost (by decide),
    not_always_of_lost (by decide)⟩

end MultiMode

end RtlTcp
