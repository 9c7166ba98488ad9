import RtlTcp.Main.Shutdown

/-!
# Stop requests and the device read

Both serving modes end the device read in the same way. A signal handler or the callback of the
read puts a message into a channel of capacity one; a cancel thread takes one message, calls
`cancel_async_read` once and ends. A call that comes before the read has started has no effect, and
there is no second one. `StopRequest` is that protocol, and the two modes are mapped to it;
`stop_request_exact` says which calls lose the request.
-/

namespace RtlTcp
set_option autoImplicit false
open ByteIo Transition

/-! ## The protocol -/

/-- The device read: it may still be started, it is active, or it will not be active any more. -/
inductive DeviceRead where
  | ahead
  | active (cancelled : Bool)
  | past
  deriving DecidableEq, Repr

/-- `cancel_async_read`, with or without the lock of the device. -/
def DeviceRead.cancel (locked : Bool) : DeviceRead → DeviceRead
  | .active cancelled => .active (cancelled || locked)
  | other => other

/-- What the threads share: the channel, the cancel thread and the read, and whether a stop has been
requested. -/
structure StopRequest where
  channel : SyncChannel
  requested : Bool
  cancel : CancelPoint
  read : DeviceRead
  deriving DecidableEq, Repr

namespace StopRequest

inductive Event where
  | nothing
  | request
  | notify
  | receive
  | cancel (locked : Bool)
  | finish
  | start
  | stop
  deriving DecidableEq, Repr

/-- `request` and `notify` are the two reasons for a `try_send`: a stop is requested, or there is
one already or nothing left to stop. -/
inductive Step : StopRequest → Event → StopRequest → Prop where
  | nothing {v : StopRequest} : Step v .nothing v
  | request {v : StopRequest} : Step v .request { v with channel := v.channel.trySend, requested := true }
  | notify {v : StopRequest} (due : v.requested = true ∨ v.read = .past) : Step v .notify { v with channel := v.channel.trySend }
  | receive {v : StopRequest} (waiting : v.cancel = .waiting) (sent : v.channel.message = true) :
    Step v .receive { v with channel := { v.channel with message := false }, cancel := .cancelling }
  | cancel {v : StopRequest} (locked : Bool) (cancelling : v.cancel = .cancelling) :
    Step v (.cancel locked) { v with cancel := .storing, read := v.read.cancel locked }
  | finish {v : StopRequest} (storing : v.cancel = .storing) :
    Step v .finish { v with channel := { v.channel with receiver := false }, cancel := .done }
  | start {v : StopRequest} (ahead : v.read = .ahead) : Step v .start { v with read := .active false }
  | stop {v : StopRequest} : Step v .stop { v with read := .past }

/-- A stop has been requested, the read goes on, and nobody is left to cancel it. -/
def Lost (v : StopRequest) : Prop := v.requested = true ∧ v.read = .active false ∧ v.cancel = .done

/-- The call of `cancel_async_read` has an effect, or is not needed. -/
def InTime (v : StopRequest) : Event → Prop
  | .cancel locked => v.read ≠ .ahead ∧ (v.read = .active false → locked = true)
  | _ => True

/-- After its call, the cancel thread leaves no read that goes on. -/
def Stopped (v : StopRequest) : Prop :=
  v.cancel = .storing ∨ v.cancel = .done → v.read ≠ .ahead ∧ v.read ≠ .active false

theorem Stopped.step {v v' : StopRequest} {e : Event} (inv : v.Stopped) (inTime : v.InTime e) (taken : Step v e v') :
    v'.Stopped := by
  cases taken with
  | nothing | request | notify => exact inv
  | receive => exact fun called => by simp at called
  | cancel locked cancelling =>
    obtain ⟨begun, effect⟩ := inTime
    intro _
    cases read : v.read with
    | ahead => exact absurd read begun
    | past => simp [DeviceRead.cancel]
    | active cancelled =>
      cases cancelled with
      | false => simp [DeviceRead.cancel, effect read]
      | true => simp [DeviceRead.cancel]
  | finish storing => exact fun _ => inv (.inl storing)
  | start ahead => exact fun called => absurd ahead (inv called).1
  | stop => simp [Stopped]

theorem Stopped.not_lost {v : StopRequest} (inv : v.Stopped) : ¬v.Lost :=
  fun lost => (inv (.inr lost.2.2)).2 lost.2.1

/-- A stop has been requested, or there is nothing left to stop. -/
def Due (v : StopRequest) : Prop := v.requested = true ∨ v.read = .past

theorem Due.step {v v' : StopRequest} {e : Event} (due : v.Due) (taken : Step v e v') : v'.Due := by
  cases taken with
  | nothing | notify | receive | finish => exact due
  | request => exact .inl rfl
  | cancel locked cancelling =>
    refine due.imp_right fun past => ?_
    rw [past]
    rfl
  | start ahead =>
    refine .inl (due.resolve_right fun past => ?_)
    rw [past] at ahead
    cases ahead
  | stop => exact .inr rfl

/-- The cancel thread is woken when a stop is due. -/
def Asked (v : StopRequest) : Prop := v.channel.message = true ∨ v.cancel ≠ .waiting → v.Due

theorem Asked.step {v v' : StopRequest} {e : Event} (inv : v.Asked) (taken : Step v e v') : v'.Asked := by
  cases taken with
  | request => exact fun _ => .inl rfl
  | notify due => exact fun _ => due
  | stop => exact fun _ => .inr rfl
  | nothing => exact inv
  | receive waiting sent => exact fun _ => inv (.inl sent)
  | cancel locked cancelling =>
    have due : v.Due := inv (.inr (by simp [cancelling]))
    exact fun _ => due.step (.cancel locked cancelling)
  | finish storing => exact fun _ => inv (.inr (by simp [storing]))
  | start ahead => exact fun woken => (inv woken).step (.start ahead)

end StopRequest

/-- `ok` decides about `lost` in a run: if all its steps meet it, no state of it is lost, and a step
after it that does not meet it can be followed by steps to a lost state. -/
def Decides {σ α : Type} (step : σ → α → Option σ) (start : σ) (lost : σ → Prop) (ok : σ → α → Prop)
    (acts : List α) : Prop :=
  (Along step ok start acts → Always step (fun s => ¬lost s) start acts) ∧
    ∀ s a s', run step start acts = some s → step s a = some s' → ¬ok s a → ∃ more t, run step s' more = some t ∧ lost t

/-- A system whose steps are steps of the protocol loses no request whose cancellation is in time. -/
theorem decides_of_view {σ α : Type} {step : σ → α → Option σ} {start : σ} {lost : σ → Prop} {ok : σ → α → Prop}
    {I : σ → Prop} (view : σ → StopRequest) (event : σ → α → StopRequest.Event) (begun : I start)
    (still : (view start).cancel = .waiting) (keep : ∀ s a s', I s → step s a = some s' → I s')
    (simulates : ∀ s a s', I s → step s a = some s' → StopRequest.Step (view s) (event s a) (view s'))
    (inTime : ∀ s a, ok s a → (view s).InTime (event s a)) (seen : ∀ s, lost s → (view s).Lost)
    (after : ∀ s a s', I s → step s a = some s' → ¬ok s a → ∃ more t, run step s' more = some t ∧ lost t)
    (acts : List α) : Decides step start lost ok acts := by
  refine ⟨fun along => ?_, fun s a s' reached taken late => ?_⟩
  · have kept : Always step (fun s => I s ∧ (view s).Stopped) start acts := by
      refine always_of_along (fun s a s' inv allowed taken => ?_) ⟨begun, fun called => ?_⟩ along
      · exact ⟨keep s a s' inv.1 taken, inv.2.step (inTime s a allowed) (simulates s a s' inv.1 taken)⟩
      · simp [still] at called
    exact kept.imp fun s inv loss => inv.2.not_lost (seen s loss)
  · exact after s a s' (run_invariant keep begun reached) taken late

/-! ## `run_serve_single` -/

/-- The points of the signal handler of `run_serve_single`: it stores the flag if its `try_send`
has failed, and then shuts the stream down. -/
inductive SingleHandler where
  | idle
  | storing
  | shuttingDown
  deriving DecidableEq, Repr

/-- The points of `run_serve_single` from its magic packet on. -/
inductive SinglePoint where
  | sendingMagic
  | starting
  | readAsync (cancelled : Bool)
  | notifying
  | joining
  | returned
  deriving DecidableEq, Repr

/-- The main thread, the signal handler and the cancel thread of `run_serve_single`. `requested`
says that a signal was handled or a write of the callback has failed. -/
structure SingleMode where
  channel : SyncChannel
  shouldExit : Bool
  handler : SingleHandler
  streamShut : Bool
  cancel : CancelPoint
  main : SinglePoint
  requested : Bool
  deriving DecidableEq, Repr

/-- The next step of a thread, with what the outside world answers it. -/
inductive SingleAct where
  | signal
  | handlerStores
  | handlerShuts (done : Bool)
  | cancelReceives
  | cancelReads (locked : Bool)
  | cancelStores
  | magic (sent : Bool)
  | startRead
  | callback (written : Bool)
  | readAsyncReturns
  | mainNotifies
  deriving DecidableEq, Repr

namespace SingleMode

/-- With all threads started. -/
def serve : SingleMode := ⟨⟨false, true⟩, false, .idle, false, .waiting, .sendingMagic, false⟩

def step (s : SingleMode) : SingleAct → Option SingleMode
  | .signal =>
    if s.handler = .idle then
      some { s with
        channel := s.channel.trySend
        handler := if s.channel.receiver && !s.channel.message then .shuttingDown else .storing
        requested := true }
    else none
  | .handlerStores =>
    if s.handler = .storing then some { s with shouldExit := true, handler := .shuttingDown } else none
  | .handlerShuts done =>
    if s.handler = .shuttingDown then some { s with handler := .idle, streamShut := s.streamShut || done } else none
  | .cancelReceives =>
    if s.cancel = .waiting ∧ s.channel.message then
      some { s with channel := { s.channel with message := false }, cancel := .cancelling }
    else none
  | .cancelReads locked =>
    -- a poisoned device lock leaves the read alone; a read that is not active is not cancelled
    if s.cancel = .cancelling then
      some { s with
        cancel := .storing
        main := match s.main with
          | .readAsync cancelled => .readAsync (cancelled || locked)
          | main => main }
    else none
  | .cancelStores =>
    if s.cancel = .storing then
      some { s with shouldExit := true, cancel := .done, channel := { s.channel with receiver := false } }
    else none
  | .magic sent =>
    -- a stream that was shut down takes no packet; an error is returned
    if s.main = .sendingMagic ∧ (sent = true → s.streamShut = false) then
      some { s with main := if sent then .starting else .returned }
    else none
  | .startRead => if s.main = .starting then some { s with main := .readAsync false } else none
  | .callback written =>
    match s.main with
    | .readAsync _ =>
      some (if written then s else { s with channel := s.channel.trySend, requested := true })
    | _ => none
  | .readAsyncReturns =>
    -- because it was cancelled, or because the device is gone
    match s.main with
    | .readAsync _ => some { s with main := .notifying }
    | _ => none
  | .mainNotifies =>
    if s.main = .notifying then some { s with channel := s.channel.trySend, main := .joining } else none

/-- A stop has been requested, `read_async` is active and uncancelled, and the cancel thread has ended. -/
def StopLost (s : SingleMode) : Prop := s.requested = true ∧ s.main = .readAsync false ∧ s.cancel = .done

/-- When the cancel thread makes its call, `read_async` has been started and the lock of the device
is not poisoned, or the read was stopped already or will not be started. -/
def CancelsInTime (s : SingleMode) : SingleAct → Prop
  | .cancelReads locked =>
    match s.main with
    | .sendingMagic => s.streamShut = true
    | .starting => False
    | .readAsync false => locked = true
    | _ => True
  | _ => True

/-- The device read. Without its magic packet it is not started. -/
def deviceRead (s : SingleMode) : DeviceRead :=
  match s.main with
  | .sendingMagic => if s.streamShut then .past else .ahead
  | .starting => .ahead
  | .readAsync cancelled => .active cancelled
  | _ => .past

def view (s : SingleMode) : StopRequest := ⟨s.channel, s.requested, s.cancel, s.deviceRead⟩

/-- What an act means for the request. -/
def event (s : SingleMode) : SingleAct → StopRequest.Event
  | .signal => .request
  | .handlerStores => .nothing
  | .handlerShuts done => if s.main = .sendingMagic ∧ done = true then .stop else .nothing
  | .cancelReceives => .receive
  | .cancelReads locked => .cancel locked
  | .cancelStores => .finish
  | .magic sent => if sent then .nothing else .stop
  | .startRead => .start
  | .callback written => if written then .nothing else .request
  | .readAsyncReturns => .stop
  | .mainNotifies => .notify

theorem view_of {s : SingleMode} {read : DeviceRead} (known : s.deviceRead = read) :
    s.view = ⟨s.channel, s.requested, s.cancel, read⟩ := by
  rw [view, known]

/-- A stream that is shut down before the magic packet keeps the read from being started. -/
theorem shut_view (s : SingleMode) (done : Bool) :
    StopRequest.Step s.view (s.event (.handlerShuts done))
      (view { s with handler := .idle, streamShut := s.streamShut || done }) := by
  by_cases shut : s.main = .sendingMagic ∧ done = true
  · obtain ⟨sending, rfl⟩ := shut
    have past : deviceRead { s with handler := .idle, streamShut := s.streamShut || true } = .past := by
      simp [deviceRead, sending]
    rw [event, if_pos ⟨sending, rfl⟩, view_of past]
    exact .stop
  · have same : deviceRead { s with handler := .idle, streamShut := s.streamShut || done } = s.deviceRead := by
      unfold deviceRead
      cases sending : s.main with
      | sendingMagic =>
        have undone : done = false := by simpa [sending] using shut
        simp [undone]
      | _ => rfl
    rw [event, if_neg shut, view_of same]
    exact .nothing

/-- **The single mode follows the protocol.** -/
theorem step_view {s s' : SingleMode} {a : SingleAct} (taken : s.step a = some s') :
    StopRequest.Step s.view (s.event a) s'.view := by
  cases a with
  | signal =>
    simp only [step, Option.ite_none_right_eq_some, Option.some.injEq] at taken
    obtain ⟨-, rfl⟩ := taken
    exact .request
  | handlerStores =>
    simp only [step, Option.ite_none_right_eq_some, Option.some.injEq] at taken
    obtain ⟨-, rfl⟩ := taken
    exact .nothing
  | handlerShuts done =>
    simp only [step, Option.ite_none_right_eq_some, Option.some.injEq] at taken
    obtain ⟨-, rfl⟩ := taken
    exact shut_view s done
  | cancelReceives =>
    simp only [step, Option.ite_none_right_eq_some, Option.some.injEq] at taken
    obtain ⟨⟨waiting, sent⟩, rfl⟩ := taken
    exact .receive waiting sent
  | cancelReads locked =>
    simp only [step, Option.ite_none_right_eq_some, Option.some.injEq] at taken
    obtain ⟨cancelling, rfl⟩ := taken
    have called : StopRequest.Step s.view (.cancel locked) { s.view with
      cancel := .storing, read := s.deviceRead.cancel locked } := .cancel locked cancelling
    simp only [view, deviceRead] at called ⊢
    revert called
    cases s.main with
    | sendingMagic => cases s.streamShut <;> exact id
    | _ => exact id
  | cancelStores =>
    simp only [step, Option.ite_none_right_eq_some, Option.some.injEq] at taken
    obtain ⟨storing, rfl⟩ := taken
    exact .finish storing
  | magic sent =>
    simp only [step, Option.ite_none_right_eq_some, Option.some.injEq] at taken
    obtain ⟨⟨sending, room⟩, rfl⟩ := taken
    cases sent with
    | false => exact .stop
    | true =>
      have same : s.deviceRead = .ahead := by simp [deviceRead, sending, room rfl]
      rw [view_of same]
      exact .nothing
  | startRead =>
    simp only [step, Option.ite_none_right_eq_some, Option.some.injEq] at taken
    obtain ⟨starting, rfl⟩ := taken
    refine .start ?_
    simp only [view, deviceRead, starting]
  | callback written =>
    simp only [step] at taken
    split at taken
    · cases written with
      | true =>
        cases taken
        exact .nothing
      | false =>
        cases taken
        exact .request
    · cases taken
  | readAsyncReturns =>
    simp only [step] at taken
    split at taken
    · cases taken
      exact .stop
    · cases taken
  | mainNotifies =>
    simp only [step, Option.ite_none_right_eq_some, Option.some.injEq] at taken
    obtain ⟨notifying, rfl⟩ := taken
    have past : s.deviceRead = .past := by simp only [deviceRead, notifying]
    have told : StopRequest.Step s.view .notify { s.view with channel := s.channel.trySend } := .notify (.inr past)
    rw [view_of past] at told ⊢
    exact told

theorem inTime_iff (s : SingleMode) (a : SingleAct) : s.view.InTime (s.event a) ↔ s.CancelsInTime a := by
  cases a with
  | cancelReads locked =>
    simp only [event, StopRequest.InTime, CancelsInTime, view, deviceRead]
    cases s.main with
    | sendingMagic => cases s.streamShut <;> simp
    | readAsync cancelled => cases cancelled <;> simp
    | _ => simp
  | handlerShuts done =>
    simp only [event, CancelsInTime, iff_true]
    split <;> trivial
  | magic sent => cases sent <;> exact Iff.rfl
  | callback written => cases written <;> exact Iff.rfl
  | _ => exact Iff.rfl

theorem stopLost_iff (s : SingleMode) : s.view.Lost ↔ s.StopLost := by
  unfold StopRequest.Lost StopLost view deviceRead
  cases s.main with
  | sendingMagic => cases s.streamShut <;> simp
  | _ => simp

/-- A call that came too early is followed by the start of the read and the end of the cancel thread. -/
theorem lost_after {s s' : SingleMode} {a : SingleAct} (asked : s.view.Asked) (taken : s.step a = some s')
    (late : ¬s.CancelsInTime a) : ∃ more t, run step s' more = some t ∧ t.StopLost := by
  cases a with
  | cancelReads locked =>
    simp only [step, Option.ite_none_right_eq_some, Option.some.injEq] at taken
    obtain ⟨cancelling, rfl⟩ := taken
    have called : s.view.cancel ≠ .waiting := by simp [view, cancelling]
    have requested : s.deviceRead ≠ .past → s.requested = true := (asked (.inr called)).resolve_right
    simp only [CancelsInTime] at late
    cases main : s.main with
    | sendingMagic =>
      have whole : s.streamShut = false := by simpa [main] using late
      refine ⟨[.magic true, .startRead, .cancelStores], { s with
        main := .readAsync false, shouldExit := true, cancel := .done, channel := { s.channel with receiver := false } },
        by simp [run, step, whole], requested (by simp [deviceRead, main, whole]), rfl, rfl⟩
    | starting =>
      refine ⟨[.startRead, .cancelStores], { s with
        main := .readAsync false, shouldExit := true, cancel := .done, channel := { s.channel with receiver := false } },
        by simp [run, step], requested (by simp [deviceRead, main]), rfl, rfl⟩
    | readAsync cancelled =>
      cases cancelled with
      | true => simp [main] at late
      | false =>
        have poisoned : locked = false := by simpa [main] using late
        refine ⟨[.cancelStores], { s with
          main := .readAsync false, shouldExit := true, cancel := .done, channel := { s.channel with receiver := false } },
          by simp [run, step, poisoned], requested (by simp [deviceRead, main]), rfl, rfl⟩
    | _ => simp [main] at late
  | _ => exact absurd trivial late

theorem decides (acts : List SingleAct) : Decides step serve StopLost CancelsInTime acts := by
  refine decides_of_view (I := fun s => s.view.Asked) view event (by simp [StopRequest.Asked, view, serve]) rfl
    ?_ ?_ ?_ ?_ ?_ acts
  · exact fun s a s' asked taken => asked.step (step_view taken)
  · exact fun s a s' _ taken => step_view taken
  · exact fun s a => (inTime_iff s a).2
  · exact fun s => (stopLost_iff s).2
  · exact fun s a s' asked taken late => lost_after asked taken late

end SingleMode

/-! ## `run_serve_multi` -/

/-- `run_serve_multi` with the end of its master loop, which sends a message too; `requested` says
that a signal was handled or a send of the callback has failed. -/
structure ServeStop where
  mode : MultiMode
  notified : Bool
  requested : Bool
  deriving DecidableEq, Repr

inductive ServeStopAct where
  | thread (a : ShutdownAct)
  | masterNotifies
  deriving DecidableEq, Repr

namespace ServeStop

def serve : ServeStop := ⟨.serve, false, false⟩

/-- The step requests a stop. -/
def requests : ShutdownAct → Bool
  | .signal => true
  | .callback broadcast => !broadcast
  | _ => false

def step (s : ServeStop) : ServeStopAct → Option ServeStop
  | .thread a => (s.mode.step a).map fun mode => { s with mode := mode, requested := s.requested || requests a }
  | .masterNotifies =>
    if s.mode.master = .left ∧ s.notified = false then
      some { s with mode := { s.mode with channel := s.mode.channel.trySend }, notified := true }
    else none

/-- A stop has been requested, `read_async` is active and uncancelled, and the cancel thread has ended. -/
def StopLost (s : ServeStop) : Prop :=
  s.requested = true ∧ s.mode.reader = .readAsync false ∧ s.mode.cancel = some .done

/-- When the cancel thread makes its call, `read_async` has been started and the lock of the device
is not poisoned, or the read was stopped already. -/
def CancelsInTime (s : ServeStop) : ServeStopAct → Prop
  | .thread (.cancelReads locked) =>
    match s.mode.reader with
    | .starting => False
    | .readAsync false => locked = true
    | _ => True
  | _ => True

def deviceRead : ReaderPoint → DeviceRead
  | .starting => .ahead
  | .readAsync cancelled => .active cancelled
  | _ => .past

def view (s : ServeStop) : StopRequest :=
  ⟨s.mode.channel, s.requested, s.mode.cancel.getD .done, deviceRead s.mode.reader⟩

/-- What an act means for the request. -/
def event : ServeStopAct → StopRequest.Event
  | .masterNotifies => .notify
  | .thread a =>
    match a with
    | .signal => .request
    | .cancelReceives => .receive
    | .cancelReads locked => .cancel locked
    | .cancelStores => .finish
    | .startRead => .start
    | .callback broadcast => if broadcast then .nothing else .request
    | .readAsyncReturns => .stop
    | .readerNotifies => .notify
    | _ => .nothing

/-- Where the exit flag, the point of the handler and the end of the master loop come from. -/
theorem origins {s t : MultiMode} {a : ShutdownAct} (taken : s.step a = some t) :
    (t.shouldExit = true → s.shouldExit = true ∨ s.handler = .storing ∨ s.cancel = some .storing) ∧
      (t.handler = .storing → s.handler = .storing ∨ requests a = true) ∧
      (t.master = .left → s.master = .left ∨ s.shouldExit = true) := by
  cases a <;> simp only [MultiMode.step] at taken <;> grind [requests]

/-- Whoever ends the service does it when a stop is due. -/
structure Awake (s : ServeStop) : Prop where
  asked : s.view.Asked
  handler : s.mode.handler = .storing → s.requested = true
  flag : s.mode.shouldExit = true → s.view.Due
  left : s.mode.master = .left → s.view.Due

/-- **The threads of the multi mode follow the protocol.** -/
theorem thread_view {s : ServeStop} {mode : MultiMode} {a : ShutdownAct} (taken : s.mode.step a = some mode) :
    StopRequest.Step s.view (event (.thread a)) (view { s with mode := mode, requested := s.requested || requests a }) := by
  have requested : (s.requested || true) = true := Bool.or_true _
  cases a with
  | signal =>
    simp only [MultiMode.step, Option.ite_none_right_eq_some, Option.some.injEq] at taken
    obtain ⟨-, rfl⟩ := taken
    simp only [requests, requested]
    exact .request
  | cancelReceives =>
    simp only [MultiMode.step, Option.ite_none_right_eq_some, Option.some.injEq] at taken
    obtain ⟨⟨waiting, sent⟩, rfl⟩ := taken
    simp only [requests, Bool.or_false]
    exact .receive (congrArg (·.getD .done) waiting) sent
  | cancelReads locked =>
    simp only [MultiMode.step, Option.ite_none_right_eq_some, Option.some.injEq] at taken
    obtain ⟨cancelling, rfl⟩ := taken
    have called : StopRequest.Step s.view (.cancel locked) { s.view with
      cancel := .storing, read := (deviceRead s.mode.reader).cancel locked } :=
        .cancel locked (congrArg (·.getD .done) cancelling)
    simp only [requests, Bool.or_false, view] at called ⊢
    revert called
    cases s.mode.reader <;> exact id
  | cancelStores =>
    simp only [MultiMode.step, Option.ite_none_right_eq_some, Option.some.injEq] at taken
    obtain ⟨storing, rfl⟩ := taken
    simp only [requests, Bool.or_false]
    exact .finish (congrArg (·.getD .done) storing)
  | startRead =>
    simp only [MultiMode.step, Option.ite_none_right_eq_some, Option.some.injEq] at taken
    obtain ⟨starting, rfl⟩ := taken
    simp only [requests, Bool.or_false]
    exact .start (congrArg deviceRead starting)
  | callback broadcast =>
    simp only [MultiMode.step] at taken
    split at taken
    · cases taken
      cases broadcast with
      | true =>
        simp only [requests, Bool.not_true, Bool.or_false]
        exact .nothing
      | false =>
        simp only [requests, Bool.not_false, requested]
        exact .request
    · cases taken
  | readAsyncReturns =>
    simp only [MultiMode.step] at taken
    split at taken
    · cases taken
      simp only [requests, Bool.or_false]
      exact .stop
    · cases taken
  | readerNotifies =>
    simp only [MultiMode.step, Option.ite_none_right_eq_some, Option.some.injEq] at taken
    obtain ⟨failed, rfl⟩ := taken
    have past : deviceRead s.mode.reader = .past := congrArg deviceRead failed
    have told : StopRequest.Step s.view .notify { s.view with channel := s.mode.channel.trySend } := .notify (.inr past)
    have before : s.view = ⟨s.mode.channel, s.requested, s.mode.cancel.getD .done, .past⟩ := by rw [view, past]
    rw [before] at told ⊢
    simp only [requests, Bool.or_false]
    exact told
  | _ =>
    have same : mode.channel = s.mode.channel ∧ mode.cancel = s.mode.cancel ∧
        deviceRead mode.reader = deviceRead s.mode.reader := by
      simp only [MultiMode.step] at taken
      grind [deviceRead]
    obtain ⟨channel, cancel, reader⟩ := same
    simp only [requests, Bool.or_false, view, channel, cancel, reader]
    exact .nothing

theorem Awake.step_view {s s' : ServeStop} {a : ServeStopAct} (awake : s.Awake) (taken : s.step a = some s') :
    StopRequest.Step s.view (event a) s'.view := by
  cases a with
  | thread a =>
    obtain ⟨mode, moved, rfl⟩ := Option.map_eq_some_iff.1 taken
    exact thread_view moved
  | masterNotifies =>
    simp only [step, Option.ite_none_right_eq_some, Option.some.injEq] at taken
    obtain ⟨⟨left, -⟩, rfl⟩ := taken
    exact .notify (awake.left left)

theorem Awake.step {s s' : ServeStop} {a : ServeStopAct} (awake : s.Awake) (taken : s.step a = some s') : s'.Awake := by
  have moved := awake.step_view taken
  have kept : s.view.Due → s'.view.Due := fun due => due.step moved
  cases a with
  | masterNotifies =>
    simp only [ServeStop.step, Option.ite_none_right_eq_some, Option.some.injEq] at taken
    obtain ⟨-, rfl⟩ := taken
    exact ⟨awake.asked.step moved, awake.handler, fun flag => kept (awake.flag flag), fun left => kept (awake.left left)⟩
  | thread a =>
    obtain ⟨mode, thread, rfl⟩ := Option.map_eq_some_iff.1 taken
    obtain ⟨flag, handler, left⟩ := origins thread
    refine ⟨awake.asked.step moved, fun storing => ?_, fun set => kept ?_, fun gone => kept ?_⟩
    · rcases handler storing with before | now
      · exact Bool.or_eq_true_iff.2 (.inl (awake.handler before))
      · exact Bool.or_eq_true_iff.2 (.inr now)
    · rcases flag set with before | handling | storing
      · exact awake.flag before
      · exact .inl (awake.handler handling)
      · exact awake.asked (.inr (by simp [view, storing]))
    · rcases left gone with before | set
      · exact awake.left before
      · exact awake.flag set

theorem awake_serve : serve.Awake := by
  constructor <;> simp [StopRequest.Asked, view, serve, MultiMode.serve]

theorem inTime_iff (s : ServeStop) (a : ServeStopAct) : s.view.InTime (event a) ↔ s.CancelsInTime a := by
  cases a with
  | masterNotifies => exact Iff.rfl
  | thread a =>
    cases a with
    | cancelReads locked =>
      simp only [event, StopRequest.InTime, CancelsInTime, view]
      cases s.mode.reader with
      | readAsync cancelled => cases cancelled <;> simp [deviceRead]
      | _ => simp [deviceRead]
    | callback broadcast => cases broadcast <;> exact Iff.rfl
    | _ => exact Iff.rfl

/-- A call that came too early is followed by the start of the read and the end of the cancel thread. -/
theorem lost_after {s s' : ServeStop} {a : ServeStopAct} (awake : s.Awake) (taken : s.step a = some s')
    (late : ¬s.CancelsInTime a) : ∃ more t, run step s' more = some t ∧ t.StopLost := by
  cases a with
  | masterNotifies => exact absurd trivial late
  | thread a =>
    obtain ⟨mode, thread, rfl⟩ := Option.map_eq_some_iff.1 taken
    cases a with
    | cancelReads locked =>
      simp only [MultiMode.step, Option.ite_none_right_eq_some, Option.some.injEq] at thread
      obtain ⟨cancelling, rfl⟩ := thread
      have called : s.view.cancel ≠ .waiting := by simp [view, cancelling]
      have requested : deviceRead s.mode.reader ≠ .past → s.requested = true := (awake.asked (.inr called)).resolve_right
      simp only [CancelsInTime] at late
      let done : MultiMode := { s.mode with
        reader := .readAsync false, shouldExit := true, cancel := some .done
        channel := { s.mode.channel with receiver := false } }
      cases reader : s.mode.reader with
      | starting =>
        exact ⟨[.thread .startRead, .thread .cancelStores], { s with mode := done },
          by simp [run, step, MultiMode.step, requests, done], requested (by simp [reader, deviceRead]), rfl, rfl⟩
      | readAsync cancelled =>
        cases cancelled with
        | true => simp [reader] at late
        | false =>
          have poisoned : locked = false := by simpa [reader] using late
          exact ⟨[.thread .cancelStores], { s with mode := done },
            by simp [run, step, MultiMode.step, requests, done, poisoned], requested (by simp [reader, deviceRead]), rfl, rfl⟩
      | _ => simp [reader] at late
    | _ => exact absurd trivial late

theorem view_lost {s : ServeStop} (lost : s.StopLost) : s.view.Lost := by
  obtain ⟨requested, reader, cancel⟩ := lost
  exact ⟨requested, congrArg deviceRead reader, congrArg (·.getD .done) cancel⟩

theorem decides (acts : List ServeStopAct) : Decides step serve StopLost CancelsInTime acts := by
  refine decides_of_view (I := Awake) view (fun _ => event) awake_serve rfl ?_ ?_ ?_ ?_ ?_ acts
  · exact fun s a s' awake taken => awake.step taken
  · exact fun s a s' awake taken => awake.step_view taken
  · exact fun s a => (inTime_iff s a).2
  · exact fun s => view_lost
  · exact fun s a s' awake taken late => lost_after awake taken late

end ServeStop

/-- **When a stop request is lost.** In both serving modes and for every interleaving: as long as the
cancel thread makes its call of `cancel_async_read` after the start of `read_async`, and gets the
lock of the device for it, no state is reached in which a stop has been requested, the read goes on
and the cancel thread has ended; and any other call can be followed by steps to such a state. -/
theorem stop_request_exact (single : List SingleAct) (multi : List ServeStopAct) :
    Decides SingleMode.step SingleMode.serve SingleMode.StopLost SingleMode.CancelsInTime single ∧
      Decides ServeStop.step ServeStop.serve ServeStop.StopLost ServeStop.CancelsInTime multi :=
  ⟨SingleMode.decides single, ServeStop.decides multi⟩

/-- A signal comes between the magic packet and the start of `read_async`. -/
def signalBeforeRead : List SingleAct :=
  [.magic true, .signal, .handlerShuts true, .cancelReceives, .cancelReads true, .cancelStores, .startRead, .callback false]

/-- A signal comes before the reader thread has started `read_async`. -/
def signalBeforeReader : List ServeStopAct :=
  [.thread .signal, .thread .handlerStores, .thread .cancelReceives, .thread (.cancelReads true), .thread .cancelStores,
    .thread .startRead]

/-- In both modes the read goes on with nobody left to cancel it. -/
theorem early_signal_lost :
    ¬Always SingleMode.step (fun s => ¬s.StopLost) SingleMode.serve signalBeforeRead ∧
      ¬Always ServeStop.step (fun s => ¬s.StopLost) ServeStop.serve signalBeforeReader := by
  constructor
  · intro always
    have lost : (run SingleMode.step SingleMode.serve signalBeforeRead).map (fun s => (s.requested, s.main, s.cancel)) =
        some (true, .readAsync false, .done) := by decide
    obtain ⟨s, reached, data⟩ := Option.map_eq_some_iff.1 lost
    obtain ⟨requested, data⟩ := Prod.mk.inj data
    exact always.last reached ⟨requested, Prod.mk.inj data⟩
  · intro always
    have lost : (run ServeStop.step ServeStop.serve signalBeforeReader).map
        (fun s => (s.requested, s.mode.reader, s.mode.cancel)) = some (true, .readAsync false, some .done) := by decide
    obtain ⟨s, reached, data⟩ := Option.map_eq_some_iff.1 lost
    obtain ⟨requested, data⟩ := Prod.mk.inj data
    exact always.last reached ⟨requested, Prod.mk.inj data⟩

end RtlTcp
