import RtlTcp.Control
import RtlTcp.Stream

/-!
# The master accept loops

`run_serve_multi` and `run_proxy_multi` accept one master after the other and make several
fallible calls on each new socket; each of them ends in `?`. The loop of serve mode also takes the
lock of `all_streams`, which the slave acceptor poisons when its clone of a socket fails, and
unwraps it. A `Round` is what the environment answers in one iteration. `survives_iff` says which
histories of connection attempts leave the loop running and later masters as well served as
without the attempts that failed.
-/

namespace RtlTcp
set_option autoImplicit false
open ByteIo Broadcast

/-- The fallible calls on an accepted socket. -/
inductive SocketCall where
  | setReadTimeout
  | setWriteTimeout
  /-- `try_clone` for `all_streams`, the sample writer, the `BufWriter` and the control thread. -/
  | cloneForShutdown
  | cloneForWriter
  | cloneForMagic
  | cloneForControl
  /-- `write_all` and `flush` of the magic packet. -/
  | writeMagic
  | flushMagic
  deriving DecidableEq, Repr

/-- A connection attempt: the client's canonical address, and what the calls on its socket return. -/
structure Attempt where
  clientIp : String
  answer : SocketCall → Except ErrorKind Unit

/-- What `accept` returns on the listener; an error comes with its text. -/
inductive Accepted where
  | wouldBlock
  | failed (e : String)
  | conn (a : Attempt)

/-- One iteration: the buffers sent to the clients meanwhile, the exit flag as read at the top,
the result of `accept`, whether the lock of `all_streams` is poisoned, and the exit flag as read at the bottom. -/
structure Round where
  sent : List (List UInt8)
  shouldExit : Bool
  accepted : Accepted
  streamsPoisoned : Bool
  exitAfter : Bool

/-- The two loops. -/
inductive MasterMode where
  | serve
  | proxy
  deriving DecidableEq, Repr

/-- What the loop has set up: the streams to shut down at the end, the sample writers with their
receivers, and the control threads it has waited for. -/
structure MasterLoop where
  tx : Channel (List UInt8)
  allStreams : List Attempt
  writers : List (Attempt × Receiver (List UInt8))
  controls : List Attempt

/-- What leaves the function from within the loop: `?` returns from it, and `unwrap` panics. -/
inductive Failure where
  | returned (e : RtlTcpError)
  | panicked
  deriving DecidableEq

/-- The body of the loop. -/
abbrev Accepting := ExceptT Failure (StateM MasterLoop)

/-- How the loop ends, if it does. -/
inductive LoopEnd where
  | running
  | exited
  | failed (failure : Failure)
  deriving DecidableEq

def Attempt.call (a : Attempt) (c : SocketCall) : Accepting Unit := fun s =>
  ((a.answer c).mapError (.returned ∘ .io), s)

namespace MasterLoop

def start (capacity : Nat) : MasterLoop := ⟨newBroadcast capacity, [], [], []⟩

def sends (s : MasterLoop) (bufs : List (List UInt8)) : MasterLoop := { s with tx := bufs.foldl Channel.send s.tx }

/-- `all_streams.lock().unwrap()` -/
def lockStreams (poisoned : Bool) : Accepting Unit := fun s => (if poisoned then .error .panicked else .ok (), s)

def pushStream (a : Attempt) : Accepting Unit := modify fun s => { s with allStreams := s.allStreams ++ [a] }

def subscribe : Accepting (Receiver (List UInt8)) := do return (← get).tx.subscribe

def spawnWriter (a : Attempt) (mrx : Receiver (List UInt8)) : Accepting Unit :=
  modify fun s => { s with writers := s.writers ++ [(a, mrx)] }

def joinControl (a : Attempt) : Accepting Unit := modify fun s => { s with controls := s.controls ++ [a] }

section
variable [IpLib]

/-- `check_whitelist(..)?` -/
def checkClient (whitelist : List String) (a : Attempt) : Accepting Unit := fun s =>
  ((checkWhitelist a.clientIp whitelist).mapError .returned, s)

/-- The loop of `run_serve_multi`, from a connection on. -/
def admitServe (whitelist : List String) (streamsPoisoned : Bool) (a : Attempt) : Accepting Unit := do
  checkClient whitelist a
  a.call .setReadTimeout
  a.call .setWriteTimeout
  -- the lock is taken before its `push` is given a clone
  lockStreams streamsPoisoned
  a.call .cloneForShutdown
  pushStream a
  let mrx ← subscribe
  a.call .cloneForWriter
  spawnWriter a mrx
  a.call .cloneForMagic
  a.call .writeMagic
  a.call .flushMagic
  a.call .cloneForControl
  joinControl a

/-- The loop of `run_proxy_multi`; its control thread takes the stream itself. -/
def admitProxy (whitelist : List String) (a : Attempt) : Accepting Unit := do
  checkClient whitelist a
  a.call .setReadTimeout
  a.call .setWriteTimeout
  a.call .cloneForMagic
  a.call .writeMagic
  a.call .flushMagic
  let mrx ← subscribe
  a.call .cloneForWriter
  spawnWriter a mrx
  joinControl a

def admitMaster (mode : MasterMode) (whitelist : List String) (streamsPoisoned : Bool) (a : Attempt) : Accepting Unit :=
  match mode with
  | .serve => admitServe whitelist streamsPoisoned a
  | .proxy => admitProxy whitelist a

/-- One iteration, and how the loop ends with it, if it does. -/
def turn (mode : MasterMode) (whitelist : List String) (s : MasterLoop) (r : Round) : Option LoopEnd × MasterLoop :=
  let s := s.sends r.sent
  if r.shouldExit then (some .exited, s)
  else
    match r.accepted with
    | .wouldBlock => (none, s)
    | .failed e => (some (.failed (.returned (.network ("master accept error: " ++ e)))), s)
    | .conn a =>
      match (admitMaster mode whitelist r.streamsPoisoned a).run s with
      | (.error failure, s) => (some (.failed failure), s)
      | (.ok (), s) => if r.exitAfter then (some .exited, s) else (none, s)

/-- The calls that each loop makes. -/
def calls : MasterMode → List SocketCall
  | .serve => [.setReadTimeout, .setWriteTimeout, .cloneForShutdown, .cloneForWriter, .cloneForMagic, .writeMagic,
      .flushMagic, .cloneForControl]
  | .proxy => [.setReadTimeout, .setWriteTimeout, .cloneForMagic, .writeMagic, .flushMagic, .cloneForWriter]

/-- The whitelist allows the client, no call on its socket fails, and serve mode finds the lock sound. -/
def Admitted (mode : MasterMode) (whitelist : List String) (streamsPoisoned : Bool) (a : Attempt) : Prop :=
  checkWhitelist a.clientIp whitelist = .ok () ∧ (∀ c ∈ calls mode, a.answer c = .ok ()) ∧
    (mode = .serve → streamsPoisoned = false)

/-- The error of a failed `accept`. -/
def ListenerError (failure : Failure) (text : String) : Prop :=
  failure = .returned (.network ("master accept error: " ++ text))

/-- The program returns normally exactly when `ok`, and otherwise fails, but not as the listener does. -/
def Decides {α : Type} (p : Accepting α) (ok : Prop) : Prop :=
  ∀ s, (ok ∧ ∃ v s', p.run s = (.ok v, s')) ∨ (¬ok ∧ ∃ e s', p.run s = (.error e, s') ∧ ∀ text, ¬ListenerError e text)

omit [IpLib] in
theorem Decides.bind {α β : Type} {p : Accepting α} {k : α → Accepting β} {P Q : Prop} (first : Decides p P)
    (next : ∀ v, Decides (k v) Q) : Decides (p >>= k) (P ∧ Q) := by
  intro s
  rcases first s with ⟨holds, v, s', run⟩ | ⟨fails, e, s', run, other⟩
  · have step : (p >>= k).run s = (k v).run s' := by
      change ExceptT.bindCont k (p.run s).1 (p.run s).2 = _
      rw [run]
      rfl
    rw [step]
    rcases next v s' with ⟨holds', done⟩ | ⟨fails', failed⟩
    · exact .inl ⟨⟨holds, holds'⟩, done⟩
    · exact .inr ⟨fun both => fails' both.2, failed⟩
  · refine .inr ⟨fun both => fails both.1, e, s', ?_, other⟩
    change ExceptT.bindCont k (p.run s).1 (p.run s).2 = _
    rw [run]
    rfl

omit [IpLib] in
theorem Decides.congr {α : Type} {p : Accepting α} {P Q : Prop} (decides : Decides p P) (same : P ↔ Q) : Decides p Q := by
  intro s
  rw [← same]
  exact decides s

/-- The round ends the loop of its own: the exit flag is set, or the listener fails. -/
def Stops (r : Round) : Prop :=
  r.shouldExit = true ∨ (∃ text, r.accepted = .failed text) ∨ (∃ a, r.accepted = .conn a) ∧ r.exitAfter = true

/-- Every attempt that the loop gets to, before the exit flag is set or the listener fails, is
admitted. -/
def AllAdmitted (mode : MasterMode) (whitelist : List String) (rounds : List Round) : Prop :=
  ∀ before r after a, rounds = before ++ r :: after → (∀ r' ∈ before, ¬Stops r') → r.shouldExit = false →
    r.accepted = .conn a → Admitted mode whitelist r.streamsPoisoned a

theorem AllAdmitted.head {mode : MasterMode} {whitelist : List String} {r : Round} {rounds : List Round}
    (h : AllAdmitted mode whitelist (r :: rounds)) {a : Attempt} (running : r.shouldExit = false)
    (conn : r.accepted = .conn a) : Admitted mode whitelist r.streamsPoisoned a :=
  h [] r rounds a rfl (by simp) running conn

theorem AllAdmitted.tail {mode : MasterMode} {whitelist : List String} {r : Round} {rounds : List Round}
    (h : AllAdmitted mode whitelist (r :: rounds)) (on : ¬Stops r) : AllAdmitted mode whitelist rounds := by
  rintro before r' after a rfl quiet
  refine h (r :: before) r' after a rfl fun r'' member => ?_
  rcases List.mem_cons.1 member with rfl | old
  · exact on
  · exact quiet r'' old

/-- What an iteration can do. -/
inductive Turned (mode : MasterMode) (whitelist : List String) (r : Round) : Option LoopEnd → Prop where
  | exit (exit : r.shouldExit = true) : Turned mode whitelist r (some .exited)
  | idle (running : r.shouldExit = false) (accepted : r.accepted = .wouldBlock) : Turned mode whitelist r none
  | listener {text : String} {failure : Failure} (accepted : r.accepted = .failed text)
      (error : ListenerError failure text) : Turned mode whitelist r (some (.failed failure))
  | last {a : Attempt} (accepted : r.accepted = .conn a) (admitted : Admitted mode whitelist r.streamsPoisoned a)
      (exit : r.exitAfter = true) : Turned mode whitelist r (some .exited)
  | served {a : Attempt} (running : r.shouldExit = false) (accepted : r.accepted = .conn a)
      (admitted : Admitted mode whitelist r.streamsPoisoned a) (on : r.exitAfter = false) : Turned mode whitelist r none
  | refused {a : Attempt} {failure : Failure} (running : r.shouldExit = false) (accepted : r.accepted = .conn a)
      (refused : ¬Admitted mode whitelist r.streamsPoisoned a) (other : ∀ text, ¬ListenerError failure text) :
      Turned mode whitelist r (some (.failed failure))

/-- An iteration that goes on had no attempt that fails. -/
theorem Turned.admitted {mode : MasterMode} {whitelist : List String} {r : Round} (turned : Turned mode whitelist r none)
    {a : Attempt} (conn : r.accepted = .conn a) : Admitted mode whitelist r.streamsPoisoned a := by
  cases turned with
  | idle running accepted => rw [accepted] at conn; cases conn
  | served running accepted admitted on => rw [accepted] at conn; cases conn; exact admitted

end

/-- The addresses and networks of the history below. -/
@[reducible] def lanIpLib : IpLib where
  Addr := Nat
  Net := Nat × Nat
  parseAddr text := if text = "192.168.1.20" then some 0xC0A80114 else if text = "10.0.0.9" then some 0x0A000009 else none
  toCanonical addr := addr
  parseNet text := if text = "192.168.1.0/24" then some (0xC0A80100, 24) else none
  contains net addr := addr >>> (32 - net.2) == net.1 >>> (32 - net.2)

end MasterLoop

end RtlTcp
