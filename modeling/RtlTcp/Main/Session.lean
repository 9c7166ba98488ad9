import Mathlib.Logic.Function.Iterate
import RtlTcp.Main.MasterControl
import RtlTcp.Stream

/-!
# The threads of one client connection

Up to three threads write to a client's socket: the accepting thread writes the magic packet,
the sample writer runs `write_client_loop`, and the control thread answers probes. Here are the
last two, at the grain of their shared accesses, so that the modules about whole servers can
interleave them. `Origin` marks each byte on the socket with the place that wrote it.

`ControlThread.step` cuts `MasterControl.turn` at its reads and writes; `turn_eq_steps` puts the
pieces together again.
-/

namespace RtlTcp
set_option autoImplicit false
open ByteIo Transition Broadcast Keystream

/-- Which code wrote a byte to a client's socket. -/
inductive Origin where
  | magic
  | iq
  | ack
  | nonce
  deriving DecidableEq, Repr

/-- The bytes a socket has accepted, oldest first. -/
abbrev SocketLog := List (Origin × UInt8)

def tagged (origin : Origin) (bytes : List UInt8) : SocketLog := bytes.map (origin, ·)

theorem length_tagged (origin : Origin) (bytes : List UInt8) : (tagged origin bytes).length = bytes.length := by
  simp [tagged]

theorem origin_of_tagged {origin : Origin} {bytes : List UInt8} {b : Origin × UInt8} (member : b ∈ tagged origin bytes) :
    b.1 = origin := by
  obtain ⟨byte, -, rfl⟩ := List.mem_map.1 member
  rfl

/-- What a socket delivers of a `write_all` that ended with `sent`: everything, or some part of
it if the call failed. -/
def delivered (bytes : List UInt8) (sent : Except ErrorKind Unit) (partly : Nat) : List UInt8 :=
  match sent with
  | .ok () => bytes
  | .error _ => bytes.take partly

/-! ## The sample writer -/

/-- The thread that writes the samples. With a key it first waits for the nonces, and `running`
then has the cipher of its `EncryptedWriter`. -/
inductive WriterThread where
  | notSpawned
  | waiting (loop : WriteClientLoop)
  | running (cipher : Option ChaCha20) (loop : WriteClientLoop)
  deriving DecidableEq

namespace WriterThread

/-- The thread's loop, from its subscription on. -/
def loop : WriterThread → Option WriteClientLoop
  | notSpawned => none
  | waiting loop => some loop
  | running _ loop => some loop

/-- The plaintext its stream has accepted. -/
def written (w : WriterThread) : List UInt8 :=
  match w.loop with
  | some loop => loop.written
  | none => []

def stopped : WriterThread → Bool
  | running _ loop => loop.point == .stopped
  | _ => false

section
variable [ChaCha]

/-- What the stream offers to the socket for `buf`: `EncryptedWriter::write` encrypts all of it
before it knows how much the socket accepts. -/
def offer (cipher : Option ChaCha20) (buf : List UInt8) : List UInt8 × Option ChaCha20 :=
  match cipher with
  | some cipher => ((cipher.applyKeystream buf).1, some (cipher.applyKeystream buf).2)
  | none => (buf, none)

/-- A step of the running thread, and the bytes that the socket accepts in it. -/
def step (tx : Channel (List UInt8)) (shouldExit : Bool) (cipher : Option ChaCha20) (loop : WriteClientLoop)
    (result : Except ErrorKind Nat) : WriterThread × List UInt8 :=
  let next := loop.step tx shouldExit result
  match loop.point, result with
  | .writing (b :: bs), .ok n => (running (offer cipher (b :: bs)).2 next, (offer cipher (b :: bs)).1.take n)
  | .writing (b :: bs), .error _ => (running (offer cipher (b :: bs)).2 next, [])
  | _, _ => (running cipher next, [])

/-- The thread goes on with the next step of its loop. -/
theorem step_loop {tx : Channel (List UInt8)} {shouldExit : Bool} {cipher : Option ChaCha20} {loop : WriteClientLoop}
    {result : Except ErrorKind Nat} {writer : WriterThread} {accepted : List UInt8}
    (taken : step tx shouldExit cipher loop result = (writer, accepted)) :
    ∃ cipher', writer = running cipher' (loop.step tx shouldExit result) := by
  unfold step at taken
  split at taken <;> cases taken <;> exact ⟨_, rfl⟩

theorem length_offer (cipher : Option ChaCha20) (buf : List UInt8) : (offer cipher buf).1.length = buf.length := by
  cases cipher <;> simp [offer, ChaCha20.applyKeystream]

/-- The socket accepts something exactly in a successful `write` of a buffer. -/
theorem step_accepts_iff {tx : Channel (List UInt8)} {shouldExit : Bool} {cipher : Option ChaCha20}
    {loop : WriteClientLoop} {result : Except ErrorKind Nat} :
    (step tx shouldExit cipher loop result).2 ≠ [] ↔
      ∃ b bs n, loop.point = .writing (b :: bs) ∧ result = .ok (n + 1) := by
  unfold step
  split
  · rename_i b bs n point
    cases n with
    | zero => simp [point]
    | succ n =>
      have nonempty : (offer cipher (b :: bs)).1 ≠ [] := by
        intro empty
        have size := length_offer cipher (b :: bs)
        simp [empty] at size
      simp [nonempty, point]
  · simp
  · rename_i other _
    simp only [ne_eq, not_true_eq_false, false_iff]
    rintro ⟨b, bs, n, point, rfl⟩
    exact other b bs _ point rfl

end

end WriterThread

/-! ## The control thread -/

/-- The points of `spawn_master_control_thread` between its accesses to the socket and to the
shared nonces. -/
inductive ControlPoint where
  | reading
  | acking
  | exchanging
  | replying (peerNonce : Nonce)
  | storing (myNonce peerNonce : Nonce)
  | ended

/-- The control thread: its point and its variables. -/
structure ControlThread where
  point : ControlPoint
  thread : MasterControl

namespace ControlThread
variable [ChaCha]

/-- The top of the loop: read, decrypt, check the exit flag and the rate limiter, and dispatch
every command but the probe, which only changes the point. -/
def readCommand (key : Option Key) (s : MasterControl) (env : Env) : ControlThread :=
  match readExact commandHeaderSize s.stream with
  | (.ok raw, rest) =>
    let (buf, s) := { s with stream := rest }.decrypt raw
    if env.shouldExit then ⟨.ended, s⟩
    else
      let (allowed, rateLimiter) := s.rateLimiter.check env.now
      let s := { s with rateLimiter := rateLimiter }
      if !allowed then ⟨.reading, s⟩
      else if buf.cmd = cmdChainDetect then ⟨.acking, s⟩
      else ⟨.reading, s.dispatch key env buf⟩
  | (.error e, rest) =>
    let s := { s with stream := rest }
    if e == .wouldBlock || e == .timedOut then ⟨.reading, s⟩ else ⟨.ended, s⟩

/-- The next step of the thread. -/
def step (key : Option Key) (c : ControlThread) (env : Env) : ControlThread :=
  let s := c.thread
  match c.point, key with
  | .reading, _ => readCommand key s env
  | .acking, none => ⟨.reading, { s with written := s.written ++ [(chainDetectAck, env.ackSent)] }⟩
  | .acking, some _ => ⟨.exchanging, { s with written := s.written ++ [(chainDetectAck, env.ackSent)] }⟩
  | .exchanging, _ =>
    match readExact 12 s.stream with
    | (.ok peerNonce, rest) => ⟨.replying peerNonce, { s with stream := rest }⟩
    | (.error _, rest) => ⟨.reading, { s with stream := rest }⟩
  | .replying peerNonce, _ =>
    let s := { s with written := s.written ++ [(env.myNonce.toList, env.nonceSent)] }
    match env.nonceSent with
    | .ok () => ⟨.storing env.myNonce peerNonce, s⟩
    | .error _ => ⟨.reading, s⟩
  | .storing myNonce peerNonce, some key =>
    ⟨.reading, { s with
      encryptionNonces := some (myNonce, peerNonce)
      readCipher := some (.new key peerNonce)
      writeCipher := some (.new key myNonce) }⟩
  | .storing _ _, none => c
  | .ended, _ => c

/-- The part of the socket log that a step adds. -/
def output (c : ControlThread) (env : Env) (partly : Nat) : SocketLog :=
  match c.point with
  | .acking => tagged .ack (delivered chainDetectAck env.ackSent partly)
  | .replying _ => tagged .nonce (delivered env.myNonce.toList env.nonceSent partly)
  | _ => []

theorem decrypt_stream (s : MasterControl) (rest : List Arrival) (raw : Frame) :
    MasterControl.decrypt { s with stream := rest } raw = ((s.decrypt raw).1, { (s.decrypt raw).2 with stream := rest }) := by
  unfold MasterControl.decrypt
  cases own : s.readCipher <;> simp [own]

/-- What the top of the loop makes of a whole frame: the thread ends, goes on with the next frame,
or answers a probe. -/
theorem readCommand_frame (key : Option Key) {s : MasterControl} (env : Env) {raw : Frame} {rest : List Arrival}
    (read : readExact commandHeaderSize s.stream = (.ok raw, rest)) :
    (readCommand key s env).thread.stream = rest ∧
      ((readCommand key s env).point = .ended ∨
        ((readCommand key s env).point = .reading ∨
          (readCommand key s env).point = .acking ∧ env.shouldExit = false ∧ (s.rateLimiter.check env.now).1 = true ∧
            (s.decrypt raw).1.cmd = cmdChainDetect) ∧
        (readCommand key s env).thread.readCipher = (s.decrypt raw).2.readCipher) := by
  have limiter : (s.decrypt raw).2.rateLimiter = s.rateLimiter := by
    unfold MasterControl.decrypt
    cases s.readCipher <;> rfl
  simp only [readCommand, read, decrypt_stream, limiter]
  by_cases exit : env.shouldExit = true
  · rw [if_pos exit]
    exact ⟨rfl, .inl rfl⟩
  · rw [if_neg exit]
    cases allowed : (s.rateLimiter.check env.now).1 with
    | false => exact ⟨rfl, .inr ⟨.inl rfl, rfl⟩⟩
    | true =>
      rw [if_neg (by simp)]
      by_cases probe : (s.decrypt raw).1.cmd = cmdChainDetect
      · rw [if_pos probe]
        exact ⟨rfl, .inr ⟨.inr ⟨rfl, by simpa using exit, rfl, probe⟩, rfl⟩⟩
      · rw [if_neg probe]
        have other : key = none ∨ (s.decrypt raw).1.cmd ≠ cmdChainDetect := .inr probe
        obtain ⟨stream, cipher⟩ := MasterControl.dispatch_plain other { (s.decrypt raw).2 with
          stream := rest
          rateLimiter := (s.rateLimiter.check env.now).2 } env
        exact ⟨stream, .inr ⟨.inl rfl, cipher⟩⟩

/-- What the top of the loop makes of a failed read. -/
theorem readCommand_error (key : Option Key) {s : MasterControl} (env : Env) {e : ErrorKind} {rest : List Arrival}
    (read : readExact commandHeaderSize s.stream = (.error e, rest)) :
    (readCommand key s env).thread = { s with stream := rest } ∧
      ((readCommand key s env).point = .reading ∨ (readCommand key s env).point = .ended) := by
  simp only [readCommand, read]
  split
  · exact ⟨rfl, .inl rfl⟩
  · exact ⟨rfl, .inr rfl⟩

/-- Where a turn of the loop ends. -/
def afterTurn : Flow × MasterControl → ControlThread
  | (.again, s) => ⟨.reading, s⟩
  | (.leave, s) => ⟨.ended, s⟩

/-- From the acknowledgement on, the steps do what `chainDetect` does at once. -/
theorem chainDetect_eq_steps (key : Option Key) (s : MasterControl) (env : Env) :
    ∃ n, n ≤ 4 ∧ Nat.iterate (fun c => step key c env) n ⟨.acking, s⟩ = ⟨.reading, s.chainDetect key env⟩ := by
  cases key with
  | none => exact ⟨1, by omega, rfl⟩
  | some key =>
    match nonce : readExact 12 s.stream with
    | (.error e, rest) =>
      refine ⟨2, by omega, ?_⟩
      change step (some key) (step (some key) ⟨.acking, s⟩ env) env = _
      simp only [step, MasterControl.chainDetect, serverNonceExchange, nonce, List.append_nil]
    | (.ok peerNonce, rest) =>
      cases sent : env.nonceSent with
      | error e =>
        refine ⟨3, by omega, ?_⟩
        change step (some key) (step (some key) (step (some key) ⟨.acking, s⟩ env) env) env = _
        simp only [step, MasterControl.chainDetect, serverNonceExchange, nonce, sent]
      | ok =>
        refine ⟨4, by omega, ?_⟩
        change step (some key) (step (some key) (step (some key) (step (some key) ⟨.acking, s⟩ env) env) env) env = _
        simp only [step, MasterControl.chainDetect, serverNonceExchange, nonce, sent]

/-- **The steps of a turn are the turn.** -/
theorem turn_eq_steps (key : Option Key) (s : MasterControl) (env : Env) :
    ∃ n, n ≤ 5 ∧ Nat.iterate (fun c => step key c env) n ⟨.reading, s⟩ = afterTurn (s.turn key env) := by
  match command : readExact commandHeaderSize s.stream with
  | (.error e, rest) =>
    refine ⟨1, by omega, ?_⟩
    change step key ⟨.reading, s⟩ env = _
    simp only [step, readCommand, MasterControl.turn, command]
    split <;> rfl
  | (.ok raw, rest) =>
    let t := (MasterControl.decrypt { s with stream := rest } raw).2
    let buf := (MasterControl.decrypt { s with stream := rest } raw).1
    let limited : MasterControl := { t with rateLimiter := (t.rateLimiter.check env.now).2 }
    by_cases probed : env.shouldExit = false ∧ (t.rateLimiter.check env.now).1 = true ∧ buf.cmd = cmdChainDetect
    · obtain ⟨running, allowed, probe⟩ := probed
      obtain ⟨n, bound, steps⟩ := chainDetect_eq_steps key limited env
      have first : step key ⟨.reading, s⟩ env = ⟨.acking, limited⟩ := by
        simp only [step, readCommand, command, running, Bool.false_eq_true, if_false]
        rw [if_neg (by simpa using allowed), if_pos probe]
      refine ⟨n + 1, by omega, ?_⟩
      rw [Function.iterate_succ_apply, first, steps]
      simp only [MasterControl.turn, command, MasterControl.process, running, Bool.false_eq_true, if_false]
      rw [if_neg (by simpa using allowed), MasterControl.dispatch_probe probe]
      rfl
    · refine ⟨1, by omega, ?_⟩
      change step key ⟨.reading, s⟩ env = _
      simp only [step, readCommand, MasterControl.turn, command, MasterControl.process]
      by_cases exit : env.shouldExit = true
      · rw [if_pos exit, if_pos exit]
        rfl
      · rw [if_neg exit, if_neg exit]
        by_cases allowed : (t.rateLimiter.check env.now).1 = true
        · have other : ¬buf.cmd = cmdChainDetect := fun probe => probed ⟨by simpa using exit, allowed, probe⟩
          have admitted : ¬(!(t.rateLimiter.check env.now).1) = true := by simpa using allowed
          rw [if_neg admitted, if_neg other, if_neg admitted]
          rfl
        · rw [if_pos (by simpa using allowed), if_pos (by simpa using allowed)]
          rfl

end ControlThread

end RtlTcp
