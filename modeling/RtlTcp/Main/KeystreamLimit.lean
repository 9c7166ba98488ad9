import RtlTcp.Main.ServeMulti

/-!
# `run_serve_multi`: how much keystream a session uses

A `ChaCha20` instance has a block counter of 32 bits, and `apply_keystream` panics when a call
would go past its keystream. An `EncryptedWriter` keeps one instance for the whole session, and
the control thread gets a new one for reading with every handshake. Beside the server, `Metered`
counts the bytes that are handed to these instances; `keystream_suffices_iff` says that a keystream
of `limit` bytes is enough exactly as long as these counts are within it.
-/

namespace RtlTcp
set_option autoImplicit false
open ByteIo Transition Broadcast

/-- How many bytes of keystream a session's ciphers have used, each from when it was made. -/
structure Usage where
  written : Option Nat
  decrypted : Option Nat
  deriving DecidableEq, Repr

def Usage.new : Usage := ⟨none, none⟩

def Usage.within (limit : Nat) (u : Usage) : Prop := (∀ n ∈ u.written, n ≤ limit) ∧ ∀ n ∈ u.decrypted, n ≤ limit

/-- The position of the `EncryptedWriter`'s cipher. -/
def WriterThread.used : WriterThread → Option Nat
  | .running cipher _ => cipher.map ChaCha20.pos
  | _ => none

/-- The position of `read_cipher`. -/
def ControlThread.used (c : ControlThread) : Option Nat := c.thread.readCipher.map ChaCha20.pos

def Session.usage (m : Session) : Usage := ⟨m.writer.used, m.control.bind ControlThread.used⟩

namespace ServeMulti

/-- What the ciphers of session `i` have used. -/
def usage (s : ServeMulti) (i : Nat) : Usage :=
  match s.sessions[i]? with
  | some m => m.usage
  | none => .new

/-- No `apply_keystream` so far has gone past a keystream of `limit` bytes. -/
def WithinKeystream (limit : Nat) (s : ServeMulti) : Prop := ∀ i, (s.usage i).within limit

/-- The bytes handed to a session's `EncryptedWriter` after one more step of its thread: every
`write` gets all that is left of the buffer. -/
def countWritten (s : ServeMulti) (m : Session) (written : Option Nat) : Option Nat :=
  match m.writer with
  | .notSpawned => written
  | .waiting _ => if s.nonces.isSome then some 0 else written
  | .running _ loop => written.map (· + loop.unwritten.length)

/-- The bytes of the frames read since the last handshake, after one more step of the control thread. -/
def countDecrypted (c : ControlThread) (decrypted : Option Nat) : Option Nat :=
  match c.point with
  | .reading =>
    match readExact commandHeaderSize c.thread.stream with
    | (.ok _, _) => decrypted.map (· + commandHeaderSize)
    | (.error _, _) => decrypted
  | .storing _ _ => some 0
  | _ => decrypted

/-- The counts after an act. -/
def count (s : ServeMulti) (counts : Nat → Usage) : ServeAct → Nat → Usage
  | .writer i _ =>
    match s.sessions[i]? with
    | some m => Function.update counts i { counts i with written := s.countWritten m (counts i).written }
    | none => counts
  | .control i _ _ =>
    match s.sessions[i]?.bind Session.control with
    | some c => Function.update counts i { counts i with decrypted := countDecrypted c (counts i).decrypted }
    | none => counts
  | _ => counts

end ServeMulti

/-- The server, and for every session the bytes that were handed to its ciphers. -/
structure Metered where
  server : ServeMulti
  counts : Nat → Usage

namespace Metered

def start (capacity : Nat) : Metered := ⟨.start capacity, fun _ => .new⟩

def step [ChaCha] (key : Key) (x : Metered) (a : ServeAct) : Option Metered :=
  (x.server.step (some key) a).map fun s => ⟨s, x.server.count x.counts a⟩

/-- With this step, the bytes handed to each cipher still fit into its keystream. -/
def Fits (limit : Nat) (x : Metered) (a : ServeAct) : Prop := ∀ i, (x.server.count x.counts a i).within limit

end Metered

/-! ## The counts are the positions of the ciphers -/

namespace ServeMulti

theorem usage_at {s : ServeMulti} {i : Nat} {m : Session} (there : s.sessions[i]? = some m) : s.usage i = m.usage := by
  simp only [usage, there]

theorem usage_set {s s' : ServeMulti} {i : Nat} {m m' : Session} (there : s.sessions[i]? = some m)
    (set : s'.sessions = s.sessions.set i m') : s'.usage = Function.update s.usage i m'.usage := by
  have bound := (List.getElem?_eq_some_iff.1 there).1
  funext j
  by_cases here : j = i
  · subst here
    simp [usage, set, List.getElem?_set_self bound]
  · simp [usage, set, List.getElem?_set_ne (Ne.symm here), Function.update_of_ne here]

/-- A session whose ciphers stay as they are changes no usage. -/
theorem usage_set_same {s s' : ServeMulti} {i : Nat} {m m' : Session} (there : s.sessions[i]? = some m)
    (set : s'.sessions = s.sessions.set i m') (same : m'.usage = m.usage) : s'.usage = s.usage := by
  rw [usage_set there set, same, ← usage_at there, Function.update_eq_self]

theorem usage_append {s s' : ServeMulti} {m : Session} (fresh : m.usage = .new)
    (more : s'.sessions = s.sessions ++ [m]) : s'.usage = s.usage := by
  funext j
  rcases Nat.lt_trichotomy j s.sessions.length with old | new | beyond
  · simp only [usage, more, List.getElem?_append_left old]
  · subst new
    simp [usage, more, fresh]
  · simp only [usage, more]
    rw [List.getElem?_eq_none (by simp; omega), List.getElem?_eq_none (by omega)]

/-- A writer's step changes the usage of its session as it is counted. -/
theorem usage_writer {s s' : ServeMulti} {i : Nat} {m m' : Session} {result : Except ErrorKind Nat}
    (there : s.sessions[i]? = some m) (set : s'.sessions = s.sessions.set i m') (control : m'.control = m.control)
    (writer : m'.writer.used = s.countWritten m m.writer.used) : s'.usage = s.count s.usage (.writer i result) := by
  have after : m'.usage = ⟨s.countWritten m m.writer.used, m.control.bind ControlThread.used⟩ := by
    rw [Session.usage, writer, control]
  rw [usage_set there set, after]
  simp only [count, there, usage_at there]
  rfl

end ServeMulti

section
variable [ChaCha]

theorem WriterThread.offer_used (cipher : Option ChaCha20) (buf : List UInt8) :
    (offer cipher buf).2.map ChaCha20.pos = (cipher.map ChaCha20.pos).map (· + buf.length) := by
  cases cipher <;> rfl

/-- A step of the writer uses keystream for all that is left of its buffer. -/
theorem WriterThread.step_used {tx : Channel (List UInt8)} {shouldExit : Bool} {cipher : Option ChaCha20}
    {loop : WriteClientLoop} {result : Except ErrorKind Nat} {writer : WriterThread} {accepted : List UInt8}
    (taken : step tx shouldExit cipher loop result = (writer, accepted)) :
    writer.used = (cipher.map ChaCha20.pos).map (· + loop.unwritten.length) := by
  obtain ⟨rx, point, sent⟩ := loop
  cases point with
  | writing rest =>
    cases rest with
    | nil =>
      cases taken
      exact Option.map_id'.symm
    | cons b bs =>
      cases result with
      | ok n =>
        cases taken
        exact offer_used cipher (b :: bs)
      | error e =>
        cases taken
        exact offer_used cipher (b :: bs)
  | checkExit | tryRecv | stopped =>
    cases taken
    exact Option.map_id'.symm

theorem MasterControl.decrypt_used (s : MasterControl) (raw : Frame) :
    (s.decrypt raw).2.readCipher.map ChaCha20.pos = (s.readCipher.map ChaCha20.pos).map (· + commandHeaderSize) := by
  unfold decrypt
  cases cipher : s.readCipher with
  | none => simp [cipher]
  | some c => rfl

/-- The top of the loop decrypts every frame that it has read, whatever comes of it. -/
theorem ControlThread.readCommand_used (key : Option Key) (s : MasterControl) (env : Env) :
    (readCommand key s env).used =
      match readExact commandHeaderSize s.stream with
      | (.ok _, _) => (s.readCipher.map ChaCha20.pos).map (· + commandHeaderSize)
      | (.error _, _) => s.readCipher.map ChaCha20.pos := by
  rcases read : readExact commandHeaderSize s.stream with ⟨e | raw, rest⟩
  · obtain ⟨thread, -⟩ := readCommand_error key env read
    rw [used, thread]
  · have decrypted := MasterControl.decrypt_used { s with stream := rest } raw
    simp only [readCommand, read]
    split
    · exact decrypted
    · split
      · exact decrypted
      · split
        · exact decrypted
        · rename_i other
          rw [used, (MasterControl.dispatch_plain (.inr other) _ env).2]
          exact decrypted

/-- A step of the control thread uses keystream for a frame that it reads, and a handshake starts a
new one. -/
theorem ControlThread.step_used (key : Key) (c : ControlThread) (env : Env) :
    (c.step (some key) env).used = ServeMulti.countDecrypted c c.used := by
  obtain ⟨point, thread⟩ := c
  cases point with
  | reading => exact readCommand_used (some key) thread env
  | storing myNonce peerNonce => rfl
  | acking | ended => rfl
  | exchanging =>
    simp only [step, ServeMulti.countDecrypted]
    split <;> rfl
  | replying peerNonce =>
    simp only [step, ServeMulti.countDecrypted]
    split <;> rfl

namespace ServeMulti

/-- A control thread's step changes the usage of its session as it is counted. -/
theorem usage_control {key : Key} {s s' : ServeMulti} {i : Nat} {m m' : Session} {c : ControlThread} {env env' : Env}
    {partly : Nat} (there : s.sessions[i]? = some m) (spawned : m.control = some c)
    (set : s'.sessions = s.sessions.set i m') (writer : m'.writer = m.writer)
    (control : m'.control = some (c.step (some key) env')) : s'.usage = s.count s.usage (.control i env partly) := by
  have before : m.usage = ⟨m.writer.used, c.used⟩ := by rw [Session.usage, spawned]; rfl
  have after : m'.usage = ⟨m.writer.used, countDecrypted c c.used⟩ := by
    rw [Session.usage, writer, control, ← ControlThread.step_used key c env']
    rfl
  rw [usage_set there set, after]
  simp only [count, there, spawned, Option.bind_some, usage_at there, before]

/-- **The counts follow the ciphers.** -/
theorem step_usage {key : Key} {s s' : ServeMulti} {a : ServeAct} (taken : s.step (some key) a = some s') :
    s'.usage = s.count s.usage a := by
  cases step_cases taken with
  | send | setExit | magicInterrupted | magicFailed | join => rfl
  | accept inbound => exact usage_append rfl rfl
  | magicWrote n there => exact usage_set_same there rfl rfl
  | spawnControl now again there sent unspawned =>
    refine usage_set_same there rfl ?_
    simp only [Session.usage, unspawned]
    rfl
  | @looked i m loop result there waiting empty =>
    have same : s.countWritten m m.writer.used = m.writer.used := by simp [countWritten, waiting, empty]
    refine usage_writer there ?_ rfl same.symm
    obtain ⟨bound, value⟩ := List.getElem?_eq_some_iff.1 there
    rw [← value, List.set_getElem_self]
  | took result there waiting free found =>
    refine usage_writer there rfl rfl ?_
    simp only [countWritten, waiting, found, Option.isSome_some, if_true]
    rfl
  | wrote result there running on next =>
    refine usage_writer there rfl rfl ?_
    simp only [countWritten, running]
    exact WriterThread.step_used next
  | replied env partly now there spawned => exact usage_control there spawned rfl rfl rfl
  | stored env partly now there spawned => exact usage_control there spawned rfl rfl rfl
  | controlled env partly now there spawned => exact usage_control there spawned rfl rfl rfl

end ServeMulti

/-- **How long one keystream lasts.** With a key, for a keystream of any length, in every run of any
number of sessions and with any interleaving of their threads: no `apply_keystream` ever goes past
its keystream exactly when in every step the bytes handed to each session's writer so far, and those
of the frames read since each control thread's last handshake, are within the keystream's length. -/
theorem keystream_suffices_iff (key : Key) (limit capacity : Nat) (acts : List ServeAct) :
    Always (Metered.step key) (fun x => x.server.WithinKeystream limit) (Metered.start capacity) acts ↔
      Along (Metered.step key) (Metered.Fits limit) (Metered.start capacity) acts := by
  have keep : ∀ x a x', x.server.usage = x.counts → Metered.step key x a = some x' → x'.server.usage = x'.counts := by
    intro x a x' same taken
    obtain ⟨s', moved, rfl⟩ := Option.map_eq_some_iff.1 taken
    rw [ServeMulti.step_usage moved, same]
  refine always_iff_along (I := fun x => x.server.usage = x.counts) keep ?_ rfl ?_
  · intro x a x' same _ taken
    have next := keep x a x' same taken
    obtain ⟨s', -, rfl⟩ := Option.map_eq_some_iff.1 taken
    simp only [ServeMulti.WithinKeystream, Metered.Fits, next]
  · intro i
    exact ⟨fun n used => (nomatch used), fun n used => (nomatch used)⟩

/-! ## A session that streams -/

namespace ServeMulti

/-- The first session's writer is in its loop, and its cipher has used `pos` bytes. -/
structure WriterAt (s : ServeMulti) (loop : WriteClientLoop) (pos : Nat) : Prop where
  writer : ∃ m cipher, s.sessions[0]? = some m ∧ m.writer = .running cipher loop ∧ cipher.map ChaCha20.pos = some pos
  running : s.shouldExit = false

theorem WriterAt.step {s : ServeMulti} {loop : WriteClientLoop} {pos : Nat} (here : s.WriterAt loop pos) (key : Key)
    (on : loop.point ≠ .stopped) (result : Except ErrorKind Nat) :
    ∃ s', s.step (some key) (.writer 0 result) = some s' ∧ s'.tx = s.tx ∧
      s'.WriterAt (loop.step s.tx false result) (pos + loop.unwritten.length) := by
  obtain ⟨m, cipher, there, running, used⟩ := here.writer
  rcases next : WriterThread.step s.tx false cipher loop result with ⟨writer, accepted⟩
  obtain ⟨cipher', rfl⟩ := WriterThread.step_loop next
  have used' := WriterThread.step_used next
  rw [used] at used'
  have bound := (List.getElem?_eq_some_iff.1 there).1
  let m' : Session := { m with
    writer := .running cipher' (loop.step s.tx false result), out := m.out ++ tagged .iq accepted }
  refine ⟨{ s.setSession 0 m' with holder := if m'.writer.stopped && s.holder == some 0 then none else s.holder }, ?_, rfl,
    ⟨m', cipher', List.getElem?_set_self bound, rfl, used'⟩, here.running⟩
  simp only [ServeMulti.step, there, Option.bind_some, writerStep, running, if_neg on, here.running, next]
  rfl

/-- The writer has caught up with the channel, and is about to look for more. -/
def CaughtUp (s : ServeMulti) (pos : Nat) : Prop :=
  ∃ rx written, s.WriterAt ⟨rx, .checkExit, written⟩ pos ∧ rx.next = s.tx.sent.length ∧ 0 < s.tx.capacity

/-- A buffer from the device to the socket. -/
def bufferActs (buf : List UInt8) : List ServeAct :=
  [.send buf, .writer 0 (.ok 0), .writer 0 (.ok 0), .writer 0 (.ok buf.length), .writer 0 (.ok 0)]

/-- A buffer on its way to the socket uses as much keystream as it has bytes. -/
theorem CaughtUp.buffer {s : ServeMulti} {pos : Nat} (caughtUp : s.CaughtUp pos) (key : Key) (b : UInt8) (bs : List UInt8) :
    ∃ s', run (ServeMulti.step (some key)) s (bufferActs (b :: bs)) = some s' ∧ s'.CaughtUp (pos + (b :: bs).length) := by
  obtain ⟨rx, written, here, caught, room⟩ := caughtUp
  let s₁ : ServeMulti := { s with tx := s.tx.send (b :: bs) }
  have sent : s₁.WriterAt ⟨rx, .checkExit, written⟩ pos := ⟨here.writer, here.running⟩
  obtain ⟨s₂, checked, tx₂, at₂⟩ := sent.step key (by simp) (.ok 0)
  obtain ⟨s₃, received, tx₃, at₃⟩ := at₂.step key (by simp [WriteClientLoop.step]) (.ok 0)
  have got := Receiver.tryRecv_send caught room (b :: bs)
  have loop₃ : (WriteClientLoop.step s₂.tx false (WriteClientLoop.step s₁.tx false ⟨rx, .checkExit, written⟩ (.ok 0)) (.ok 0)) =
      ⟨{ rx with next := rx.next + 1, received := rx.received ++ [(rx.next, b :: bs)] }, .writing (b :: bs), written⟩ := by
    rw [tx₂]
    simp only [WriteClientLoop.step, Bool.false_eq_true, if_false, s₁, got]
  rw [loop₃] at at₃
  obtain ⟨s₄, wrote, tx₄, at₄⟩ := at₃.step key (by simp) (.ok (b :: bs).length)
  obtain ⟨s₅, again, tx₅, at₅⟩ := at₄.step key (by simp [WriteClientLoop.step]) (.ok 0)
  refine ⟨s₅, ?_, ?_⟩
  · have begun : ServeMulti.step (some key) s (.send (b :: bs)) = some s₁ := rfl
    rw [bufferActs, run_cons begun, run_cons checked, run_cons received, run_cons wrote, run_cons again]
    rfl
  · have tx : s₅.tx = s.tx.send (b :: bs) := tx₅.trans (tx₄.trans (tx₃.trans tx₂))
    simp only [WriteClientLoop.step, WriteClientLoop.unwritten, List.length_cons, List.drop_length, List.length_nil,
      Nat.add_zero, Bool.false_eq_true, if_false] at at₅
    refine ⟨_, _, at₅, ?_, ?_⟩
    · rw [tx, Channel.send, List.length_append, ← caught]
      rfl
    · rw [tx]
      exact room

/-- After `n` buffers of the same size. -/
theorem CaughtUp.buffers {s : ServeMulti} {pos : Nat} (caughtUp : s.CaughtUp pos) (key : Key) (b : UInt8) (bs : List UInt8)
    (n : Nat) :
    ∃ s', run (ServeMulti.step (some key)) s (List.replicate n (bufferActs (b :: bs))).flatten = some s' ∧
      s'.CaughtUp (pos + n * (b :: bs).length) := by
  induction n generalizing s pos with
  | zero => exact ⟨s, rfl, by rwa [Nat.zero_mul]⟩
  | succ n ih =>
    obtain ⟨s₁, first, next⟩ := caughtUp.buffer key b bs
    obtain ⟨s', rest, done⟩ := ih next
    refine ⟨s', ?_, ?_⟩
    · rw [List.replicate_succ, List.flatten_cons, run_append first, rest]
    · rwa [Nat.succ_mul, Nat.add_comm (n * _), ← Nat.add_assoc]

end ServeMulti

/-- The counts do not get in the way of a run. -/
theorem Metered.run_server {key : Key} {acts : List ServeAct} {x : Metered} {s : ServeMulti}
    (reached : run (ServeMulti.step (some key)) x.server acts = some s) :
    ∃ x', run (Metered.step key) x acts = some x' ∧ x'.server = s := by
  induction acts generalizing x with
  | nil =>
    cases reached
    exact ⟨x, rfl, rfl⟩
  | cons a acts ih =>
    obtain ⟨s₁, taken, rest⟩ := run_cons_inv reached
    have moved : x.step key a = some ⟨s₁, x.server.count x.counts a⟩ := by
      rw [Metered.step, taken]
      rfl
    rw [run_cons moved]
    exact ih rest

end

/-- A proxy connects and shakes hands, and its writer starts. -/
def encryptedSessionActs : List ServeAct :=
  let client : List Arrival := [.byte 0xF0, .byte 0x50, .byte 0x52, .byte 0x4F, .byte 0x58] ++ List.replicate 12 (.byte 7)
  let env : Env := MasterControl.calmEnv 0
  [.accept client, .magic (.ok 12), .spawnControl 0 0, .control 0 env 0, .control 0 env 0, .control 0 env 0,
    .control 0 env 0, .control 0 env 0, .writer 0 (.ok 0)]

/-- The device delivers 262144 bytes at a time; with the 2^20th buffer of a session the keystream of
2^32 - 1 blocks of 64 bytes is used up. -/
theorem keystream_runs_out :
    letI := zeroChaCha
    ¬∀ acts, Always (Metered.step zeroKey) (fun x => x.server.WithinKeystream (64 * (2 ^ 32 - 1)))
      (Metered.start defaultBroadcastCapacity) acts := by
  let _ := zeroChaCha
  intro enough
  have facts : (run (ServeMulti.step (some zeroKey)) (ServeMulti.start defaultBroadcastCapacity) encryptedSessionActs).map
      (fun s => (s.sessions.map Session.writer, s.shouldExit, s.tx)) =
        some ([.running (some ⟨zeroKey, zeroNonce, 0⟩) (.start (newBroadcast defaultBroadcastCapacity))], false,
          newBroadcast defaultBroadcastCapacity) := by decide
  obtain ⟨s, begun, facts⟩ := Option.map_eq_some_iff.1 facts
  obtain ⟨writers, facts⟩ := Prod.mk.inj facts
  obtain ⟨running, tx⟩ := Prod.mk.inj facts
  obtain ⟨m, only, writer⟩ := List.map_eq_singleton_iff.1 writers
  have caughtUp : s.CaughtUp 0 := by
    refine ⟨_, _, ⟨⟨m, _, by rw [only]; rfl, writer, rfl⟩, running⟩, ?_, ?_⟩
    · rw [tx]
      rfl
    · rw [tx]
      decide
  obtain ⟨s', streamed, done⟩ := caughtUp.buffers zeroKey 0 (List.replicate 262143 0) (2 ^ 20)
  have whole := (run_append begun).trans streamed
  obtain ⟨x, reached, rfl⟩ := Metered.run_server (x := .start defaultBroadcastCapacity) whole
  obtain ⟨rx, written, ⟨⟨m', cipher, there, current, used⟩, -⟩, -⟩ := done
  have position : (x.server.usage 0).written = some (0 + 2 ^ 20 * (0 :: List.replicate 262143 0 : List UInt8).length) := by
    rw [ServeMulti.usage_at there, Session.usage, current]
    exact used
  have short := ((enough _).last reached 0).1 _ position
  rw [List.length_cons, List.length_replicate] at short
  exact absurd short (by decide)

end RtlTcp
