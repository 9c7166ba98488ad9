import RtlTcp.Lib.BufWriter
import RtlTcp.Lib.Transition
import RtlTcp.Main.Session

/-!
# Admitting a client: the magic packet and the first samples

In each mode the admitting thread sends the magic packet, spawns the sample writer and spawns
the control thread, but in different orders (`program`), and the threads it has spawned write to
the same socket. The packet goes through a `BufWriter` of `--tcp-buffers` bytes, which is passed by
when it has twelve bytes or fewer. `magic_first_iff` says in which runs the first twelve bytes on
every client's socket are the magic packet.
-/

namespace RtlTcp
set_option autoImplicit false
open ByteIo Transition Broadcast

/-- How a client is admitted: by `run_serve_single`, by the master loops of `run_serve_multi`
and `run_proxy_multi`, or by `spawn_slave_acceptor`. -/
inductive Mode where
  | single
  | serveMaster
  | proxyMaster
  | slave
  deriving DecidableEq, Repr

/-- What becomes of an error: `?` returns from the function, `let _ =` goes on with what comes next, and the
callback of `read_async` returns to the device. -/
inductive OnError where
  | propagate
  | ignore
  | leaveCallback
  deriving DecidableEq, Repr

/-- What the admitting thread does with a client, as far as its socket is concerned. -/
inductive Op where
  | spawnControl
  | spawnWriter
  /-- A call on the `BufWriter`. -/
  | call (call : BufCall (Origin × UInt8)) (onError : OnError)
  /-- `read_async`, whose callback writes the samples through the same `BufWriter`. -/
  | readAsync
  deriving DecidableEq, Repr

/-- The `BufWriter` goes out of scope and flushes what is left in it. -/
abbrev Op.dropBuffer : Op := .call .flush .ignore

/-- What comes after a call that has failed, with `todo` behind it. -/
def OnError.next : OnError → (todo : List Op) → List Op
  | .propagate, _ => [.dropBuffer]
  | .ignore, todo => todo
  | .leaveCallback, _ => [.readAsync]

/-- The order of the operations in each mode. -/
def program (magic : SocketLog) : Mode → List Op
  | .single => [.spawnControl, .call (.writeAll magic) .propagate, .call .flush .propagate, .readAsync]
  | .serveMaster => [.spawnWriter, .call (.writeAll magic) .propagate, .call .flush .propagate, .spawnControl]
  | .proxyMaster => [.call (.writeAll magic) .propagate, .call .flush .propagate, .spawnWriter, .spawnControl]
  | .slave => [.call (.writeAll magic) .ignore, .call .flush .ignore, .spawnWriter, .dropBuffer]

/-- A client: what its admitting thread has still to do, that thread's `BufWriter`, the client's
sample writer, whether its control thread runs and what that is writing, and the bytes its
socket has accepted. -/
structure Client where
  mode : Mode
  todo : List Op
  bufw : BufWriter (Origin × UInt8)
  writer : WriterThread
  control : Bool
  answer : SocketLog
  out : SocketLog

structure Admission where
  tx : Channel (List UInt8)
  shouldExit : Bool
  clients : List Client

/-- What a control thread writes to its client: the acknowledgement of a probe, or a nonce. -/
inductive Answer where
  | ack
  | nonce (myNonce : Nonce)

def Answer.log : Answer → SocketLog
  | .ack => tagged .ack chainDetectAck
  | .nonce myNonce => tagged .nonce myNonce.toList

/-- What can happen next: a client is admitted, the source sends a buffer, the exit flag is set,
or a thread of client `i` takes a step: the admitting thread, the callback of `read_async`, the
writer (which may find the nonces, with a key) or the control thread. -/
inductive AdmitAct where
  | newClient (mode : Mode)
  | send (buf : List UInt8)
  | setExit
  | main (i : Nat) (result : Except ErrorKind Nat)
  | sample (i : Nat) (buf : List UInt8)
  | nonces (i : Nat) (cipher : ChaCha20)
  | writer (i : Nat) (result : Except ErrorKind Nat)
  | command (i : Nat) (answer : Answer)
  | control (i : Nat) (result : Except ErrorKind Nat)

namespace Client

def new (tcpBuffers : Nat) (magic : Bytes 12) (mode : Mode) : Client where
  mode := mode
  todo := program (tagged .magic magic.toList) mode
  bufw := .withCapacity tcpBuffers
  writer := .notSpawned
  control := false
  answer := []
  out := []

/-- A step of a call on the `BufWriter`, with `todo` behind the call. -/
def callStep (c : Client) (call : BufCall (Origin × UInt8)) (onError : OnError) (todo : List Op)
    (result : Except ErrorKind Nat) : Client :=
  { c with
    bufw := (call.step c.bufw result).writer
    out := c.out ++ (call.step c.bufw result).accepted
    todo :=
      match (call.step c.bufw result).progress with
      | .running next => .call next onError :: todo
      | .returned (.ok ()) => todo
      | .returned (.error _) => onError.next todo }

/-- The next step of the admitting thread. When `read_async` returns, so does the function. -/
def mainStep (key : Option Key) (tx : Channel (List UInt8)) (c : Client) (result : Except ErrorKind Nat) : Option Client :=
  match c.todo with
  | [] => none
  | .spawnControl :: todo => some { c with todo := todo, control := true }
  | .spawnWriter :: todo =>
    let writer := if key.isSome && c.mode == .serveMaster then .waiting (.start tx) else .running none (.start tx)
    some { c with todo := todo, writer := writer }
  | .call call onError :: todo => some (c.callStep call onError todo result)
  | .readAsync :: _ => some { c with todo := [.dropBuffer] }

/-- The callback of `read_async`, which writes the device's bytes and flushes. -/
def sampleStep (c : Client) (buf : List UInt8) : Option Client :=
  match c.todo with
  | .readAsync :: todo =>
    some { c with
      todo := .call (.writeAll (tagged .iq buf)) .leaveCallback :: .call .flush .leaveCallback :: .readAsync :: todo }
  | _ => none

/-- The next step of the sample writer. -/
def writerStep [ChaCha] (s : Admission) (c : Client) (result : Except ErrorKind Nat) : Option Client :=
  match c.writer with
  | .running cipher loop =>
    let (writer, accepted) := WriterThread.step s.tx s.shouldExit cipher loop result
    some { c with writer := writer, out := c.out ++ tagged .iq accepted }
  | _ => none

/-- One `write` of the control thread's answer. -/
def controlStep (c : Client) (result : Except ErrorKind Nat) : Option Client :=
  match c.answer, result with
  | [], _ => none
  | _ :: _, .ok 0 => some { c with answer := [] }
  | b :: bs, .ok (n + 1) => some { c with answer := bs.drop n, out := c.out ++ (b :: bs).take (n + 1) }
  | _ :: _, .error e => if e = .interrupted then some c else some { c with answer := [] }

/-- Only the serve-mode control threads answer their clients, with nonces only in
`run_serve_multi` with a key. -/
def answers (key : Option Key) (c : Client) : Answer → Bool
  | .ack => c.control && (c.mode == .single || c.mode == .serveMaster)
  | .nonce _ => c.control && c.mode == .serveMaster && key.isSome

end Client

namespace Admission

def start (capacity : Nat) : Admission := ⟨newBroadcast capacity, false, []⟩

def setClient (s : Admission) (i : Nat) (c : Client) : Admission := { s with clients := s.clients.set i c }

/-- The next state; `magic` is the packet that the clients get. -/
def step [ChaCha] (key : Option Key) (tcpBuffers : Nat) (magic : Bytes 12) (s : Admission) : AdmitAct → Option Admission
  | .newClient mode => some { s with clients := s.clients ++ [.new tcpBuffers magic mode] }
  | .send buf => some { s with tx := s.tx.send buf }
  | .setExit => some { s with shouldExit := true }
  | .main i result => s.clients[i]?.bind fun c => (c.mainStep key s.tx result).map (s.setClient i)
  | .sample i buf => s.clients[i]?.bind fun c => (c.sampleStep buf).map (s.setClient i)
  | .nonces i cipher => s.clients[i]?.bind fun c =>
    match c.writer with
    | .waiting loop => some (s.setClient i { c with writer := .running (some cipher) loop })
    | _ => none
  | .writer i result => s.clients[i]?.bind fun c => (c.writerStep s result).map (s.setClient i)
  | .command i answer => s.clients[i]?.bind fun c =>
    if c.answers key answer && c.answer.isEmpty then some (s.setClient i { c with answer := answer.log }) else none
  | .control i result => s.clients[i]?.bind fun c => (c.controlStep result).map (s.setClient i)

end Admission

/-! ## The first twelve bytes -/

/-- The first twelve bytes are the magic packet, as far as they are there. -/
def MagicFirst (magic : Bytes 12) (out : SocketLog) : Prop := out.take 12 <+: tagged .magic magic.toList

/-- The bytes of the magic packet among others. -/
def magicOf (log : SocketLog) : SocketLog := log.filter (·.1 = .magic)

/-- The socket has accepted all twelve bytes of the magic packet. -/
def Client.Sent (c : Client) : Prop := 12 ≤ (magicOf c.out).length

theorem magicOf_append (log more : SocketLog) : magicOf (log ++ more) = magicOf log ++ magicOf more :=
  List.filter_append ..

theorem magicOf_other {log : SocketLog} (other : ∀ b ∈ log, b.1 ≠ .magic) : magicOf log = [] := by
  rw [magicOf, List.filter_eq_nil_iff]
  intro b member
  simpa using other b member

theorem magicOf_self {log : SocketLog} (magic : ∀ b ∈ log, b.1 = .magic) : magicOf log = log := by
  rw [magicOf, List.filter_eq_self]
  intro b member
  simpa using magic b member

theorem length_packet (magic : Bytes 12) : (tagged .magic magic.toList).length = 12 := by
  rw [length_tagged, List.Vector.toList_length]

/-- A part of the packet is of its kind. -/
theorem magicOf_part {magic : Bytes 12} {x : SocketLog} (part : ∀ b ∈ x, b ∈ tagged .magic magic.toList) : magicOf x = x :=
  magicOf_self fun b member => origin_of_tagged (part b member)

theorem Client.Sent.more {c c' : Client} {x : SocketLog} (sent : c.Sent) (out : c'.out = c.out ++ x) : c'.Sent := by
  unfold Client.Sent at *
  rw [out, magicOf_append, List.length_append]
  omega

namespace MagicFirst

variable {magic : Bytes 12} {out x : SocketLog}

/-- The packet is through when twelve bytes are on the socket, and not before. -/
theorem sent_iff {c : Client} (first : MagicFirst magic c.out) : c.Sent ↔ 12 ≤ c.out.length := by
  constructor
  · intro sent
    exact Nat.le_trans sent (List.length_filter_le ..)
  · intro long
    have packet : c.out.take 12 = tagged .magic magic.toList := by
      apply first.eq_of_length
      rw [List.length_take, length_packet]
      omega
    unfold Client.Sent
    rw [← List.take_append_drop 12 c.out, magicOf_append, packet, magicOf_part fun b member => member, List.length_append,
      length_packet]
    omega

theorem more (first : MagicFirst magic out) (long : 12 ≤ out.length) : MagicFirst magic (out ++ x) := by
  rw [MagicFirst, List.take_append_of_le_length long]
  exact first

/-- The next bytes of the packet never harm. -/
theorem own (first : MagicFirst magic out) (front : magicOf out ++ x <+: tagged .magic magic.toList) :
    MagicFirst magic (out ++ x) := by
  rcases Nat.lt_or_ge out.length 12 with short | long
  · rw [MagicFirst, List.take_of_length_le (by omega)] at first
    rw [magicOf_part fun b member => first.subset member] at front
    exact (List.take_prefix ..).trans front
  · exact first.more long

/-- Another thread's bytes do no harm exactly when twelve bytes are there already. -/
theorem other_iff (first : MagicFirst magic out) (nonempty : x ≠ []) (foreign : ∀ b ∈ x, b.1 ≠ .magic) :
    MagicFirst magic (out ++ x) ↔ 12 ≤ out.length := by
  constructor
  · intro after
    by_contra short
    obtain ⟨b, x, rfl⟩ := List.exists_cons_of_ne_nil nonempty
    have member : b ∈ (out ++ b :: x).take 12 := by
      rw [List.take_append, List.mem_append]
      right
      obtain ⟨n, room⟩ : ∃ n, 12 - out.length = n + 1 := ⟨11 - out.length, by omega⟩
      simp [room]
    exact foreign b (List.mem_cons_self ..) (origin_of_tagged (after.subset member))
  · exact first.more

end MagicFirst

/-! ## What the admitting thread can do -/

namespace Client

/-- What a step of a call on the `BufWriter` does for the client. -/
inductive Called (c : Client) (call : BufCall (Origin × UInt8)) (onError : OnError) (todo : List Op) (c' : Client) : Prop where
  | running (next : BufCall (Origin × UInt8)) (x : SocketLog) (on : c'.todo = .call next onError :: todo)
      (around : next.Around c'.bufw) (out : c'.out = c.out ++ x)
      (kept : x ++ (c'.bufw.buf ++ next.bytes) = c.bufw.buf ++ call.bytes) (flush : call = .flush → next = .flush)
  | done (x : SocketLog) (on : c'.todo = todo) (out : c'.out = c.out ++ x)
      (kept : x ++ c'.bufw.buf = c.bufw.buf ++ call.bytes) (flushed : call = .flush → c'.bufw.buf = [])
  | failed (on : c'.todo = onError.next todo) (out : c'.out = c.out) (same : c'.bufw.buf = c.bufw.buf)

theorem callStep_called {c : Client} (call : BufCall (Origin × UInt8)) (around : call.Around c.bufw) (onError : OnError)
    (todo : List Op) (result : Except ErrorKind Nat) : Called c call onError todo (c.callStep call onError todo result) := by
  cases BufCall.step_stepped around result with
  | running next on around kept later flush =>
    refine .running next _ ?_ around rfl kept flush
    simp only [callStep, on]
  | done returned kept flushed =>
    refine .done _ ?_ rfl kept flushed
    simp only [callStep, returned]
  | failed e returned nothing same =>
    refine .failed ?_ ?_ same
    · simp only [callStep, returned]
    · simp only [callStep, nothing, List.append_nil]

theorem mainStep_keeps {key : Option Key} {tx : Channel (List UInt8)} {c c' : Client} {result : Except ErrorKind Nat}
    (taken : c.mainStep key tx result = some c') :
    c'.mode = c.mode ∧ c'.answer = c.answer ∧ (c.control = true → c'.control = true) := by
  unfold mainStep at taken
  split at taken
  · cases taken
  · cases taken; exact ⟨rfl, rfl, fun _ => rfl⟩
  · cases taken; exact ⟨rfl, rfl, id⟩
  · cases taken; exact ⟨rfl, rfl, id⟩
  · cases taken; exact ⟨rfl, rfl, id⟩

/-- The admitting thread only adds to what is on the socket. -/
theorem mainStep_out {key : Option Key} {tx : Channel (List UInt8)} {c c' : Client} {result : Except ErrorKind Nat}
    (taken : c.mainStep key tx result = some c') : ∃ x, c'.out = c.out ++ x := by
  unfold mainStep at taken
  split at taken
  · cases taken
  · cases taken; exact ⟨[], (List.append_nil _).symm⟩
  · cases taken; exact ⟨[], (List.append_nil _).symm⟩
  · cases taken; exact ⟨_, rfl⟩
  · cases taken; exact ⟨[], (List.append_nil _).symm⟩

/-- What has to wait for the packet. -/
def behind : Mode → List Op
  | .single => [.readAsync]
  | .serveMaster => [.spawnControl]
  | .proxyMaster => [.spawnWriter, .spawnControl]
  | .slave => []

/-- What is spawned in front of it. -/
def SpawnedFirst (mode : Mode) (op : Op) : Prop :=
  mode = .single ∧ op = .spawnControl ∨ mode = .serveMaster ∧ op = .spawnWriter

/-- In `run_serve_multi` the control thread comes after the packet, in `run_proxy_multi` the writer as well. -/
structure Waits (c : Client) : Prop where
  control : c.mode = .serveMaster → c.control = false
  writer : c.mode = .proxyMaster → c.writer = .notSpawned

/-- A slave's thread goes on after every error, and writes no samples. -/
def Calm (todo : List Op) : Prop := ∀ op ∈ todo, op = .spawnWriter ∨ op = .dropBuffer

/-- Where the admitting thread is, as long as the socket does not have the whole packet: it has one of the two
calls to make, or has given up, or serves a slave, which it does not give up. In the first case what is
on the socket, in the buffer and in the call is the packet, and otherwise the first part of it. -/
inductive Stage (magic : Bytes 12) (c : Client) : Prop where
  | sent (done : c.Sent)
  | sending (call : BufCall (Origin × UInt8)) (front rest : List Op) (waits : c.Waits)
      (todo : c.todo = front ++ .call call .propagate :: rest) (spawned : ∀ op ∈ front, SpawnedFirst c.mode op)
      (later : rest = .call .flush .propagate :: behind c.mode ∨ call = .flush ∧ rest = behind c.mode)
      (around : call.Around c.bufw)
      (packet : magicOf c.out ++ (c.bufw.buf ++ call.bytes) = tagged .magic magic.toList)
  | gaveUp (waits : c.Waits) (todo : c.todo = [.dropBuffer] ∨ c.todo = [])
      (packet : magicOf c.out ++ c.bufw.buf <+: tagged .magic magic.toList)
  | greeting (call : BufCall (Origin × UInt8)) (rest : List Op) (mode : c.mode = .slave)
      (todo : c.todo = .call call .ignore :: rest) (calm : Calm rest) (around : call.Around c.bufw)
      (packet : magicOf c.out ++ (c.bufw.buf ++ call.bytes) <+: tagged .magic magic.toList)
  | slave (mode : c.mode = .slave) (calm : Calm c.todo)
      (packet : magicOf c.out ++ c.bufw.buf <+: tagged .magic magic.toList)

structure Inv (magic : Bytes 12) (c : Client) : Prop where
  stage : c.Stage magic
  answering : c.answer ≠ [] → c.control = true ∧ (c.mode = .single ∨ c.mode = .serveMaster)
  foreign : ∀ b ∈ c.answer, b.1 ≠ .magic

theorem stage_new (tcpBuffers : Nat) (magic : Bytes 12) (mode : Mode) : (new tcpBuffers magic mode).Stage magic := by
  have waits : (new tcpBuffers magic mode).Waits := ⟨fun _ => rfl, fun _ => rfl⟩
  cases mode with
  | single => exact .sending _ [.spawnControl] _ waits rfl (by simp [SpawnedFirst, new]) (.inl rfl) trivial rfl
  | serveMaster => exact .sending _ [.spawnWriter] _ waits rfl (by simp [SpawnedFirst, new]) (.inl rfl) trivial rfl
  | proxyMaster => exact .sending _ [] _ waits rfl (by simp) (.inl rfl) trivial rfl
  | slave => exact .greeting _ _ rfl rfl (by simp [Calm]) trivial (List.prefix_refl _)

theorem inv_new (tcpBuffers : Nat) (magic : Bytes 12) (mode : Mode) : (new tcpBuffers magic mode).Inv magic where
  stage := stage_new tcpBuffers magic mode
  answering answers := absurd rfl answers
  foreign := by simp [new]

variable {magic : Bytes 12} {c c' : Client}

/-- What the admitting thread writes belongs to the packet. -/
theorem magicOf_write {x held : SocketLog} (packet : magicOf c.out ++ (x ++ held) <+: tagged .magic magic.toList)
    (out : c'.out = c.out ++ x) : magicOf c'.out ++ held = magicOf c.out ++ (x ++ held) := by
  have part : magicOf x = x := by
    apply magicOf_part
    intro b member
    exact packet.subset (List.mem_append_right _ (List.mem_append_left _ member))
  rw [out, magicOf_append, part, List.append_assoc]

/-- The `BufWriter` hands the packet to the socket from its front. -/
theorem Called.first {call : BufCall (Origin × UInt8)} {onError : OnError} {todo : List Op} (called : Called c call onError todo c')
    (packet : magicOf c.out ++ (c.bufw.buf ++ call.bytes) <+: tagged .magic magic.toList) (first : MagicFirst magic c.out) :
    MagicFirst magic c'.out := by
  have own : ∀ {x held : SocketLog}, c'.out = c.out ++ x → x ++ held = c.bufw.buf ++ call.bytes → MagicFirst magic c'.out := by
    intro x held out kept
    rw [← kept, ← List.append_assoc] at packet
    rw [out]
    exact first.own ((List.prefix_append ..).trans packet)
  cases called with
  | running next x on around out kept flush => exact own out kept
  | done x on out kept flushed => exact own out kept
  | failed on out same => rwa [out]

/-- What a step of the admitting thread preserves. -/
structure Advances (magic : Bytes 12) (c c' : Client) : Prop where
  stage : c'.Stage magic
  first : MagicFirst magic c.out → MagicFirst magic c'.out

/-- The socket has the packet when nothing of it is left. -/
theorem sent_of_whole (packet : magicOf c.out = tagged .magic magic.toList) : c.Sent := by
  have size := congrArg List.length packet
  rw [length_packet] at size
  exact Nat.le_of_eq size.symm

/-- The next step of a thread that has the packet to send. -/
theorem Stage.sending_step {call : BufCall (Origin × UInt8)} {rest : List Op}
    (called : Called c call .propagate rest c') (mode : c'.mode = c.mode) (waits : c'.Waits)
    (later : rest = .call .flush .propagate :: behind c.mode ∨ call = .flush ∧ rest = behind c.mode)
    (packet : magicOf c.out ++ (c.bufw.buf ++ call.bytes) = tagged .magic magic.toList) : Advances magic c c' := by
  have front : magicOf c.out ++ (c.bufw.buf ++ call.bytes) <+: tagged .magic magic.toList := packet ▸ List.prefix_rfl
  refine ⟨?_, called.first front⟩
  rw [← mode] at later
  cases called with
  | running next x on around out kept flush =>
    rw [← kept] at front packet
    refine .sending next [] rest waits on (by simp) ?_ around ((magicOf_write front out).trans packet)
    rcases later with one | ⟨two, last⟩
    · exact .inl one
    · exact .inr ⟨flush two, last⟩
  | done x on out kept flushed =>
    rw [← kept] at front packet
    have whole := (magicOf_write front out).trans packet
    rcases later with rfl | ⟨rfl, -⟩
    · exact .sending .flush [] _ waits on (by simp) (.inr ⟨rfl, rfl⟩) trivial (by rwa [BufCall.bytes, List.append_nil])
    · rw [flushed rfl, List.append_nil] at whole
      exact .sent (sent_of_whole whole)
  | failed on out same =>
    refine .gaveUp waits (.inl on) ?_
    rw [out, same]
    rw [← List.append_assoc] at front
    exact (List.prefix_append ..).trans front

/-- The next step of a thread that drops its `BufWriter`. -/
theorem Stage.gaveUp_step (called : Called c .flush .ignore [] c') (waits : c'.Waits)
    (packet : magicOf c.out ++ c.bufw.buf <+: tagged .magic magic.toList) : Advances magic c c' := by
  refine ⟨?_, called.first (by rwa [BufCall.bytes, List.append_nil])⟩
  cases called with
  | running next x on around out kept flush =>
    obtain rfl := flush rfl
    rw [BufCall.bytes, List.append_nil, List.append_nil] at kept
    rw [← kept] at packet
    exact .gaveUp waits (.inl on) (magicOf_write packet out ▸ packet)
  | done x on out kept flushed =>
    rw [BufCall.bytes, List.append_nil] at kept
    rw [← kept] at packet
    exact .gaveUp waits (.inr on) (magicOf_write packet out ▸ packet)
  | failed on out same => exact .gaveUp waits (.inr on) (by rwa [out, same])

/-- The next step of a call that a slave's thread makes. -/
theorem Stage.greeting_step {call : BufCall (Origin × UInt8)} {rest : List Op} (called : Called c call .ignore rest c')
    (mode : c'.mode = .slave) (calm : Calm rest)
    (packet : magicOf c.out ++ (c.bufw.buf ++ call.bytes) <+: tagged .magic magic.toList) : Advances magic c c' := by
  refine ⟨?_, called.first packet⟩
  cases called with
  | running next x on around out kept flush =>
    rw [← kept] at packet
    exact .greeting next rest mode on calm around (magicOf_write packet out ▸ packet)
  | done x on out kept flushed =>
    rw [← kept] at packet
    exact .slave mode (on ▸ calm) (magicOf_write packet out ▸ packet)
  | failed on out same =>
    refine .slave mode (on ▸ calm) ?_
    rw [out, same]
    rw [← List.append_assoc] at packet
    exact (List.prefix_append ..).trans packet

/-- A thread that has the packet to send stays in front of the operations that have to wait for it, and
puts nothing before the packet or inside it. -/
theorem Stage.mainStep {key : Option Key} {tx : Channel (List UInt8)} {result : Except ErrorKind Nat}
    (stage : c.Stage magic) (taken : c.mainStep key tx result = some c') : Advances magic c c' := by
  cases stage with
  | sent done =>
    obtain ⟨x, out⟩ := mainStep_out taken
    exact ⟨.sent (done.more out), fun first => by rw [out]; exact first.more (first.sent_iff.1 done)⟩
  | sending call front rest waits todo spawned later around packet =>
    cases front with
    | nil =>
      simp only [Client.mainStep, todo, List.nil_append] at taken
      cases taken
      exact sending_step (callStep_called _ around ..) rfl ⟨waits.control, waits.writer⟩ later packet
    | cons op front =>
      have others : ∀ op ∈ front, SpawnedFirst c.mode op := fun op member => spawned op (List.mem_cons_of_mem _ member)
      rcases spawned op List.mem_cons_self with ⟨here, rfl⟩ | ⟨here, rfl⟩
      · simp only [Client.mainStep, todo, List.cons_append] at taken
        cases taken
        have waits' : ∀ _ : c.mode = .serveMaster, true = false := fun serve => by simp [here] at serve
        exact ⟨.sending call front rest ⟨waits', waits.writer⟩ rfl others later around packet, id⟩
      · simp only [Client.mainStep, todo, List.cons_append] at taken
        cases taken
        exact ⟨.sending call front rest ⟨waits.control, fun proxy => by simp [here] at proxy⟩ rfl others later around packet, id⟩
  | gaveUp waits todo packet =>
    rcases todo with todo | todo
    · simp only [Client.mainStep, todo] at taken
      cases taken
      exact gaveUp_step (callStep_called .flush trivial ..) ⟨waits.control, waits.writer⟩ packet
    · simp only [Client.mainStep, todo] at taken
      cases taken
  | greeting call rest here todo calm around packet =>
    simp only [Client.mainStep, todo] at taken
    cases taken
    exact greeting_step (callStep_called _ around ..) here calm packet
  | slave here calm packet =>
    match todo : c.todo with
    | [] =>
      simp only [Client.mainStep, todo] at taken
      cases taken
    | op :: rest =>
      rw [todo] at calm
      have others : Calm rest := fun op member => calm op (List.mem_cons_of_mem _ member)
      rcases calm op List.mem_cons_self with rfl | rfl
      · simp only [Client.mainStep, todo] at taken
        cases taken
        exact ⟨.slave here others packet, id⟩
      · simp only [Client.mainStep, todo] at taken
        cases taken
        exact greeting_step (callStep_called .flush trivial ..) here others (by rwa [BufCall.bytes, List.append_nil])

theorem Inv.mainStep {key : Option Key} {tx : Channel (List UInt8)} {result : Except ErrorKind Nat} (inv : c.Inv magic)
    (taken : c.mainStep key tx result = some c') : c'.Inv magic := by
  obtain ⟨mode, answer, control⟩ := mainStep_keeps taken
  refine ⟨(inv.stage.mainStep taken).stage, fun answers => ?_, ?_⟩
  · obtain ⟨on, serves⟩ := inv.answering (answer ▸ answers)
    exact ⟨control on, mode ▸ serves⟩
  · rw [answer]
    exact inv.foreign

/-! ## What the other threads of a client can do -/

/-- A writer in `run_proxy_multi` and a control thread in `run_serve_multi` find the packet on the socket. -/
theorem Stage.sent_of_spawned (stage : c.Stage magic)
    (spawned : c.mode = .proxyMaster ∧ c.writer ≠ .notSpawned ∨ c.mode = .serveMaster ∧ c.control = true) : c.Sent := by
  have early : ¬c.Waits := by
    intro waits
    rcases spawned with ⟨mode, writer⟩ | ⟨mode, control⟩
    · exact writer (waits.writer mode)
    · simp [waits.control mode] at control
  cases stage with
  | sent done => exact done
  | sending call front rest waits => exact absurd waits early
  | gaveUp waits => exact absurd waits early
  | greeting call rest mode => simp [mode] at spawned
  | slave mode => simp [mode] at spawned

/-- So does the callback of `read_async`. -/
theorem Stage.sent_of_reading (stage : c.Stage magic) {todo : List Op} (reads : c.todo = .readAsync :: todo) : c.Sent := by
  cases stage with
  | sent done => exact done
  | sending call front rest waits here spawned =>
    rw [here] at reads
    cases front with
    | nil => cases reads
    | cons op front =>
      obtain ⟨rfl, -⟩ := List.cons.inj reads
      exact absurd (spawned _ List.mem_cons_self) (by simp [SpawnedFirst])
  | gaveUp waits here => rcases here with here | here <;> cases here.symm.trans reads
  | greeting call rest mode here => cases here.symm.trans reads
  | slave mode calm => exact absurd (calm .readAsync (reads ▸ List.mem_cons_self)) (by simp)

/-- The stage depends on the admitting thread, on what has been spawned and on the packet only. -/
theorem Stage.congr (stage : c.Stage magic) (mode : c'.mode = c.mode) (todo : c'.todo = c.todo) (bufw : c'.bufw = c.bufw)
    (control : c'.control = c.control) (writer : c.writer = .notSpawned → c'.writer = .notSpawned)
    (packet : magicOf c'.out = magicOf c.out) : c'.Stage magic := by
  have waiting : c.Waits → c'.Waits := by
    intro waits
    exact ⟨fun serve => control.trans (waits.control (mode ▸ serve)), fun proxy => writer (waits.writer (mode ▸ proxy))⟩
  cases stage with
  | sent done => exact .sent (by unfold Sent at *; rwa [packet])
  | sending call front rest waits here spawned later around whole =>
    refine .sending call front rest (waiting waits) (todo.trans here) (mode ▸ spawned) (mode ▸ later) (bufw ▸ around) ?_
    rw [packet, bufw]
    exact whole
  | gaveUp waits here front => exact .gaveUp (waiting waits) (todo ▸ here) (by rwa [packet, bufw])
  | greeting call rest here ops calm around front =>
    exact .greeting call rest (mode.trans here) (todo.trans ops) calm (bufw ▸ around) (by rwa [packet, bufw])
  | slave here calm front => exact .slave (mode.trans here) (todo ▸ calm) (by rwa [packet, bufw])

/-- Bytes of another thread on the socket. -/
theorem Inv.other (inv : c.Inv magic) {x : SocketLog} (foreign : ∀ b ∈ x, b.1 ≠ .magic)
    (mode : c'.mode = c.mode) (todo : c'.todo = c.todo) (bufw : c'.bufw = c.bufw) (control : c'.control = c.control)
    (writer : c.writer = .notSpawned → c'.writer = .notSpawned)
    (out : c'.out = c.out ++ x) (answer : c'.answer = c.answer ∨ ∃ y, c.answer = y ++ c'.answer) : c'.Inv magic where
  stage := inv.stage.congr mode todo bufw control writer (by rw [out, magicOf_append, magicOf_other foreign, List.append_nil])
  answering answers := by
    rw [control, mode]
    rcases answer with same | ⟨y, split⟩
    · exact inv.answering (same ▸ answers)
    · exact inv.answering (by rw [split]; simp [answers])
  foreign b member := by
    rcases answer with same | ⟨y, split⟩
    · exact inv.foreign b (same ▸ member)
    · exact inv.foreign b (by rw [split]; exact List.mem_append_right _ member)

theorem sampleStep_mode {buf : List UInt8} (taken : c.sampleStep buf = some c') : c'.mode = c.mode := by
  unfold Client.sampleStep at taken
  split at taken <;> cases taken
  rfl

/-- A buffer of the device comes after the packet. -/
theorem Inv.sampleStep (inv : c.Inv magic) {buf : List UInt8} (taken : c.sampleStep buf = some c') :
    c'.Inv magic ∧ c'.out = c.out := by
  unfold Client.sampleStep at taken
  split at taken
  · rename_i todo reads
    cases taken
    exact ⟨⟨.sent (inv.stage.sent_of_reading reads), inv.answering, inv.foreign⟩, rfl⟩
  · cases taken

/-- What one `write` of the control thread changes. -/
theorem controlStep_writes {c c' : Client} {result : Except ErrorKind Nat} (taken : c.controlStep result = some c') :
    ∃ x y, c.answer = y ++ c'.answer ∧ (∀ b ∈ x, b ∈ c.answer) ∧ (x ≠ [] ↔ ∃ n, result = .ok (n + 1)) ∧
      c.answer ≠ [] ∧ c' = { c with answer := c'.answer, out := c.out ++ x } := by
  unfold controlStep at taken
  split at taken
  · cases taken
  · rename_i answer
    cases taken
    exact ⟨[], c.answer, by simp, by simp, by simp, by simp [answer], by simp⟩
  · rename_i b bs n answer
    cases taken
    refine ⟨(b :: bs).take (n + 1), (b :: bs).take (n + 1), ?_, fun d member => ?_, by simp, by simp [answer], rfl⟩
    · rw [answer, List.take_succ_cons, List.cons_append, List.take_append_drop]
    · rw [answer]
      exact List.mem_of_mem_take member
  · rename_i answer
    split at taken
    · cases taken
      exact ⟨[], [], by simp, by simp, by simp, by simp [answer], by simp⟩
    · cases taken
      exact ⟨[], c.answer, by simp, by simp, by simp, by simp [answer], by simp⟩

/-- What one step of the writer changes. -/
theorem writerStep_writes [ChaCha] {s : Admission} {c c' : Client} {result : Except ErrorKind Nat}
    (taken : c.writerStep s result = some c') :
    ∃ cipher loop x, c.writer = .running cipher loop ∧
      (x ≠ [] ↔ ∃ b bs n, loop.point = .writing (b :: bs) ∧ result = .ok (n + 1)) ∧
      c' = { c with writer := c'.writer, out := c.out ++ tagged .iq x } := by
  unfold writerStep at taken
  split at taken
  · rename_i cipher loop running
    cases taken
    exact ⟨cipher, loop, _, running, WriterThread.step_accepts_iff, rfl⟩
  · cases taken

end Client

namespace Admission

/-- The condition on the steps: the sample writers of `run_serve_multi` and of the slaves, and
the control thread of `run_serve_single`, write to the socket only after it has accepted the
whole magic packet. -/
def AfterMagic (s : Admission) : AdmitAct → Prop
  | .writer i result => ∀ c cipher loop b bs n, s.clients[i]? = some c → c.mode ≠ .proxyMaster →
      c.writer = .running cipher loop → loop.point = .writing (b :: bs) → result = .ok (n + 1) → c.Sent
  | .control i result => ∀ c n, s.clients[i]? = some c → c.mode = .single → c.answer ≠ [] →
      result = .ok (n + 1) → c.Sent
  | _ => True

theorem forall_setClient {s : Admission} {i : Nat} {c c' : Client} {Q : Client → Prop} (all : ∀ d ∈ s.clients, Q d)
    (there : s.clients[i]? = some c) : (∀ d ∈ (s.setClient i c').clients, Q d) ↔ Q c' := by
  constructor
  · intro all'
    exact all' c' (List.mem_set (List.getElem?_eq_some_iff.1 there).1 c')
  · intro here d member
    rcases List.mem_or_eq_of_mem_set member with old | rfl
    · exact all d old
    · exact here

def Inv (magic : Bytes 12) (s : Admission) : Prop := ∀ c ∈ s.clients, c.Inv magic

theorem Inv.step [ChaCha] {key : Option Key} {tcpBuffers : Nat} {magic : Bytes 12} {s s' : Admission} {a : AdmitAct}
    (inv : Inv magic s) (taken : s.step key tcpBuffers magic a = some s') : Inv magic s' := by
  cases a with
  | newClient mode =>
    cases taken
    intro c member
    rcases List.mem_append.1 member with old | new
    · exact inv c old
    · rw [List.mem_singleton.1 new]
      exact Client.inv_new tcpBuffers magic mode
  | send buf => cases taken; exact inv
  | setExit => cases taken; exact inv
  | main i result =>
    obtain ⟨c, there, taken⟩ := Option.bind_eq_some_iff.1 taken
    obtain ⟨c', next, rfl⟩ := Option.map_eq_some_iff.1 taken
    exact (forall_setClient inv there).2 ((inv c (List.mem_of_getElem? there)).mainStep next)
  | sample i buf =>
    obtain ⟨c, there, taken⟩ := Option.bind_eq_some_iff.1 taken
    obtain ⟨c', next, rfl⟩ := Option.map_eq_some_iff.1 taken
    exact (forall_setClient inv there).2 ((inv c (List.mem_of_getElem? there)).sampleStep next).1
  | nonces i cipher =>
    obtain ⟨c, there, taken⟩ := Option.bind_eq_some_iff.1 taken
    have here := inv c (List.mem_of_getElem? there)
    split at taken
    · rename_i loop waiting
      cases taken
      refine (forall_setClient inv there).2 ⟨?_, here.answering, here.foreign⟩
      exact here.stage.congr rfl rfl rfl rfl (fun unspawned => by rw [waiting] at unspawned; cases unspawned) rfl
    · cases taken
  | writer i result =>
    obtain ⟨c, there, taken⟩ := Option.bind_eq_some_iff.1 taken
    obtain ⟨c', next, rfl⟩ := Option.map_eq_some_iff.1 taken
    obtain ⟨cipher, loop, x, running, -, shape⟩ := Client.writerStep_writes next
    apply (forall_setClient inv there).2
    have foreign : ∀ b ∈ tagged .iq x, b.1 ≠ .magic := fun b member => by simp [origin_of_tagged member]
    rw [shape]
    exact (inv c (List.mem_of_getElem? there)).other foreign rfl rfl rfl rfl
      (fun unspawned => by rw [running] at unspawned; cases unspawned) rfl (.inl rfl)
  | command i answer =>
    obtain ⟨c, there, taken⟩ := Option.bind_eq_some_iff.1 taken
    have here := inv c (List.mem_of_getElem? there)
    split at taken
    · rename_i ready
      cases taken
      obtain ⟨serves, -⟩ := Bool.and_eq_true_iff.1 ready
      refine (forall_setClient inv there).2 ⟨here.stage.congr rfl rfl rfl rfl id rfl, fun _ => ?_, ?_⟩
      · cases answer <;> simp [Client.answers] at serves <;> simp [serves]
      · intro b member
        cases answer <;> simp [origin_of_tagged member]
    · cases taken
  | control i result =>
    obtain ⟨c, there, taken⟩ := Option.bind_eq_some_iff.1 taken
    obtain ⟨c', next, rfl⟩ := Option.map_eq_some_iff.1 taken
    obtain ⟨x, y, split, inside, -, -, shape⟩ := Client.controlStep_writes next
    apply (forall_setClient inv there).2
    have here := inv c (List.mem_of_getElem? there)
    rw [shape]
    exact here.other (fun b member => here.foreign b (inside b member)) rfl rfl rfl rfl id rfl (.inr ⟨y, split⟩)

/-- Another thread's step on client `i` keeps the packet first exactly when it writes nothing or
finds the packet on the socket. -/
theorem magicFirst_setClient_iff {magic : Bytes 12} {s : Admission} {i : Nat} {c c' : Client} {x : SocketLog}
    (first : ∀ c ∈ s.clients, MagicFirst magic c.out) (there : s.clients[i]? = some c)
    (out : c'.out = c.out ++ x) (foreign : ∀ b ∈ x, b.1 ≠ .magic) :
    (∀ d ∈ (s.setClient i c').clients, MagicFirst magic d.out) ↔ (x ≠ [] → c.Sent) := by
  have here := first c (List.mem_of_getElem? there)
  rw [forall_setClient (Q := fun d => MagicFirst magic d.out) first there, out, here.sent_iff]
  by_cases nothing : x = []
  · simp [nothing, here]
  · rw [here.other_iff nothing foreign]
    exact ⟨fun long _ => long, fun long => long nothing⟩

theorem magicFirst_step_iff [ChaCha] {key : Option Key} {tcpBuffers : Nat} {magic : Bytes 12} {s s' : Admission} {a : AdmitAct}
    (inv : Inv magic s) (first : ∀ c ∈ s.clients, MagicFirst magic c.out)
    (taken : s.step key tcpBuffers magic a = some s') : (∀ c ∈ s'.clients, MagicFirst magic c.out) ↔ AfterMagic s a := by
  cases a with
  | newClient mode =>
    cases taken
    refine iff_of_true (fun c member => ?_) trivial
    rcases List.mem_append.1 member with old | new
    · exact first c old
    · rw [List.mem_singleton.1 new]
      exact List.nil_prefix
  | send buf => cases taken; exact iff_of_true first trivial
  | setExit => cases taken; exact iff_of_true first trivial
  | main i result =>
    obtain ⟨c, there, taken⟩ := Option.bind_eq_some_iff.1 taken
    obtain ⟨c', next, rfl⟩ := Option.map_eq_some_iff.1 taken
    have member := List.mem_of_getElem? there
    exact iff_of_true ((forall_setClient first there).2 (((inv c member).stage.mainStep next).first (first c member))) trivial
  | sample i buf =>
    obtain ⟨c, there, taken⟩ := Option.bind_eq_some_iff.1 taken
    obtain ⟨c', next, rfl⟩ := Option.map_eq_some_iff.1 taken
    have member := List.mem_of_getElem? there
    refine iff_of_true ((forall_setClient first there).2 ?_) trivial
    rw [((inv c member).sampleStep next).2]
    exact first c member
  | nonces i _ | command i _ =>
    -- nothing reaches the socket
    obtain ⟨c, there, taken⟩ := Option.bind_eq_some_iff.1 taken
    split at taken
    · cases taken
      exact iff_of_true ((forall_setClient first there).2 (first c (List.mem_of_getElem? there))) trivial
    · cases taken
  | writer i result =>
    obtain ⟨c, there, taken⟩ := Option.bind_eq_some_iff.1 taken
    obtain ⟨c', next, rfl⟩ := Option.map_eq_some_iff.1 taken
    obtain ⟨cipher, loop, x, running, accepts, shape⟩ := Client.writerStep_writes next
    have foreign : ∀ b ∈ tagged .iq x, b.1 ≠ .magic := fun b member => by simp [origin_of_tagged member]
    have stage := (inv c (List.mem_of_getElem? there)).stage
    rw [magicFirst_setClient_iff first there (by rw [shape]) foreign, show tagged .iq x ≠ [] ↔ x ≠ [] by simp [tagged],
      accepts]
    constructor
    · intro sent d cipher' loop' b bs n there' _ running' point written
      obtain rfl : c = d := Option.some.inj (there.symm.trans there')
      rw [running] at running'
      cases running'
      exact sent ⟨b, bs, n, point, written⟩
    · rintro after ⟨b, bs, n, point, written⟩
      by_cases proxy : c.mode = .proxyMaster
      · exact stage.sent_of_spawned (.inl ⟨proxy, by simp [running]⟩)
      · exact after c cipher loop b bs n there proxy running point written
  | control i result =>
    obtain ⟨c, there, taken⟩ := Option.bind_eq_some_iff.1 taken
    obtain ⟨c', next, rfl⟩ := Option.map_eq_some_iff.1 taken
    obtain ⟨x, y, -, inside, accepts, answers, shape⟩ := Client.controlStep_writes next
    have here := inv c (List.mem_of_getElem? there)
    have foreign : ∀ b ∈ x, b.1 ≠ .magic := fun b member => here.foreign b (inside b member)
    rw [magicFirst_setClient_iff first there (by rw [shape]) foreign, accepts]
    constructor
    · rintro sent d n there' - - written
      obtain rfl : c = d := Option.some.inj (there.symm.trans there')
      exact sent ⟨n, written⟩
    · rintro after ⟨n, written⟩
      obtain ⟨on, single | serve⟩ := here.answering answers
      · exact after c n there single answers written
      · exact here.stage.sent_of_spawned (.inr ⟨serve, on⟩)

/-- **The magic packet comes first, in every state of a run, exactly when no sample writer of
`run_serve_multi` or of a slave, and no control thread of `run_serve_single`, writes before the
socket has accepted all of it.** This is so with every `--tcp-buffers`. -/
theorem magic_first_iff [ChaCha] (key : Option Key) (tcpBuffers : Nat) (magic : Bytes 12) (capacity : Nat)
    (acts : List AdmitAct) :
    Always (step key tcpBuffers magic) (fun s => ∀ c ∈ s.clients, MagicFirst magic c.out) (start capacity) acts ↔
      Along (step key tcpBuffers magic) AfterMagic (start capacity) acts := by
  refine always_iff_along (I := Inv magic) (fun s a s' inv taken => inv.step taken)
    (fun s a s' inv first taken => magicFirst_step_iff inv first taken) ?_ ?_
  · intro c member
    simp [start] at member
  · intro c member
    simp [start] at member

/-- A master of `run_serve_multi` without a key: its writer is spawned first, and takes a buffer
before the accepting thread flushes the packet. -/
def samplesFirstActs : List AdmitAct :=
  [.newClient .serveMaster, .main 0 (.ok 0), .main 0 (.ok 0), .send [1, 2], .writer 0 (.ok 0), .writer 0 (.ok 0),
    .writer 0 (.ok 2), .main 0 (.ok 12)]

/-- With the default `--tcp-buffers`, the packet comes after the samples. -/
theorem samples_before_magic :
    letI := zeroChaCha
    ∃ s, run (step none 512000 magicPacket) (start defaultBroadcastCapacity) samplesFirstActs = some s ∧
      ¬∀ c ∈ s.clients, MagicFirst magicPacket c.out := by
  let _ := zeroChaCha
  have clients : (run (step none 512000 magicPacket) (start defaultBroadcastCapacity) samplesFirstActs).map
      (fun s => s.clients.map Client.out) = some [tagged .iq [1, 2] ++ tagged .magic magicPacket.toList] := by decide
  obtain ⟨s, reached, facts⟩ := Option.map_eq_some_iff.1 clients
  refine ⟨s, reached, fun all => ?_⟩
  obtain ⟨c, member, out⟩ := List.mem_map.1 (facts ▸ List.mem_singleton_self _)
  have first := all c member
  rw [out] at first
  revert first
  simp only [MagicFirst]
  decide

/-- A slave, with a `--tcp-buffers` that cannot hold the packet: its socket takes three bytes and then nothing
until the timeout, and the rest of the packet is lost. -/
example :
    letI := zeroChaCha
    (run (step none 12 magicPacket) (start defaultBroadcastCapacity)
      [.newClient .slave, .main 0 (.ok 0), .main 0 (.ok 3), .main 0 (.error .wouldBlock), .main 0 (.ok 0), .main 0 (.ok 0),
        .main 0 (.ok 0), .send [1, 2], .writer 0 (.ok 0), .writer 0 (.ok 0), .writer 0 (.ok 2)]).map
      (fun s => s.clients.map Client.out) = some [tagged .magic (magicPacket.toList.take 3) ++ tagged .iq [1, 2]] := by
  decide

end Admission

end RtlTcp
