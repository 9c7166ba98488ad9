import RtlTcp.Lib.Transition
import RtlTcp.Lib.Wire
import RtlTcp.Connect
import RtlTcp.Main.ProxyControl
import RtlTcp.Main.Session

/-!
# The handshake between a proxy and its upstream

`connect_upstream` and the server's control thread talk over two streams of bytes: probe,
acknowledgement, the proxy's nonce, the server's nonce. The acknowledgement does not say whether
the server expects a nonce after it, and the proxy gives up waiting for it after 500 ms, so each
end decides alone whether there is an exchange. Here are the two ends with the bytes between them,
what it means that they agree, and the condition on the steps under which they do.
-/

namespace RtlTcp
set_option autoImplicit false
open ByteIo Transition

/-! ## The two ends and what is on the way between them -/

/-- Which code of the proxy wrote a byte to the upstream socket. -/
inductive UpOrigin where
  | probe
  | nonce
  | command
  deriving DecidableEq, Repr

/-- What a step of `connect_upstream` sends. -/
def ConnectThread.output (c : ConnectThread) (env : ConnectEnv) (partly : Nat) : Wire UpOrigin :=
  match c.point with
  | .probing _ => marked .probe (delivered RtlTcp.probe env.probeSent partly)
  | .sendingNonce _ _ => marked .nonce (delivered env.myNonce.toList env.nonceSent partly)
  | _ => []

/-- The write cipher of a connection when `connect_upstream` returns it. -/
def ConnectThread.cipher (c : ConnectThread) : Option ChaCha20 :=
  match c.point with
  | .connected _ _ encryptionKey => writeCipher encryptionKey
  | _ => none

/-- `connect_upstream` has returned an error. -/
def ConnectThread.hasFailed (c : ConnectThread) : Bool :=
  match c.point with
  | .failed _ => true
  | _ => false

/-- A proxy and the control thread of its upstream. `cipher` is the shared write cipher of
`run_proxy_multi`. `frames` has every frame that the server has read, with the origins of its
bytes and the opcode it was decrypted to, and `nonceBytes` the origins of what it has read as a
nonce. -/
structure Handshake where
  proxy : ConnectThread
  cipher : Option ChaCha20
  server : ControlThread
  up : Wire UpOrigin
  down : SocketLog
  frames : List (List UpOrigin × UInt8)
  nonceBytes : List UpOrigin

namespace Handshake

/-- What can happen next: a step of `connect_upstream`, a command that the proxy forwards over
its connection, a step of the control thread, or samples from the server. A read meets `n`
bytes and then the failure `cut`; a failed write delivers the first `partly` bytes. -/
inductive Act where
  | proxy (env : ConnectEnv) (n : Nat) (cut : ErrorKind) (partly : Nat)
  | command (buf : Frame) (sent : Except ErrorKind Unit) (partly : Nat)
  | server (env : Env) (n : Nat) (cut : ErrorKind) (partly : Nat)
  | samples (bytes : List UInt8)

/-- The magic packet, with the samples that the writer has put before each of its bytes. -/
def greeting : (samples : List (List UInt8)) → (packet : List UInt8) → SocketLog
  | before :: samples, b :: packet => tagged .iq before ++ (.magic, b) :: greeting samples packet
  | _, packet => tagged .magic packet

/-- The server has accepted the connection and written the magic packet. The sample writer was
spawned before that, so samples may precede the packet or split it, and with a key the nonces of an earlier
master may still be there. -/
def start (agcState : AgcState) (rateLimiter : RateLimiter) (nonces : Option (Nonce × Nonce)) (samples : List (List UInt8)) :
    Handshake where
  proxy := ⟨.connecting, ⟨[], []⟩⟩
  cipher := none
  server := ⟨.reading, { MasterControl.start [] agcState rateLimiter with encryptionNonces := nonces }⟩
  up := []
  down := greeting samples magicPacket.toList
  frames := []
  nonceBytes := []

/-- The proxy's end with what its next read meets. -/
def connecting (s : Handshake) (n : Nat) (cut : ErrorKind) : ConnectThread :=
  { s.proxy with stream := { s.proxy.stream with inbound := arriving s.down n cut } }

/-- The server's end with what its next read meets. -/
def serving (s : Handshake) (n : Nat) (cut : ErrorKind) : ControlThread :=
  { s.server with thread := { s.server.thread with stream := arriving s.up n cut } }

section
variable [ChaCha]

/-- The frame the control thread reads next, if all of it arrives. -/
def nextFrame (s : Handshake) (n : Nat) (cut : ErrorKind) : Option Frame :=
  match s.server.point, readExact commandHeaderSize (arriving s.up n cut) with
  | .reading, (.ok raw, _) => some (s.server.thread.decrypt raw).1
  | _, _ => none

def proxyStep (pk : Option Key) (s : Handshake) (env : ConnectEnv) (n : Nat) (cut : ErrorKind) (partly : Nat) : Handshake :=
  let next := (s.connecting n cut).step pk env
  { s with
    proxy := next
    cipher := next.cipher
    up := s.up ++ (s.connecting n cut).output env partly
    down := remaining s.down n next.stream.inbound }

def serverStep (sk : Option Key) (s : Handshake) (env : Env) (n : Nat) (cut : ErrorKind) (partly : Nat) : Handshake :=
  let next := (s.serving n cut).step sk env
  let up := remaining s.up n next.thread.stream
  let taken := (s.up.take (s.up.length - up.length)).map Prod.fst
  { s with
    server := next
    up := up
    down := s.down ++ (s.serving n cut).output env partly
    frames := match s.nextFrame n cut with
      | some buf => s.frames ++ [(taken, buf.cmd)]
      | none => s.frames
    nonceBytes := match s.server.point with
      | .exchanging => s.nonceBytes ++ taken
      | _ => s.nonceBytes }

/-- The step function: the proxy's key is `pk` and the server's `sk`. The control loop of
`run_serve_single` is the case `sk = none`, `SingleControl.turn_asMaster`. -/
def step (pk sk : Option Key) (s : Handshake) : Act → Option Handshake
  | .proxy env n cut partly => if s.proxy.result.isNone then some (s.proxyStep pk env n cut partly) else none
  | .command buf sent partly =>
    match s.proxy.point with
    | .connected .. =>
      let (encrypted, cipher) := ProxyControl.encrypt s.cipher buf
      some { s with cipher := cipher, up := s.up ++ marked .command (delivered encrypted.toList sent partly) }
    | _ => none
  | .server env n cut partly => some (s.serverStep sk env n cut partly)
  | .samples bytes => some { s with down := s.down ++ tagged .iq bytes }

end

/-- A cipher's key and nonce, whatever it has encrypted so far. -/
def identity (cipher : Option ChaCha20) : Option (Key × Nonce) := cipher.map fun c => (c.key, c.nonce)

/-- A frame of commands, or the probe, taken for one. -/
def FrameFits (frame : List UpOrigin × UInt8) : Prop :=
  (∀ origin ∈ frame.1, origin = .command) ∨ (frame.1 = List.replicate 5 .probe ∧ frame.2 = cmdChainDetect)

/-- The two ends agree. Between the probe and the assignment of its ciphers the server handles
no command, so the ciphers are compared when it is at the head of its loop. -/
structure Agreed (s : Handshake) : Prop where
  ciphers : ∀ conn, s.proxy.result = some (.ok conn) → s.server.point = .reading →
    identity conn.writeCipher = identity s.server.thread.readCipher
  frames : ∀ frame ∈ s.frames, FrameFits frame
  nonces : ∀ origin ∈ s.nonceBytes, origin ≠ .command

/-! ## The condition -/

/-- What arrives while the proxy waits for the acknowledgement is what the keys need: five
bytes that look like one only if the keys are the same, and from the control thread if there is
a key, or else a server without a key. -/
def AckFits (pk sk : Option Key) (arrived : SocketLog) : Prop :=
  if 5 ≤ arrived.length ∧ arrived.head?.map Prod.snd = some cmdChainDetect then
    sk = pk ∧ (sk = none ∨ ∀ b ∈ arrived.take 5, b.1 = .ack)
  else sk = none

/-- No failure falls within a probe that was sent whole. -/
def ProbeWhole (up : Wire UpOrigin) (n : Nat) : Prop :=
  up.head?.map Prod.fst = some .probe → n = 0 ∨ 5 ≤ n ∨ up.length < 5

/-- All of the proxy's nonce arrives, or nothing more will come after what does. -/
def NonceWhole (s : Handshake) (n : Nat) : Prop :=
  12 ≤ (s.up.take n).length ∨ s.proxy.hasFailed = true ∧ s.up.length ≤ n

section
variable [ChaCha]

/-- The server takes a command for a probe. -/
def takenForProbe (s : Handshake) (env : Env) (n : Nat) (cut : ErrorKind) : Bool :=
  ((s.up.take 5).all fun b => b.1 = .command) && !env.shouldExit && (s.server.thread.rateLimiter.check env.now).1 &&
    (s.nextFrame n cut).any fun buf => buf.cmd = cmdChainDetect

/-- The condition on a step. -/
def Orderly (pk sk : Option Key) (s : Handshake) : Act → Prop
  | .proxy _ n _ _ =>
    match s.proxy.point with
    | .awaitingAck _ => AckFits pk sk (s.down.take n)
    | _ => True
  | .server env n cut _ =>
    match s.server.point with
    | .reading => ProbeWhole s.up n ∧ (sk = none ∨ s.takenForProbe env n cut = false)
    | .exchanging => s.NonceWhole n
    | .replying _ => env.nonceSent.isOk = true
    | _ => True
  | _ => True

instance decidableOrderly (pk sk : Option Key) (s : Handshake) (a : Act) : Decidable (Orderly pk sk s a) := by
  unfold Orderly
  cases a with
  | proxy env n cut partly => cases s.proxy.point <;> dsimp only [AckFits] <;> infer_instance
  | server env n cut partly => cases s.server.point <;> dsimp only [ProbeWhole, NonceWhole] <;> infer_instance
  | command | samples => exact .isTrue trivial

end

end Handshake

end RtlTcp
