import RtlTcp.Lib.Duplex
import RtlTcp.Connect
import RtlTcp.Main.MasterControl

/-!
# `encryption.rs`: two parties in a nonce exchange

`nonce_exchange` sends and then receives, `server_nonce_exchange` receives and then sends. Here each
is a script over a duplex channel, so that the writes and reads of the two parties, and the parts in
which the bytes travel, come in any order. `nonce_pairing` says what the two have in the end, and
that they get there.
-/

namespace RtlTcp
set_option autoImplicit false
open ByteIo Duplex

/-- The two functions a peer may run. -/
inductive Exchanger where
  | nonceExchange
  | serverNonceExchange
  deriving DecidableEq, Repr

/-- Their accesses to the stream. -/
def Exchanger.script (myNonce : Nonce) : Exchanger → List Op
  | .nonceExchange => [.writeAll myNonce.toList, .readExact 12]
  | .serverNonceExchange => [.readExact 12, .writeAll myNonce.toList]

/-- Their results on what arrives, when the write succeeds. -/
def Exchanger.exchange (inbound : List Arrival) (myNonce : Nonce) : Exchanger → Exchange
  | .nonceExchange => RtlTcp.nonceExchange inbound myNonce (.ok ())
  | .serverNonceExchange => RtlTcp.serverNonceExchange inbound myNonce (.ok ())

section
variable (x : Exchanger) (myNonce : Nonce)

theorem sizes_script : ∀ o ∈ x.script myNonce, 0 < o.size := by
  cases x <;> simp [Exchanger.script, Op.size, Op.output, Op.input]

theorem output_script : output (x.script myNonce) = myNonce.toList := by
  cases x <;> simp [Exchanger.script, Op.output]

theorem input_script : input (x.script myNonce) = 12 := by
  cases x <;> simp [Exchanger.script, Op.input]

/-- An exchange takes twelve bytes and leaves the others. -/
theorem exchange_bytes (peerNonce : Nonce) (later : List UInt8) :
    x.exchange ((peerNonce.toList ++ later).map .byte) myNonce =
      ⟨.ok (myNonce, peerNonce), later.map .byte, [(myNonce.toList, .ok ())]⟩ := by
  have taken := readExact_bytes peerNonce (later.map .byte)
  rw [← List.map_append] at taken
  cases x with
  | nonceExchange => simp only [Exchanger.exchange, RtlTcp.nonceExchange, taken]
  | serverNonceExchange => simp only [Exchanger.exchange, RtlTcp.serverNonceExchange, taken]

end

/-! ## The ciphers on both sides -/

/-- With a key, a connection to a chain has a cipher for each nonce. -/
theorem connectUpstream_ciphers {key : Key} {env : ConnectEnv} {inbound rest : List Arrival} {magic : Bytes 12}
    {conn : UpstreamConnection} (returned : connectUpstream (some key) env inbound = .ok conn) (chain : conn.isChain = true)
    (packet : readExact 12 inbound = (.ok magic, rest)) :
    ∃ peerNonce, readExact 12 (readAck rest).2 = (.ok peerNonce, conn.stream.inbound) ∧
      conn.writeCipher = some (.new key env.myNonce) ∧ conn.readCipher = some (.new key peerNonce) := by
  obtain ⟨rest', encryptionKey, connected⟩ := connectUpstream_ok returned
  obtain ⟨-, rfl⟩ := Prod.mk.inj (packet.symm.trans connected.packet)
  have exchanged := connected.exchanged
  rw [chain] at exchanged
  obtain ⟨peerNonce, taken, rfl⟩ := handshake_some exchanged
  exact ⟨peerNonce, taken, connected.writeCipher, connected.readCipher⟩

/-- The server's ciphers, and the nonces that its writer is made with. -/
theorem chainDetect_ciphers (key : Key) {s : MasterControl} {env : Env} {peerNonce : Nonce} {later : List UInt8}
    (inbound : s.stream = (peerNonce.toList ++ later).map .byte) (sent : env.nonceSent = .ok ()) :
    (s.chainDetect (some key) env).readCipher = some (.new key peerNonce) ∧
      (s.chainDetect (some key) env).writeCipher = some (.new key env.myNonce) ∧
      (s.chainDetect (some key) env).encryptionNonces = some (env.myNonce, peerNonce) := by
  have exchanged := exchange_bytes .serverNonceExchange env.myNonce peerNonce later
  simp only [Exchanger.exchange] at exchanged
  simp only [MasterControl.chainDetect, inbound, sent, exchanged, and_self]

/-- `connect_upstream` with the bytes `toProxy` after the acknowledgement, and a server with the
bytes `toServer` after the probe, have ciphers that fit: what one end writes with, the other reads
with. The server's writer thread takes its nonce from `encryption_nonces`. -/
def CiphersFit (mine theirs : Nonce) (toProxy toServer : List UInt8) : Prop :=
  ∀ (key : Key) (env : ConnectEnv) (inbound rest : List Arrival) (magic : Bytes 12) (conn : UpstreamConnection)
    (s : MasterControl) (serverEnv : Env), env.myNonce = mine →
    connectUpstream (some key) env inbound = .ok conn → conn.isChain = true →
    readExact 12 inbound = (.ok magic, rest) → (readAck rest).2 = toProxy.map .byte →
    serverEnv.myNonce = theirs → serverEnv.nonceSent = .ok () → s.stream = toServer.map .byte →
    let server := s.chainDetect (some key) serverEnv
    conn.writeCipher = server.readCipher ∧ conn.readCipher = server.writeCipher ∧
      ∃ myNonce peerNonce, server.encryptionNonces = some (myNonce, peerNonce) ∧
        ∀ {W : Type} (inner : W), conn.readCipher = some (EncryptedWriter.new inner key myNonce).cipher

theorem ciphersFit_of_nonces (mine theirs : Nonce) (laterTheirs laterMine : List UInt8) :
    CiphersFit mine theirs (theirs.toList ++ laterTheirs) (mine.toList ++ laterMine) := by
  rintro key env inbound rest magic conn s serverEnv rfl returned chain packet toProxy rfl sent toServer
  obtain ⟨peerNonce, taken, writeCipher, readCipher⟩ := connectUpstream_ciphers returned chain packet
  obtain ⟨serverRead, serverWrite, nonces⟩ := chainDetect_ciphers key toServer sent
  rw [toProxy, List.map_append, readExact_bytes] at taken
  obtain rfl := Except.ok.inj (Prod.mk.inj taken).1
  refine ⟨?_, ?_, serverEnv.myNonce, env.myNonce, nonces, fun inner => readCipher⟩
  · rw [writeCipher, serverRead]
  · rw [readCipher, serverWrite]

/-! ## The pairing -/

/-- What both parties have when both exchanges have returned `Ok`: one pair is the swap of the
other, each has read the twelve bytes of the other's nonce and left what the other sent after
them, and the ciphers made from the nonces fit. -/
structure Paired (peer : Exchanger) (mine theirs : Nonce) (d : System) : Prop where
  left : Exchanger.nonceExchange.exchange (d.right.sent.map .byte) mine =
    ⟨.ok (mine, theirs), d.toLeft.map .byte, [(mine.toList, .ok ())]⟩
  right : peer.exchange (d.left.sent.map .byte) theirs =
    ⟨.ok (theirs, mine), d.toRight.map .byte, [(theirs.toList, .ok ())]⟩
  consumedLeft : d.left.received = theirs.toList ∧ d.left.received.length = 12 ∧
    d.right.sent = d.left.received ++ d.toLeft
  consumedRight : d.right.received = mine.toList ∧ d.right.received.length = 12 ∧
    d.left.sent = d.right.received ++ d.toRight
  ciphers : CiphersFit mine theirs d.right.sent d.left.sent

/-- **Nonce pairing.** In every interleaving of `nonce_exchange` with `nonce_exchange` or with
`server_nonce_exchange`, over every split of the bytes: when both have returned `Ok` they are
paired; as long as neither has failed and one of them has not returned, one of them can go on with
a write or a read of its own; and every such write or read leaves less to be done, so that the two
get to their ends. -/
theorem nonce_pairing (peer : Exchanger) (mine theirs : Nonce) (labels : List (Side × Act)) (d : System)
    (reached : Transition.run Duplex.step
      (.start (Exchanger.nonceExchange.script mine) (peer.script theirs)) labels = some d) :
    (d.left.Done → d.right.Done → Paired peer mine theirs d) ∧
      (d.left.failed = false → d.right.failed = false → ¬(d.left.todo = [] ∧ d.right.todo = []) → CanMove d) ∧
      ∀ side a d', a.ofScript = true → Duplex.step d (side, a) = some d' → work d' < work d := by
  have linked := linked_run (sizes_script .nonceExchange mine) (sizes_script peer theirs) reached
  refine ⟨?_, ?_, fun side a d' own taken => work_step own taken⟩
  · rintro ⟨endedLeft, -⟩ ⟨endedRight, -⟩
    obtain ⟨readRight, sentLeft⟩ := delivered_of_done linked.left linked.right linked.toRight endedLeft endedRight
      (by rw [input_script, output_script, List.Vector.toList_length])
    obtain ⟨readLeft, sentRight⟩ := delivered_of_done linked.right linked.left linked.toLeft endedRight endedLeft
      (by rw [input_script, output_script, List.Vector.toList_length])
    rw [output_script] at readLeft readRight sentLeft sentRight
    constructor
    case left => rw [sentRight, exchange_bytes]
    case right => rw [sentLeft, exchange_bytes]
    case consumedLeft => exact ⟨readLeft, by rw [readLeft, List.Vector.toList_length], linked.toLeft⟩
    case consumedRight => exact ⟨readRight, by rw [readRight, List.Vector.toList_length], linked.toRight⟩
    case ciphers =>
      rw [sentLeft, sentRight]
      exact ciphersFit_of_nonces mine theirs d.toLeft d.toRight
  · intro running running' busy
    refine canMove_of_sendFirst linked ?_ ?_ running running' busy
    · rw [input_script, List.Vector.toList_length]
    · rw [output_script, List.Vector.toList_length]

def onesNonce : Nonce := ⟨List.replicate 12 1, rfl⟩

/-- A proxy and a server: the nonces travel in parts, and each side sends a byte after its own. -/
def splitExchange : List (Side × Act) :=
  [(.left, .write 4), (.right, .read 2), (.left, .write 11), (.right, .read 11), (.right, .write 0), (.left, .read 3),
    (.right, .write 11), (.right, .later [7]), (.left, .read 20), (.left, .later [9])]

/-- The two after `splitExchange`. -/
def splitExchanged : System :=
  ⟨⟨[], false, onesNonce.toList, zeroNonce.toList ++ [9]⟩, ⟨[], false, zeroNonce.toList, onesNonce.toList ++ [7]⟩, [7], [9]⟩

/-- The two are paired, and the proxy's connection and the server that they come from exist. -/
theorem split_exchange_paired :
    let inbound : List Arrival := (magicPacket.toList ++ (chainDetectAck ++ splitExchanged.right.sent)).map .byte
    let start := MasterControl.start (splitExchanged.left.sent.map .byte) .new (.new 0 0 0)
    let env := { MasterControl.calmEnv 0 with myNonce := onesNonce }
    Paired .serverNonceExchange zeroNonce onesNonce splitExchanged ∧
      ∃ conn, connectUpstream (some zeroKey) calmConnect inbound = .ok conn ∧ conn.isChain = true ∧
        conn.writeCipher = (start.chainDetect (some zeroKey) env).readCipher ∧ conn.writeCipher.isSome = true := by
  intro inbound start env
  have paired := (nonce_pairing .serverNonceExchange zeroNonce onesNonce splitExchange splitExchanged (by decide)).1
    ⟨rfl, rfl⟩ ⟨rfl, rfl⟩
  have connected : ∃ conn, connectUpstream (some zeroKey) calmConnect inbound = .ok conn ∧ conn.isChain = true ∧
      conn.writeCipher.isSome = true := ⟨_, rfl, rfl, rfl⟩
  obtain ⟨conn, returned, chain, ciphered⟩ := connected
  have fits := paired.ciphers zeroKey calmConnect inbound _ _ conn start env rfl returned chain rfl rfl rfl rfl rfl
  exact ⟨paired, conn, returned, chain, fits.1, ciphered⟩

end RtlTcp
