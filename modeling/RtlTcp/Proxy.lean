import RtlTcp.Lib.Transition
import RtlTcp.Lib.Framing
import RtlTcp.Control
import RtlTcp.Encryption

/-!
# `proxy.rs`: the upstream connection, and its reader thread

`connect_upstream` takes the magic packet, sends the chain-detect probe and waits for the
acknowledgement on the stream that also carries the samples. The upstream reader thread of
`run_proxy_multi` broadcasts whatever it reads after that. `plain_transparency_iff` says when
the two together pass the samples on unharmed, without a key.
-/

namespace RtlTcp
set_option autoImplicit false
open ByteIo Transition

/-- The upstream socket: what is still to be read and what was passed to `write_all`. -/
structure UpstreamSocket where
  inbound : List Arrival
  written : List SocketWrite

structure UpstreamConnection where
  stream : UpstreamSocket
  isChain : Bool
  readCipher : Option ChaCha20
  writeCipher : Option ChaCha20
  magicPacket : Bytes 12

/-- How the system calls of `connect_upstream` end, the nonce that it generates, and the
`Display` of an input/output error. -/
structure ConnectEnv where
  connected : Except ErrorKind Unit
  timeoutSet : Except ErrorKind Unit
  probeSent : Except ErrorKind Unit
  plainTimeoutSet : Except ErrorKind Unit
  myNonce : Nonce
  nonceSent : Except ErrorKind Unit
  streamTimeoutSet : Except ErrorKind Unit
  display : ErrorKind → String

/-- The chain-detect probe: opcode and "PROX". -/
def probe : List UInt8 := [cmdChainDetect, 0x50, 0x52, 0x4F, 0x58]

/-- The wait for the acknowledgement: any five bytes that start with the opcode are one. -/
def readAck (inbound : List Arrival) : Bool × List Arrival :=
  match readExact 5 inbound with
  | (.ok ack, rest) => (ack.head == cmdChainDetect, rest)
  | (.error _, rest) => (false, rest)

/-- The encrypted handshake, if the upstream is a chain and there is a key. -/
def handshake (key : Option Key) (env : ConnectEnv) (isChain : Bool) (stream : UpstreamSocket) :
    Except RtlTcpError (Option (Key × Nonce × Nonce) × UpstreamSocket) :=
  match isChain, key with
  | true, some encKey =>
    let exchange := nonceExchange stream.inbound env.myNonce env.nonceSent
    match exchange.result with
    | .ok (myNonce, peerNonce) =>
      .ok (some (encKey, myNonce, peerNonce), ⟨exchange.rest, stream.written ++ exchange.written⟩)
    | .error e => .error (.network s!"nonce exchange failed: {env.display e}")
  | _, _ => .ok (none, stream)

/-- `connect_upstream`; `inbound` is what the upstream will send. -/
def connectUpstream (key : Option Key) (env : ConnectEnv) (inbound : List Arrival) :
    Except RtlTcpError UpstreamConnection := do
  env.connected.mapError fun e => .network s!"failed to connect upstream: {env.display e}"
  env.timeoutSet.mapError .io
  let (packet, inbound) := readExact 12 inbound
  let magic ← packet.mapError fun e => .network s!"failed to read upstream magic: {env.display e}"
  env.probeSent.mapError .io
  let (isChain, inbound) := readAck inbound
  (if isChain then .ok () else env.plainTimeoutSet).mapError .io
  let (encryptionKey, stream) ← handshake key env isChain ⟨inbound, [(probe, env.probeSent)]⟩
  env.streamTimeoutSet.mapError .io
  let (readCipher, writeCipher) := match encryptionKey with
    | some (encKey, myNonce, peerNonce) => (some (ChaCha20.new encKey peerNonce), some (ChaCha20.new encKey myNonce))
    | none => (none, none)
  return ⟨stream, isChain, readCipher, writeCipher, magic⟩

/-- Everything up to the wait for the acknowledgement succeeds. -/
structure Probed (env : ConnectEnv) (inbound : List Arrival) (magic : Bytes 12) (rest : List Arrival) : Prop where
  connected : env.connected = .ok ()
  timeoutSet : env.timeoutSet = .ok ()
  packet : readExact 12 inbound = (.ok magic, rest)
  probeSent : env.probeSent = .ok ()

/-- How `connect_upstream` has come to a connection: `rest` is what was to be read after the magic
packet, and `encryptionKey` the outcome of the handshake. -/
structure Connected (key : Option Key) (env : ConnectEnv) (inbound : List Arrival) (conn : UpstreamConnection)
    (rest : List Arrival) (encryptionKey : Option (Key × Nonce × Nonce)) : Prop
    extends Probed env inbound conn.magicPacket rest where
  isChain : conn.isChain = (readAck rest).1
  exchanged : handshake key env conn.isChain ⟨(readAck rest).2, [(probe, env.probeSent)]⟩ = .ok (encryptionKey, conn.stream)
  streamTimeoutSet : env.streamTimeoutSet = .ok ()
  readCipher : conn.readCipher = encryptionKey.map fun (encKey, _, peerNonce) => .new encKey peerNonce
  writeCipher : conn.writeCipher = encryptionKey.map fun (encKey, myNonce, _) => .new encKey myNonce

theorem connectUpstream_ok {key : Option Key} {env : ConnectEnv} {inbound : List Arrival} {conn : UpstreamConnection}
    (h : connectUpstream key env inbound = .ok conn) : ∃ rest encryptionKey, Connected key env inbound conn rest encryptionKey := by
  obtain ⟨⟨⟩, connected, h⟩ := bind_eq_ok h
  obtain ⟨⟨⟩, timeoutSet, h⟩ := bind_eq_ok h
  obtain ⟨magic, packet, h⟩ := bind_eq_ok h
  obtain ⟨⟨⟩, probeSent, h⟩ := bind_eq_ok h
  obtain ⟨-, -, h⟩ := bind_eq_ok h
  obtain ⟨⟨encryptionKey, stream⟩, exchanged, h⟩ := bind_eq_ok h
  obtain ⟨⟨⟩, streamTimeoutSet, h⟩ := bind_eq_ok h
  cases h
  refine ⟨_, encryptionKey, ⟨⟨mapError_eq_ok connected, mapError_eq_ok timeoutSet, Prod.ext (mapError_eq_ok packet) rfl,
    mapError_eq_ok probeSent⟩, rfl, exchanged, mapError_eq_ok streamTimeoutSet, ?_, ?_⟩⟩
  · cases encryptionKey <;> rfl
  · cases encryptionKey <;> rfl

theorem handshake_none {env : ConnectEnv} {isChain : Bool} {stream stream' : UpstreamSocket}
    {encryptionKey : Option (Key × Nonce × Nonce)}
    (h : handshake none env isChain stream = .ok (encryptionKey, stream')) : stream' = stream := by
  cases isChain <;> cases h <;> rfl

/-- Without a key, a connection has read the magic packet and waited for five bytes. -/
theorem connectUpstream_none {env : ConnectEnv} {inbound : List Arrival} {conn : UpstreamConnection}
    (h : connectUpstream none env inbound = .ok conn) :
    ∃ rest, readExact 12 inbound = (.ok conn.magicPacket, rest) ∧ conn.stream.inbound = (readExact 5 rest).2 := by
  obtain ⟨rest, encryptionKey, connected⟩ := connectUpstream_ok h
  refine ⟨rest, connected.packet, ?_⟩
  rw [handshake_none connected.exchanged]
  simp only [readAck]
  split <;> simp [*]

theorem handshake_some {key : Key} {env : ConnectEnv} {stream stream' : UpstreamSocket}
    {encryptionKey : Option (Key × Nonce × Nonce)}
    (h : handshake (some key) env true stream = .ok (encryptionKey, stream')) :
    ∃ peerNonce, readExact 12 stream.inbound = (.ok peerNonce, stream'.inbound) ∧
      encryptionKey = some (key, env.myNonce, peerNonce) := by
  cases sent : env.nonceSent with
  | error e => simp only [handshake, nonceExchange, sent] at h; cases h
  | ok =>
    match taken : readExact 12 stream.inbound with
    | (.error e, rest) => simp only [handshake, nonceExchange, sent, taken] at h; cases h
    | (.ok peerNonce, rest) =>
      simp only [handshake, nonceExchange, sent, taken] at h
      cases h
      exact ⟨peerNonce, rfl, rfl⟩

/-- With a key, a connection to a chain has read the magic packet, the acknowledgement and a nonce. -/
theorem connectUpstream_chain {key : Key} {env : ConnectEnv} {inbound : List Arrival} {conn : UpstreamConnection}
    (h : connectUpstream (some key) env inbound = .ok conn) (chain : conn.isChain = true) :
    conn.stream.inbound <:+ inbound ∧ ∃ (ack : Bytes 5) (peerNonce : Nonce), bytesOf inbound =
      conn.magicPacket.toList ++ (ack.toList ++ (peerNonce.toList ++ bytesOf conn.stream.inbound)) := by
  obtain ⟨rest, encryptionKey, connected⟩ := connectUpstream_ok h
  have packet := connected.packet
  have isChain := connected.isChain
  have exchanged := connected.exchanged
  rw [chain] at isChain exchanged
  obtain ⟨peerNonce, exchange, -⟩ := handshake_some exchanged
  match answer : readExact 5 rest with
  | (.error e, after) => simp [readAck, answer] at isChain
  | (.ok ack, after) =>
    have waited : (readAck rest).2 = after := by simp only [readAck, answer]
    rw [waited] at exchange
    have parts := bytesOf_readExact_ok packet
    rw [bytesOf_readExact_ok answer, bytesOf_readExact_ok exchange] at parts
    have first := readExact_suffix 12 inbound
    have second := readExact_suffix 5 rest
    have third := readExact_suffix 12 after
    rw [packet] at first
    rw [answer] at second
    rw [exchange] at third
    exact ⟨third.trans (second.trans first), ack, peerNonce, parts⟩

/-- What one iteration of the upstream reader observes: the exit flag, and how many bytes the
next `read` is willing to deliver at most. -/
structure ReaderEnv where
  shouldExit : Bool
  most : Nat

/-- The upstream reader thread: its socket, the buffers it has broadcast, and whether it has
asked for the shutdown. -/
structure UpstreamReader where
  stream : List Arrival
  broadcast : List (List UInt8)
  cancelled : Bool

namespace UpstreamReader

def start (stream : List Arrival) : UpstreamReader := ⟨stream, [], false⟩

/-- The length of the reader's buffer. -/
def bufferSize : Nat := 512 * 1024

/-- One iteration of the thread. -/
def turn (s : UpstreamReader) (env : ReaderEnv) : Flow × UpstreamReader :=
  if env.shouldExit then (.leave, s)
  else
    match read (min (env.most + 1) bufferSize) s.stream with
    | (.ok [], rest) => (.leave, { s with stream := rest })
    | (.ok (b :: bs), rest) => (.again, { s with stream := rest, broadcast := s.broadcast ++ [b :: bs] })
    | (.error e, rest) =>
      if e == .wouldBlock || e == .timedOut then (.again, { s with stream := rest })
      else (.leave, { s with stream := rest, cancelled := true })

/-- The bytes broadcast so far and the bytes still to be read. -/
def throughput (s : UpstreamReader) : List UInt8 := s.broadcast.flatten ++ bytesOf s.stream

/-- The reader neither loses nor adds nor reorders a byte. -/
theorem throughput_turn (s : UpstreamReader) (env : ReaderEnv) : (s.turn env).2.throughput = s.throughput := by
  unfold turn
  split
  · rfl
  · split
    · rename_i rest taken
      simp [throughput, bytesOf_read_ok taken]
    · rename_i b bs rest taken
      simp [throughput, bytesOf_read_ok taken]
    · rename_i e rest taken
      split <;> simp [throughput, bytesOf_read_error taken]

theorem throughput_loop (s : UpstreamReader) (answers : List ReaderEnv) :
    (loop turn s answers).throughput = s.throughput :=
  loop_invariant (I := fun t => t.throughput = s.throughput)
    (fun t env same => (throughput_turn t env).trans same) rfl

/-- A reader that nothing stops reads to the end of a stream with timeouts. -/
theorem loop_drains {answers : List ReaderEnv} (running : ∀ env ∈ answers, env.shouldExit = false) {p : List Slot}
    {s : UpstreamReader} (follows : Follows p s.stream) (enough : s.stream.length ≤ answers.length) :
    (loop turn s answers).stream = [] := by
  induction answers generalizing s p with
  | nil => exact List.eq_nil_of_length_eq_zero (Nat.le_zero.1 enough)
  | cons env answers ih =>
    have calm := running env (List.mem_cons_self ..)
    have later := fun e member => running e (List.mem_cons_of_mem _ member)
    obtain ⟨stream, broadcast, cancelled⟩ := s
    dsimp only at follows enough
    cases follows with
    | nil =>
      have taken : turn ⟨[], broadcast, cancelled⟩ env = (.leave, ⟨[], broadcast, cancelled⟩) := by
        cases size : min (env.most + 1) bufferSize <;> simp [turn, calm, ByteIo.read, takeBytes, size]
      rw [loop_leave taken]
    | byte b rest =>
      rename_i p s
      obtain ⟨n, size⟩ : ∃ n, min (env.most + 1) bufferSize = n + 1 := ⟨min env.most (bufferSize - 1), by
        simp only [bufferSize]; omega⟩
      have taken : turn ⟨.byte b :: s, broadcast, cancelled⟩ env = (.again,
          ⟨(takeBytes n s).2, broadcast ++ [b :: (takeBytes n s).1], cancelled⟩) := by
        simp [turn, calm, ByteIo.read, takeBytes, size]
      obtain ⟨q, follows'⟩ := rest.suffix (takeBytes_suffix n s)
      have shorter := (takeBytes_suffix n s).length_le
      rw [loop_again taken]
      refine ih later follows' (Nat.le_trans shorter ?_)
      simpa using enough
    | timeout t rest =>
      rename_i p s
      have taken : turn ⟨.fail t.kind :: s, broadcast, cancelled⟩ env = (.again, ⟨s, broadcast, cancelled⟩) := by
        cases t <;> simp [turn, calm, ByteIo.read, Timeout.kind]
      rw [loop_again taken]
      exact ih later rest (Nat.le_of_succ_le_succ enough)

/-- A reader that has read everything has broadcast everything. -/
theorem broadcast_drained {answers : List ReaderEnv} (running : ∀ env ∈ answers, env.shouldExit = false) {p : List Slot}
    {stream : List Arrival} (follows : Follows p stream) (enough : stream.length ≤ answers.length) :
    (loop turn (start stream) answers).broadcast.flatten = bytesOf stream := by
  have all := throughput_loop (start stream) answers
  rw [throughput, loop_drains (s := start stream) running follows enough] at all
  simpa [bytesOf, throughput, start] using all

end UpstreamReader

/-! ## Transparency without a key -/

/-- What an upstream sends after its magic packet: its samples, with the acknowledgement after
the first `k` sample bytes if it answers the probe. -/
def upstreamBytes (iq : List UInt8) : (ack : Option Nat) → List UInt8
  | none => iq
  | some k => iq.take k ++ chainDetectAck ++ iq.drop k

/-- The probe does no harm: nothing arrives before the wait for the acknowledgement times out
and no acknowledgement follows, or five bytes arrive in time and taking them away has the same
effect as taking away the acknowledgement. -/
def ProbeHarmless (prompt : Nat) (iq : List UInt8) : (ack : Option Nat) → Prop
  | none => prompt = 0
  | some k => 5 ≤ prompt ∧ (iq.take k ++ chainDetectAck).drop 5 = iq.take k

theorem drop_upstreamBytes_iff {prompt : Nat} {iq : List UInt8} {ack : Option Nat}
    (bound : prompt ≤ (upstreamBytes iq ack).length) :
    (upstreamBytes iq ack).drop (min 5 prompt) = iq ↔ ProbeHarmless prompt iq ack := by
  cases ack with
  | none =>
    simp only [upstreamBytes, ProbeHarmless] at bound ⊢
    constructor
    · intro same
      have size := congrArg List.length same
      rw [List.length_drop] at size
      omega
    · intro empty
      rw [empty]
      rfl
  | some k =>
    have front : 5 ≤ (iq.take k ++ chainDetectAck).length := by simp [chainDetectAck]
    have total : (upstreamBytes iq (some k)).length = iq.length + 5 := by
      simp only [upstreamBytes, List.length_append, List.length_take, List.length_drop, chainDetectAck]
      simp only [List.length_cons, List.length_nil]
      omega
    have whole : (upstreamBytes iq (some k)).drop 5 = (iq.take k ++ chainDetectAck).drop 5 ++ iq.drop k :=
      List.drop_append_of_le_length front
    simp only [ProbeHarmless]
    constructor
    · intro same
      have size := congrArg List.length same
      rw [List.length_drop, total] at size
      have five : min 5 prompt = 5 := by omega
      rw [five, whole] at same
      conv at same => rhs; rw [← List.take_append_drop k iq]
      exact ⟨by omega, List.append_cancel_right same⟩
    · rintro ⟨five, same⟩
      rw [Nat.min_eq_left five, whole, same, List.take_append_drop]

/-- **Plain proxy transparency.** Without a key, for every upstream that sends a magic packet
and samples, with an acknowledgement at any place or without one, and for every timing and
fragmentation: once the reader has read everything, it has broadcast exactly the samples if and
only if the wait for the acknowledgement did no harm. -/
theorem plain_transparency_iff (env : ConnectEnv) (p : List Slot) (arrivals : List Arrival) (follows : Follows p arrivals)
    (magic : Bytes 12) (iq : List UInt8) (ack : Option Nat)
    (sends : bytesOf arrivals = magic.toList ++ upstreamBytes iq ack) (conn : UpstreamConnection)
    (connected : connectUpstream none env arrivals = .ok conn) (answers : List ReaderEnv)
    (running : ∀ e ∈ answers, e.shouldExit = false) (enough : arrivals.length ≤ answers.length) :
    (loop UpstreamReader.turn (.start conn.stream.inbound) answers).broadcast.flatten = iq ↔
      ProbeHarmless (promptBytes (arrivals.drop 12)) iq ack := by
  obtain ⟨rest, packet, inbound⟩ := connectUpstream_none connected
  obtain ⟨shape, q, later⟩ := follows.of_readExact packet
  have dropped : arrivals.drop 12 = rest := by
    rw [shape]
    exact List.drop_left' (by simp)
  have samples : bytesOf rest = upstreamBytes iq ack := by
    have split := bytesOf_readExact_ok packet
    rw [sends] at split
    exact (List.append_inj split (by simp)).2.symm
  have left : bytesOf conn.stream.inbound = (upstreamBytes iq ack).drop (min 5 (promptBytes rest)) := by
    rw [inbound, later.bytesOf_readExact, samples]
  have suffix : conn.stream.inbound <:+ arrivals := by
    rw [inbound, shape]
    exact (readExact_suffix 5 rest).trans (List.suffix_append ..)
  obtain ⟨q', follows'⟩ := follows.suffix suffix
  rw [UpstreamReader.broadcast_drained running follows' (Nat.le_trans suffix.length_le enough), left, dropped]
  exact drop_upstreamBytes_iff (samples ▸ promptBytes_le rest)

/-- A connection on which every system call succeeds. -/
def calmConnect : ConnectEnv := ⟨.ok (), .ok (), .ok (), .ok (), zeroNonce, .ok (), .ok (), fun _ => ""⟩

/-- The acknowledgement comes at once and the samples after it, in two portions. -/
def promptAck : List Arrival :=
  (magicPacket.toList ++ chainDetectAck).map .byte ++ [.byte 1, .fail .timedOut, .byte 2]

theorem prompt_ack_transparent :
    ∃ conn, connectUpstream none calmConnect promptAck = .ok conn ∧ conn.isChain = true ∧
      (loop UpstreamReader.turn (.start conn.stream.inbound) (List.replicate 20 ⟨false, 9⟩)).broadcast.flatten = [1, 2] := by
  refine ⟨_, rfl, rfl, (plain_transparency_iff calmConnect
    (List.replicate 18 .byte ++ [.timeout .timedOut, .byte]) promptAck ?_ magicPacket [1, 2] (some 0) rfl _ rfl _
    (by decide) (by decide)).2 ⟨by decide, rfl⟩⟩
  exact (follows_bytes (magicPacket.toList ++ chainDetectAck ++ [1])).append (.timeout .timedOut (.byte 2 .nil))

/-- The samples of an upstream that ignores the probe: the first five bytes are gone. -/
def ignoredProbe : List Arrival := (magicPacket.toList ++ [1, 2, 3, 4, 5, 6]).map .byte

theorem ignored_probe_loses_samples :
    let iq := [1, 2, 3, 4, 5, 6]
    let answers := List.replicate 18 ⟨false, 9⟩
    bytesOf ignoredProbe = magicPacket.toList ++ upstreamBytes iq none ∧
      ∃ conn, connectUpstream none calmConnect ignoredProbe = .ok conn ∧
        (loop UpstreamReader.turn (.start conn.stream.inbound) answers).stream = [] ∧
        (loop UpstreamReader.turn (.start conn.stream.inbound) answers).broadcast.flatten = [6] ∧
        (loop UpstreamReader.turn (.start conn.stream.inbound) answers).broadcast.flatten ≠ iq :=
  ⟨rfl, _, rfl, rfl, rfl, by decide⟩

end RtlTcp
