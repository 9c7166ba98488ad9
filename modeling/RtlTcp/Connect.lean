import Mathlib.Logic.Function.Iterate
import RtlTcp.Proxy

/-!
# `connect_upstream`, access by access

The thread in `connect_upstream` at the grain of its reads and writes, so that its peer and the
delays of the network can come between them. `ConnectThread.step` cuts `connectUpstream` at its
accesses to the socket; `connectUpstream_eq_steps` puts the pieces together again.
-/

namespace RtlTcp
set_option autoImplicit false
open ByteIo

/-- The points of `connect_upstream` between its accesses to the socket, with the variables that
are alive there. -/
inductive ConnectPoint where
  | connecting
  | readingMagic
  | probing (magic : Bytes 12)
  | awaitingAck (magic : Bytes 12)
  | sendingNonce (magic : Bytes 12) (encKey : Key)
  | awaitingNonce (magic : Bytes 12) (encKey : Key) (myNonce : Nonce)
  | finishing (magic : Bytes 12) (isChain : Bool) (encryptionKey : Option (Key × Nonce × Nonce))
  | connected (magic : Bytes 12) (isChain : Bool) (encryptionKey : Option (Key × Nonce × Nonce))
  | failed (e : RtlTcpError)

/-- The thread in `connect_upstream`: its point and its socket. -/
structure ConnectThread where
  point : ConnectPoint
  stream : UpstreamSocket

namespace ConnectThread

/-- Go on if a system call succeeded. -/
def proceed {ε : Type} (result : Except ε Unit) (toError : ε → RtlTcpError) (next : ConnectPoint) : ConnectPoint :=
  match result with
  | .ok () => next
  | .error e => .failed (toError e)

/-- The next step of the thread. -/
def step (key : Option Key) (c : ConnectThread) (env : ConnectEnv) : ConnectThread :=
  let stream := c.stream
  match c.point with
  | .connecting =>
    ⟨proceed env.connected (fun e => .network s!"failed to connect upstream: {env.display e}")
      (proceed env.timeoutSet .io .readingMagic), stream⟩
  | .readingMagic =>
    match readExact 12 stream.inbound with
    | (.ok magic, rest) => ⟨.probing magic, { stream with inbound := rest }⟩
    | (.error e, rest) =>
      ⟨.failed (.network s!"failed to read upstream magic: {env.display e}"), { stream with inbound := rest }⟩
  | .probing magic =>
    ⟨proceed env.probeSent .io (.awaitingAck magic), { stream with written := stream.written ++ [(probe, env.probeSent)] }⟩
  | .awaitingAck magic =>
    let (isChain, rest) := readAck stream.inbound
    let stream := { stream with inbound := rest }
    let next := match isChain, key with
      | true, some encKey => .sendingNonce magic encKey
      | _, _ => .finishing magic isChain none
    ⟨proceed (if isChain then .ok () else env.plainTimeoutSet) .io next, stream⟩
  | .sendingNonce magic encKey =>
    ⟨proceed env.nonceSent (fun e => .network s!"nonce exchange failed: {env.display e}")
      (.awaitingNonce magic encKey env.myNonce),
      { stream with written := stream.written ++ [(env.myNonce.toList, env.nonceSent)] }⟩
  | .awaitingNonce magic encKey myNonce =>
    match readExact 12 stream.inbound with
    | (.ok peerNonce, rest) => ⟨.finishing magic true (some (encKey, myNonce, peerNonce)), { stream with inbound := rest }⟩
    | (.error e, rest) =>
      ⟨.failed (.network s!"nonce exchange failed: {env.display e}"), { stream with inbound := rest }⟩
  | .finishing magic isChain encryptionKey =>
    ⟨proceed env.streamTimeoutSet .io (.connected magic isChain encryptionKey), stream⟩
  | .connected .. | .failed _ => c

/-- The ciphers of a connection. -/
def writeCipher : Option (Key × Nonce × Nonce) → Option ChaCha20
  | some (encKey, myNonce, _) => some (.new encKey myNonce)
  | none => none

def readCipher : Option (Key × Nonce × Nonce) → Option ChaCha20
  | some (encKey, _, peerNonce) => some (.new encKey peerNonce)
  | none => none

/-- What the thread has returned, if it has. -/
def result (c : ConnectThread) : Option (Except RtlTcpError UpstreamConnection) :=
  match c.point with
  | .connected magic isChain encryptionKey =>
    some (.ok ⟨c.stream, isChain, readCipher encryptionKey, writeCipher encryptionKey, magic⟩)
  | .failed e => some (.error e)
  | _ => none

/-- A connection comes from the last point. -/
theorem result_ok {c : ConnectThread} {conn : UpstreamConnection} (returned : c.result = some (.ok conn)) :
    ∃ magic isChain encryptionKey, c.point = .connected magic isChain encryptionKey ∧
      conn.writeCipher = writeCipher encryptionKey := by
  unfold result at returned
  split at returned
  · rename_i magic isChain encryptionKey point
    cases returned
    exact ⟨magic, isChain, encryptionKey, point, rfl⟩
  · cases returned
  · cases returned

/-- A thread that has returned stays where it is. -/
theorem iterate_returned {key : Option Key} {env : ConnectEnv} {c : ConnectThread}
    {r : Except RtlTcpError UpstreamConnection} (returned : c.result = some r) (n : Nat) :
    Nat.iterate (fun c => step key c env) n c = c := by
  have stays : step key c env = c := by
    obtain ⟨point, stream⟩ := c
    cases point with
    | connected | failed => rfl
    | _ => cases returned
  induction n with
  | zero => rfl
  | succ n ih => rwa [Function.iterate_succ_apply, stays]

theorem result_iterate {key : Option Key} {env : ConnectEnv} {c : ConnectThread} {r : Except RtlTcpError UpstreamConnection}
    (returned : c.result = some r) (n : Nat) : result (Nat.iterate (fun c => step key c env) n c) = some r := by
  rw [iterate_returned returned]
  exact returned

/-- The last step, and any number of idle ones after it. -/
theorem steps_from_finishing (key : Option Key) (env : ConnectEnv) (magic : Bytes 12) (isChain : Bool)
    (encryptionKey : Option (Key × Nonce × Nonce)) (stream : UpstreamSocket) (n : Nat) :
    result (Nat.iterate (fun c => step key c env) (n + 1) ⟨.finishing magic isChain encryptionKey, stream⟩) = some (do
      env.streamTimeoutSet.mapError .io
      return ⟨stream, isChain, readCipher encryptionKey, writeCipher encryptionKey, magic⟩) := by
  cases timeout : env.streamTimeoutSet with
  | error e =>
    have last : step key ⟨.finishing magic isChain encryptionKey, stream⟩ env = ⟨.failed (.io e), stream⟩ := by
      simp only [step, timeout, proceed]
    rw [Function.iterate_succ_apply, last, result_iterate rfl]
    rfl
  | ok =>
    have last : step key ⟨.finishing magic isChain encryptionKey, stream⟩ env =
        ⟨.connected magic isChain encryptionKey, stream⟩ := by
      simp only [step, timeout, proceed]
    rw [Function.iterate_succ_apply, last, result_iterate rfl]
    rfl

/-- The nonce exchange, step by step. -/
theorem steps_from_nonce (key : Option Key) (env : ConnectEnv) (magic : Bytes 12) (encKey : Key) (stream : UpstreamSocket) :
    result (Nat.iterate (fun c => step key c env) 3 ⟨.sendingNonce magic encKey, stream⟩) = some (do
      let (encryptionKey, stream) ← handshake (some encKey) env true stream
      env.streamTimeoutSet.mapError .io
      return ⟨stream, true, readCipher encryptionKey, writeCipher encryptionKey, magic⟩) := by
  obtain ⟨inbound, written⟩ := stream
  cases sent : env.nonceSent with
  | error e =>
    have first : step key ⟨.sendingNonce magic encKey, ⟨inbound, written⟩⟩ env =
        ⟨.failed (.network s!"nonce exchange failed: {env.display e}"),
          ⟨inbound, written ++ [(env.myNonce.toList, .error e)]⟩⟩ := by
      simp only [step, sent, proceed]
    rw [Function.iterate_succ_apply, first, result_iterate rfl]
    simp only [handshake, nonceExchange, sent]
    rfl
  | ok =>
    have first : step key ⟨.sendingNonce magic encKey, ⟨inbound, written⟩⟩ env =
        ⟨.awaitingNonce magic encKey env.myNonce, ⟨inbound, written ++ [(env.myNonce.toList, .ok ())]⟩⟩ := by
      simp only [step, sent, proceed]
    rw [Function.iterate_succ_apply, first, Function.iterate_succ_apply]
    simp only [handshake, nonceExchange, sent]
    rcases taken : readExact 12 inbound with ⟨e | peerNonce, rest⟩
    · have second : step key ⟨.awaitingNonce magic encKey env.myNonce,
          ⟨inbound, written ++ [(env.myNonce.toList, .ok ())]⟩⟩ env =
          ⟨.failed (.network s!"nonce exchange failed: {env.display e}"),
            ⟨rest, written ++ [(env.myNonce.toList, .ok ())]⟩⟩ := by
        simp only [step, taken]
      rw [second, result_iterate rfl]
      rfl
    · have second : step key ⟨.awaitingNonce magic encKey env.myNonce,
          ⟨inbound, written ++ [(env.myNonce.toList, .ok ())]⟩⟩ env =
          ⟨.finishing magic true (some (encKey, env.myNonce, peerNonce)),
            ⟨rest, written ++ [(env.myNonce.toList, .ok ())]⟩⟩ := by
        simp only [step, taken]
      rw [second]
      exact steps_from_finishing key env magic true _ _ 0

/-- From the acknowledgement on, the steps do what is left of `connectUpstream`. -/
theorem steps_from_ack (key : Option Key) (env : ConnectEnv) (magic : Bytes 12) {inbound rest : List Arrival}
    (written : List SocketWrite) {isChain : Bool} (waited : readAck inbound = (isChain, rest)) :
    result (Nat.iterate (fun c => step key c env) 4 ⟨.awaitingAck magic, ⟨inbound, written⟩⟩) = some (do
      (if isChain then .ok () else env.plainTimeoutSet).mapError .io
      let (encryptionKey, stream) ← handshake key env isChain ⟨rest, written⟩
      env.streamTimeoutSet.mapError .io
      return ⟨stream, isChain, readCipher encryptionKey, writeCipher encryptionKey, magic⟩) := by
  rw [Function.iterate_succ_apply]
  cases isChain with
  | false =>
    have plain : handshake key env false ⟨rest, written⟩ = .ok (none, ⟨rest, written⟩) := by
      cases key <;> rfl
    rw [plain]
    cases timeout : env.plainTimeoutSet with
    | error e =>
      have first : step key ⟨.awaitingAck magic, ⟨inbound, written⟩⟩ env = ⟨.failed (.io e), ⟨rest, written⟩⟩ := by
        simp only [step, waited, timeout, proceed, Bool.false_eq_true, if_false]
      rw [first, result_iterate rfl]
      rfl
    | ok =>
      have first : step key ⟨.awaitingAck magic, ⟨inbound, written⟩⟩ env =
          ⟨.finishing magic false none, ⟨rest, written⟩⟩ := by
        simp only [step, waited, timeout, proceed, Bool.false_eq_true, if_false]
      rw [first]
      exact steps_from_finishing key env magic false none _ 2
  | true =>
    cases key with
    | none =>
      have first : step none ⟨.awaitingAck magic, ⟨inbound, written⟩⟩ env =
          ⟨.finishing magic true none, ⟨rest, written⟩⟩ := by
        simp only [step, waited, proceed, if_true]
      rw [first]
      exact steps_from_finishing none env magic true none _ 2
    | some encKey =>
      have first : step (some encKey) ⟨.awaitingAck magic, ⟨inbound, written⟩⟩ env =
          ⟨.sendingNonce magic encKey, ⟨rest, written⟩⟩ := by
        simp only [step, waited, proceed, if_true]
      rw [first]
      exact steps_from_nonce (some encKey) env magic encKey _

/-- **The steps of `connect_upstream` are `connect_upstream`.** -/
theorem connectUpstream_eq_steps (key : Option Key) (env : ConnectEnv) (inbound : List Arrival) :
    result (Nat.iterate (fun c => step key c env) 7 ⟨.connecting, ⟨inbound, []⟩⟩) = some (connectUpstream key env inbound) := by
  unfold connectUpstream
  cases connected : env.connected with
  | error e =>
    have first : step key ⟨.connecting, ⟨inbound, []⟩⟩ env =
        ⟨.failed (.network s!"failed to connect upstream: {env.display e}"), ⟨inbound, []⟩⟩ := by
      simp only [step, connected, proceed]
    rw [Function.iterate_succ_apply, first, result_iterate rfl]
    rfl
  | ok =>
  cases timeoutSet : env.timeoutSet with
  | error e =>
    have first : step key ⟨.connecting, ⟨inbound, []⟩⟩ env = ⟨.failed (.io e), ⟨inbound, []⟩⟩ := by
      simp only [step, connected, timeoutSet, proceed]
    rw [Function.iterate_succ_apply, first, result_iterate rfl]
    rfl
  | ok =>
  have first : step key ⟨.connecting, ⟨inbound, []⟩⟩ env = ⟨.readingMagic, ⟨inbound, []⟩⟩ := by
    simp only [step, connected, timeoutSet, proceed]
  rw [Function.iterate_succ_apply, first, Function.iterate_succ_apply]
  rcases packet : readExact 12 inbound with ⟨e | magic, rest⟩
  · have second : step key ⟨.readingMagic, ⟨inbound, []⟩⟩ env =
        ⟨.failed (.network s!"failed to read upstream magic: {env.display e}"), ⟨rest, []⟩⟩ := by
      simp only [step, packet]
    rw [second, result_iterate rfl]
    rfl
  have second : step key ⟨.readingMagic, ⟨inbound, []⟩⟩ env = ⟨.probing magic, ⟨rest, []⟩⟩ := by
    simp only [step, packet]
  rw [second, Function.iterate_succ_apply]
  cases probeSent : env.probeSent with
  | error e =>
    have third : step key ⟨.probing magic, ⟨rest, []⟩⟩ env = ⟨.failed (.io e), ⟨rest, [(probe, .error e)]⟩⟩ := by
      simp only [step, probeSent, proceed, List.nil_append]
    rw [third, result_iterate rfl]
    rfl
  | ok =>
  have third : step key ⟨.probing magic, ⟨rest, []⟩⟩ env = ⟨.awaitingAck magic, ⟨rest, [(probe, .ok ())]⟩⟩ := by
    simp only [step, probeSent, proceed, List.nil_append]
  rcases waited : readAck rest with ⟨isChain, after⟩
  rw [third, steps_from_ack key env magic _ waited]
  simp only [waited]
  cases exchanged : handshake key env isChain ⟨after, [(probe, .ok ())]⟩ with
  | error e => rfl
  | ok pair =>
    obtain ⟨encryptionKey, stream⟩ := pair
    cases encryptionKey <;> rfl

end ConnectThread

end RtlTcp
