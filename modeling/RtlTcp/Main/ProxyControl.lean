import RtlTcp.Lib.Transition
import RtlTcp.Control
import RtlTcp.Encryption

/-!
# The master control thread of `run_proxy_multi`

The proxy reads its master's frames, drops what the rate limiter rejects, encrypts the rest
with the upstream cipher and forwards it. The limiter belongs to the thread and is new for
every master; the cipher and the upstream socket outlive the master's connection.
-/

namespace RtlTcp
set_option autoImplicit false
open ByteIo Transition

/-- `is_disconnect_err` of `main.rs`. -/
def isDisconnectErr (e : ErrorKind) : Bool :=
  e == .unexpectedEof || e == .connectionReset || e == .brokenPipe || e == .connectionAborted || e == .notConnected

/-- What one iteration observes besides the bytes it reads: `upstreamLock` is whether the
upstream mutex could be locked, `sent` how the write on the upstream socket ended. -/
structure ProxyEnv where
  shouldExit : Bool
  now : Nat
  upstreamLock : Bool
  sent : Except ErrorKind Unit

/-- The thread's variables, the shared write cipher, and the frames it passed to the upstream
socket: the plaintext, the bytes offered to `write_all`, and how that ended. -/
structure ProxyControl where
  stream : List Arrival
  rateLimiter : RateLimiter
  writeCipher : Option ChaCha20
  forwarded : List (Frame × Frame × Except ErrorKind Unit)

namespace ProxyControl
variable [ChaCha]

/-- `cipher.apply_keystream(&mut buf)` if the upstream connection is encrypted. A poisoned
cipher lock is recovered, so the branch is taken either way. -/
def encrypt (cipher : Option ChaCha20) (buf : Frame) : Frame × Option ChaCha20 :=
  match cipher with
  | some cipher => ((cipher.applyArray buf).1, some (cipher.applyArray buf).2)
  | none => (buf, none)

/-- Encrypt a frame and write it upstream. -/
def forward (s : ProxyControl) (env : ProxyEnv) (buf : Frame) : Flow × ProxyControl :=
  let (encrypted, writeCipher) := encrypt s.writeCipher buf
  let s := { s with writeCipher := writeCipher }
  if env.upstreamLock then
    let s := { s with forwarded := s.forwarded ++ [(buf, encrypted, env.sent)] }
    match env.sent with
    | .ok () => (.again, s)
    | .error _ => (.leave, s)
  else (.leave, s)

/-- One iteration of the loop. -/
def turn (s : ProxyControl) (env : ProxyEnv) : Flow × ProxyControl :=
  match readExact commandHeaderSize s.stream with
  | (.ok buf, rest) =>
    let s := { s with stream := rest }
    if env.shouldExit then (.leave, s)
    else
      let (allowed, rateLimiter) := s.rateLimiter.check env.now
      let s := { s with rateLimiter := rateLimiter }
      if !allowed then (.again, s) else s.forward env buf
  | (.error e, rest) =>
    let s := { s with stream := rest }
    if e == .wouldBlock || e == .timedOut then (.again, s)
    else if isDisconnectErr e then (.leave, s)
    else (.leave, s)

theorem forward_stream (s : ProxyControl) (env : ProxyEnv) (buf : Frame) :
    (s.forward env buf).2.stream = s.stream := by
  unfold forward
  dsimp only
  split
  · split <;> rfl
  · rfl

/-- What one turn does to the cipher and to the upstream socket: nothing, or one frame is
encrypted and written, or the cipher has moved and the upstream lock was poisoned. -/
inductive Forwards (s : ProxyControl) (env : ProxyEnv) (t : ProxyControl) : Prop where
  | nothing (cipher : t.writeCipher = s.writeCipher) (log : t.forwarded = s.forwarded)
  | frame (buf : Frame) (unlocked : env.upstreamLock = true) (cipher : t.writeCipher = (encrypt s.writeCipher buf).2)
      (log : t.forwarded = s.forwarded ++ [(buf, (encrypt s.writeCipher buf).1, env.sent)])
  | poisoned (locked : env.upstreamLock = false) (log : t.forwarded = s.forwarded)

theorem turn_forwards (s : ProxyControl) (env : ProxyEnv) : Forwards s env (s.turn env).2 := by
  unfold turn
  split
  · rename_i buf rest taken
    dsimp only
    split
    · exact .nothing rfl rfl
    · split
      · exact .nothing rfl rfl
      · unfold forward
        dsimp only
        cases lock : env.upstreamLock with
        | false => exact .poisoned lock rfl
        | true =>
          refine .frame buf lock ?_ ?_
          · cases env.sent <;> rfl
          · cases env.sent <;> rfl
  · dsimp only
    split
    · exact .nothing rfl rfl
    · split <;> exact .nothing rfl rfl

end ProxyControl

end RtlTcp
