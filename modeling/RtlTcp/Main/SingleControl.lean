import RtlTcp.Lib.Transition
import RtlTcp.Control
import RtlTcp.Encryption
import RtlTcp.Main.MasterControl

/-!
# The control thread of `run_serve_single`

The single-client loop is a second copy of the serve-mode command loop, without ciphers and
without a nonce exchange. It is modelled on its own, from its own lines of the source.
-/

namespace RtlTcp
set_option autoImplicit false
open ByteIo Transition

/-- The variables of `thread_ctl` and what it shares with the other threads. -/
structure SingleControl where
  stream : List Arrival
  written : List SocketWrite
  ctl : Mutex Controller
  agcState : AgcState
  unknownCommandCount : Nat
  rateLimiter : RateLimiter

namespace SingleControl

/-- `with_control` around one device call. -/
def device (s : SingleControl) (env : Env) (c : DeviceCall) : SingleControl :=
  { s with ctl := withControl s.ctl (Controller.call c env.deviceOk) }

/-- The `match cmd` of the loop; every arm goes on with the next iteration. -/
def dispatch (s : SingleControl) (env : Env) (buf : Frame) : SingleControl :=
  match buf.cmd with
  | cmdSetFrequency =>
    let freq := u32FromBe buf.payload
    match validateFrequency freq with
    | .error _ => s
    | .ok () => s.device env (.setCenterFreq freq)
  | cmdSetSampleRate =>
    let sampleRate := u32FromBe buf.payload
    match validateSampleRate sampleRate with
    | .error _ => s
    | .ok () => s.device env (.setSampleRate sampleRate)
  | cmdSetGainMode =>
    let gainMode := i32FromBe buf.payload
    if gainMode > 0 then
      { s with agcState := s.agcState.disable.2 }.device env .disableAgc
    else
      { s with agcState := s.agcState.enable.2 }.device env .enableAgc
  | cmdSetTunerGain =>
    let gain := i32FromBe buf.payload
    match validateTunerGain gain with
    | .error _ => s
    | .ok () => s.device env (.setTunerGain gain)
  | cmdSetPpm =>
    let ppm := i32FromBe buf.payload
    match validatePpm ppm with
    | .error _ => s
    | .ok () => s.device env (.setPpm ppm)
  | cmdSetAgc =>
    let agc := u32FromBe buf.payload == 1
    if agc then
      { s with agcState := s.agcState.enable.2 }.device env .enableAgc
    else
      { s with agcState := s.agcState.disable.2 }.device env .disableAgc
  | cmdChainDetect => { s with written := s.written ++ [(chainDetectAck, env.ackSent)] }
  | _ => { s with unknownCommandCount := s.unknownCommandCount + 1 }

/-- One iteration of the loop. -/
def turn (s : SingleControl) (env : Env) : Flow × SingleControl :=
  match readExact commandHeaderSize s.stream with
  | (.ok buf, rest) =>
    let s := { s with stream := rest }
    if env.shouldExit then (.leave, s)
    else
      let (allowed, rateLimiter) := s.rateLimiter.check env.now
      let s := { s with rateLimiter := rateLimiter }
      if !allowed then (.again, s) else (.again, s.dispatch env buf)
  | (.error e, rest) =>
    let s := { s with stream := rest }
    if e == .wouldBlock || e == .timedOut then (.again, s) else (.leave, s)

theorem dispatch_stream (s : SingleControl) (env : Env) (buf : Frame) : (s.dispatch env buf).stream = s.stream := by
  unfold dispatch
  split <;> dsimp only <;> (try split) <;> rfl

/-! ## The two copies of the loop -/

/-- The variables of `spawn_master_control_thread` without a key; its ciphers stay unset. -/
def asMaster (s : SingleControl) : MasterControl where
  stream := s.stream
  written := s.written
  ctl := s.ctl
  agcState := s.agcState
  unknownCommandCount := s.unknownCommandCount
  encryptionNonces := none
  readCipher := none
  writeCipher := none
  rateLimiter := s.rateLimiter

theorem dispatch_asMaster (s : SingleControl) (env : Env) (buf : Frame) :
    s.asMaster.dispatch none env buf = (s.dispatch env buf).asMaster := by
  unfold MasterControl.dispatch dispatch
  generalize buf.cmd = cmd
  split <;> try simp only
  · cases validateFrequency (u32FromBe buf.payload) <;> rfl
  · cases validateSampleRate (u32FromBe buf.payload) <;> rfl
  · by_cases manual : i32FromBe buf.payload > 0
    · simp only [if_pos manual]
      rfl
    · simp only [if_neg manual]
      rfl
  · cases validateTunerGain (i32FromBe buf.payload) <;> rfl
  · cases validatePpm (i32FromBe buf.payload) <;> rfl
  · cases u32FromBe buf.payload == 1 <;> rfl
  · rfl
  · rfl

theorem process_asMaster (s : SingleControl) (env : Env) (buf : Frame) (rest : List Arrival) :
    { s with stream := rest }.asMaster.process none env buf =
      if env.shouldExit then (.leave, { s with stream := rest }.asMaster)
      else
        let next := { s with stream := rest, rateLimiter := (s.rateLimiter.check env.now).2 }
        if !(s.rateLimiter.check env.now).1 then (.again, next.asMaster) else (.again, (next.dispatch env buf).asMaster) := by
  unfold MasterControl.process
  split
  · rfl
  · dsimp only [asMaster]
    split
    · rfl
    · exact congrArg (Prod.mk Flow.again) (dispatch_asMaster { s with
        stream := rest
        rateLimiter := (s.rateLimiter.check env.now).2 } env buf)

/-- A turn of the one copy is a turn of the other. -/
theorem turn_asMaster [ChaCha] (s : SingleControl) (env : Env) :
    s.asMaster.turn none env = ((s.turn env).1, (s.turn env).2.asMaster) := by
  match taken : readExact commandHeaderSize s.stream with
  | (.error e, rest) =>
    have read : readExact commandHeaderSize s.asMaster.stream = (.error e, rest) := taken
    simp only [MasterControl.turn, turn, read, taken]
    split <;> rfl
  | (.ok buf, rest) =>
    have read : readExact commandHeaderSize s.asMaster.stream = (.ok buf, rest) := taken
    have plain : s.asMaster.turn none env = { s with stream := rest }.asMaster.process none env buf := by
      simp only [MasterControl.turn, read]
      rfl
    rw [plain, process_asMaster]
    simp only [turn, taken]
    split
    · rfl
    · split <;> rfl

/-- **The two serve control loops agree.** Without a key, on every stream of arrivals and
whatever each iteration observes, both threads make the same device calls and socket writes,
have the same gain mode and count of unknown commands, and leave the loop in the same turn. -/
theorem serve_loops_agree [ChaCha] (s : SingleControl) (envs : List Env) :
    let single := loop turn s envs
    let master := loop (MasterControl.turn none) s.asMaster envs
    master.ctl = single.ctl ∧ master.written = single.written ∧ master.agcState = single.agcState ∧
      master.unknownCommandCount = single.unknownCommandCount ∧
      leftAfter (MasterControl.turn none) s.asMaster envs = leftAfter turn s envs := by
  have same : loop (MasterControl.turn none) s.asMaster envs = (loop turn s envs).asMaster ∧
      leftAfter (MasterControl.turn none) s.asMaster envs = leftAfter turn s envs := loop_lockstep turn_asMaster
  dsimp only
  rw [same.1]
  exact ⟨rfl, rfl, rfl, rfl, same.2⟩

end SingleControl

end RtlTcp
