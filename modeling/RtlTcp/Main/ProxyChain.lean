import RtlTcp.Lib.Transition
import RtlTcp.Main.MasterControl
import RtlTcp.Main.CommandChannel
import RtlTcp.Proxy

/-!
# What a proxy passes on to its upstream

The control thread of `run_proxy_multi` forwards every frame that its rate limiter admits; it
neither looks at the opcode nor validates the payload, and it writes nothing to its master. A
`Hop` is one proxy with one master after the other, a `ProxyChain` a server with proxies on top
of each other. `forwards_valid_iff` says when a proxy passes on valid commands only, and
`hop_by_hop_iff` when chain detection stays between neighbours.
-/

namespace RtlTcp
set_option autoImplicit false
open ByteIo Transition

/-- A command that serve mode would carry out: a known set-command whose payload passes the
validator of its opcode. -/
def validCommand (buf : Frame) : Bool :=
  match buf.cmd with
  | cmdSetFrequency => (validateFrequency (u32FromBe buf.payload)).isOk
  | cmdSetSampleRate => (validateSampleRate (u32FromBe buf.payload)).isOk
  | cmdSetGainMode => true
  | cmdSetTunerGain => (validateTunerGain (i32FromBe buf.payload)).isOk
  | cmdSetPpm => (validatePpm (i32FromBe buf.payload)).isOk
  | cmdSetAgc => true
  | _ => false

/-- One proxy. `pipe` is what its master has sent and it has not read yet, `fromProxy` whether
that master is another proxy; `toMaster` is what it has written to the master's socket besides
the samples it relays. -/
structure Hop where
  magicPacket : Bytes 12
  control : ProxyControl
  inSession : Bool
  fromProxy : Bool
  pipe : List UInt8
  toMaster : List UInt8

/-- A master is accepted, the master sends bytes, or the control thread takes a turn in which
its read meets `n` bytes of the pipe and then the failure `cut`. -/
inductive HopAct where
  | accept (fromProxy : Bool) (now again : Nat)
  | send (bytes : List UInt8)
  | turn (env : ProxyEnv) (n : Nat) (cut : ErrorKind)

namespace Hop

/-- What the thread's read meets. -/
def inbound (s : Hop) (n : Nat) (cut : ErrorKind) : List Arrival := (s.pipe.take n).map .byte ++ [.fail cut]

section
variable [ChaCha]

def step (s : Hop) : HopAct → Option Hop
  | .accept fromProxy now again =>
    if s.inSession then none
    else
      let control := { s.control with rateLimiter := .new commandRateLimitInterval now again }
      some ⟨s.magicPacket, control, true, fromProxy, [], s.magicPacket.toList⟩
  | .send bytes => if s.inSession then some { s with pipe := s.pipe ++ bytes } else none
  | .turn env n cut =>
    if s.inSession then
      let (flow, control) := { s.control with stream := s.inbound n cut }.turn env
      some { s with
        control := control
        inSession := flow == .again
        pipe := bytesOf control.stream ++ s.pipe.drop n }
    else none

end

/-- The frame that a turn reads, if it reads one and the exit flag is not set. -/
def frameRead (s : Hop) : HopAct → Option Frame
  | .turn env n cut =>
    match readExact commandHeaderSize (s.inbound n cut) with
    | (.ok buf, _) => if env.shouldExit then none else some buf
    | (.error _, _) => none
  | _ => none

/-- The frame that the rate limiter admits in a turn. -/
def frameAdmitted (s : Hop) (a : HopAct) : Option Frame :=
  match a with
  | .turn env _ _ => if (s.control.rateLimiter.check env.now).1 then s.frameRead a else none
  | _ => none

theorem frameRead_of_admitted {s : Hop} {a : HopAct} {buf : Frame} (admitted : s.frameAdmitted a = some buf) :
    s.frameRead a = some buf := by
  unfold frameAdmitted at admitted
  split at admitted
  · split at admitted
    · exact admitted
    · cases admitted
  · cases admitted

/-- What a step does to the upstream socket and the cipher: nothing if no frame is admitted; an
admitted frame is encrypted and passed on, or the session ends at a poisoned lock. -/
inductive Passes (s : Hop) (a : HopAct) (t : Hop) : Prop where
  | nothing (rejected : s.frameAdmitted a = none) (log : t.control.forwarded = s.control.forwarded)
      (cipher : t.control.writeCipher = s.control.writeCipher) (goesOn : (s.frameRead a).isSome → t.inSession = true)
  | passedOn (buf encrypted : Frame) (sent : Except ErrorKind Unit) (admitted : s.frameAdmitted a = some buf)
      (log : t.control.forwarded = s.control.forwarded ++ [(buf, encrypted, sent)])
  | poisoned (buf : Frame) (admitted : s.frameAdmitted a = some buf) (log : t.control.forwarded = s.control.forwarded)
      (ended : t.inSession = false)

section
variable [ChaCha]

theorem turn_passes {s t : Hop} {env : ProxyEnv} {n : Nat} {cut : ErrorKind}
    (taken : s.step (.turn env n cut) = some t) : Passes s (.turn env n cut) t := by
  simp only [step] at taken
  split at taken
  case isFalse => cases taken
  match read : readExact commandHeaderSize (s.inbound n cut) with
  | (.error e, rest) =>
    simp only [ProxyControl.turn, read, Option.some.injEq] at taken
    subst taken
    have nothing : s.frameRead (.turn env n cut) = none := by simp only [frameRead, read]
    refine .nothing (by simp [frameAdmitted, nothing]) ?_ ?_ (by simp [nothing])
    all_goals repeat' split
    all_goals rfl
  | (.ok buf, rest) =>
    simp only [ProxyControl.turn, read] at taken
    cases exit : env.shouldExit with
    | true =>
      rw [exit, if_pos rfl, Option.some.injEq] at taken
      subst taken
      have nothing : s.frameRead (.turn env n cut) = none := by simp only [frameRead, read, exit, if_true]
      exact .nothing (by simp [frameAdmitted, nothing]) rfl rfl (by simp [nothing])
    | false =>
      have frame : s.frameRead (.turn env n cut) = some buf := by simp [frameRead, read, exit]
      cases allowed : (s.control.rateLimiter.check env.now).1 with
      | false =>
        simp only [exit, allowed, Bool.false_eq_true, if_false, Bool.not_false, if_true, Option.some.injEq] at taken
        subst taken
        exact .nothing (by simp [frameAdmitted, allowed]) rfl rfl fun _ => rfl
      | true =>
        have admitted : s.frameAdmitted (.turn env n cut) = some buf := by simp [frameAdmitted, allowed, frame]
        simp only [exit, allowed, Bool.false_eq_true, if_false, Bool.not_true, ProxyControl.forward,
          Option.some.injEq] at taken
        subst taken
        cases lock : env.upstreamLock with
        | false => exact .poisoned buf admitted rfl rfl
        | true =>
          refine .passedOn buf (ProxyControl.encrypt s.control.writeCipher buf).1 env.sent admitted ?_
          cases env.sent <;> rfl

theorem step_passes {s t : Hop} {a : HopAct} (taken : s.step a = some t) : Passes s a t := by
  cases a with
  | turn env n cut => exact turn_passes taken
  | accept fromProxy now again =>
    simp only [step] at taken
    split at taken
    · cases taken
    · cases taken
      exact .nothing rfl rfl rfl (by simp [frameRead])
  | send bytes =>
    simp only [step] at taken
    split at taken
    · cases taken
      exact .nothing rfl rfl rfl (by simp [frameRead])
    · cases taken

/-- A turn writes nothing to the master's socket. -/
theorem step_toMaster {s t : Hop} {a : HopAct} {buf : Frame} (taken : s.step a = some t)
    (frame : s.frameRead a = some buf) : t.toMaster = s.toMaster := by
  cases a with
  | turn env n cut =>
    simp only [step] at taken
    split at taken
    · cases taken
      rfl
    · cases taken
  | accept fromProxy now again => cases frame
  | send bytes => cases frame

end

/-! ## Valid commands -/

/-- Every frame that was passed on is a valid command. -/
def ForwardsValid (s : Hop) : Prop := ∀ entry ∈ s.control.forwarded, validCommand entry.1 = true

variable [ChaCha]

/-- A frame that is not a valid command is dropped: the session goes on, and neither the upstream
socket nor the keystream has moved. -/
def DropsInvalid (s : Hop) (a : HopAct) : Prop :=
  ∀ buf, s.frameRead a = some buf → validCommand buf = false →
    ∃ t, s.step a = some t ∧ t.inSession = true ∧ t.control.forwarded = s.control.forwarded ∧
      t.control.writeCipher = s.control.writeCipher

/-- The limiter admits no frame that is not a valid command. -/
def AdmitsValid (s : Hop) (a : HopAct) : Prop := ∀ buf ∈ s.frameAdmitted a, validCommand buf = true

instance (s : Hop) (a : HopAct) : Decidable (s.AdmitsValid a) := decidable_of_iff _ (Option.all_eq_true ..)

/-- An invalid frame is dropped exactly when it is not admitted. -/
theorem dropsInvalid_iff {s t : Hop} {a : HopAct} (taken : s.step a = some t) : s.DropsInvalid a ↔ s.AdmitsValid a := by
  constructor
  · intro drops buf admitted
    by_contra invalid
    obtain ⟨t', taken', session, log, -⟩ := drops buf (frameRead_of_admitted admitted) (by simpa using invalid)
    cases step_passes taken' with
    | nothing rejected => rw [rejected] at admitted; cases admitted
    | passedOn _ _ _ _ longer => simp [longer] at log
    | poisoned _ _ _ ended => rw [ended] at session; cases session
  · intro valid buf frame invalid
    refine ⟨t, taken, ?_⟩
    cases step_passes taken with
    | nothing _ log cipher goesOn => exact ⟨goesOn (by simp [frame]), log, cipher⟩
    | passedOn buf' _ _ admitted =>
      have same := (frameRead_of_admitted admitted).symm.trans frame
      cases same
      rw [valid _ admitted] at invalid
      cases invalid
    | poisoned buf' admitted =>
      have same := (frameRead_of_admitted admitted).symm.trans frame
      cases same
      rw [valid _ admitted] at invalid
      cases invalid

/-- What was passed on stays of a kind when only frames of that kind are admitted. -/
theorem forwarded_all {P : Frame → Prop} {s t : Hop} {a : HopAct} (taken : s.step a = some t)
    (admits : ∀ buf, s.frameAdmitted a = some buf → P buf) (all : ∀ entry ∈ s.control.forwarded, P entry.1) :
    ∀ entry ∈ t.control.forwarded, P entry.1 := by
  cases step_passes taken with
  | nothing _ log => rwa [log]
  | poisoned _ _ log => rwa [log]
  | passedOn buf _ _ admitted log =>
    rw [log]
    intro entry member
    rcases List.mem_append.1 member with old | new
    · exact all entry old
    · rw [List.mem_singleton.1 new]
      exact admits buf admitted

/-- **Which commands a proxy forwards.** For every proxy that has forwarded nothing yet, with or
without a cipher, and every sequence of masters, of bytes they send, of read outcomes and of
clock readings: all the frames it writes upstream are valid commands, and every other frame is
dropped without a trace, if and only if its rate limiter admits valid commands only. -/
theorem forwards_valid_iff (s : Hop) (fresh : s.control.forwarded = []) (acts : List HopAct) :
    Always step ForwardsValid s acts ∧ Along step DropsInvalid s acts ↔ Along step AdmitsValid s acts := by
  rw [along_congr fun _ _ _ => dropsInvalid_iff]
  refine and_iff_right_of_imp fun admits => always_of_along (I := ForwardsValid) ?_ ?_ admits
  · intro s a t valid admitted taken
    exact forwarded_all taken admitted valid
  · intro entry member
    rw [fresh] at member
    cases member

end Hop

/-- Serve mode makes a device call for the valid commands and for no other frame. -/
theorem validCommand_iff (buf : Frame) : validCommand buf = true ↔ (MasterControl.commandCall buf).isSome = true := by
  have isOk_iff : ∀ x : Except String Unit, x.isOk = true ↔ x = .ok () := by
    intro x
    cases x <;> simp [Except.isOk, Except.toBool]
  unfold validCommand
  split <;> rename_i cmd
  · have cmd : buf.cmd = 0x01 := cmd
    rw [isOk_iff, MasterControl.validateFrequency_ok_iff]
    simp [MasterControl.commandCall, cmd]
  · have cmd : buf.cmd = 0x02 := cmd
    rw [isOk_iff, MasterControl.validateSampleRate_ok_iff]
    simp [MasterControl.commandCall, cmd]
  · have cmd : buf.cmd = 0x03 := cmd
    by_cases manual : 0 < (i32FromBe buf.payload).toInt <;> simp [MasterControl.commandCall, cmd, manual]
  · have cmd : buf.cmd = 0x04 := cmd
    rw [isOk_iff, MasterControl.validateTunerGain_ok_iff]
    simp [MasterControl.commandCall, cmd]
  · have cmd : buf.cmd = 0x05 := cmd
    rw [isOk_iff, MasterControl.validatePpm_ok_iff]
    simp [MasterControl.commandCall, cmd]
  · have cmd : buf.cmd = 0x08 := cmd
    by_cases on : (u32FromBe buf.payload).toNat = 1 <;> simp [MasterControl.commandCall, cmd, on]
  · rename_i h1 h2 h3 h4 h5
    have noCall : MasterControl.commandCall buf = none :=
      (if_neg h1).trans ((if_neg h2).trans ((if_neg h3).trans ((if_neg h4).trans ((if_neg h5).trans (if_neg cmd)))))
    simp [noCall]

/-- A proxy without encryption. -/
def plainHop : Hop := ⟨magicPacket, ⟨[], .new commandRateLimitInterval 0 0, none, []⟩, false, false, [], []⟩

/-- A turn 100 ms after the last one, in which everything succeeds. -/
def calmProxyEnv (turnNumber : Nat) : ProxyEnv := ⟨false, (turnNumber + 1) * 100000000, true, .ok ()⟩

/-- A client that sends the given bytes, all of them read in one turn. -/
def clientSends (bytes : List UInt8) : List HopAct :=
  [.accept false 0 0, .send bytes, .turn (calmProxyEnv 0) 5 .timedOut]

/-- A frequency of 4294967295 Hz, far out of range, is forwarded. -/
theorem invalid_frequency_forwarded :
    letI := zeroChaCha
    ¬(Always Hop.step Hop.ForwardsValid plainHop (clientSends [0x01, 0xFF, 0xFF, 0xFF, 0xFF]) ∧
      Along Hop.step Hop.DropsInvalid plainHop (clientSends [0x01, 0xFF, 0xFF, 0xFF, 0xFF])) := by
  let _ := zeroChaCha
  rintro ⟨valid, -⟩
  have sent : (run Hop.step plainHop (clientSends [0x01, 0xFF, 0xFF, 0xFF, 0xFF])).map
      (fun t => t.control.forwarded.map Prod.fst) = some [⟨[0x01, 0xFF, 0xFF, 0xFF, 0xFF], rfl⟩] := by decide
  obtain ⟨t, reached, log⟩ := Option.map_eq_some_iff.1 sent
  obtain ⟨entry, member, frame⟩ := List.mem_map.1 (log ▸ List.mem_singleton.2 rfl)
  have checked := valid.last reached entry member
  rw [frame] at checked
  revert checked
  decide

/-- A frequency of 100.5 MHz is forwarded, as it should be. -/
theorem valid_frequency_forwarded :
    letI := zeroChaCha
    Always Hop.step Hop.ForwardsValid plainHop (clientSends [0x01, 0x05, 0xFD, 0x82, 0x20]) := by
  let _ := zeroChaCha
  have admits : Along Hop.step Hop.AdmitsValid plainHop (clientSends [0x01, 0x05, 0xFD, 0x82, 0x20]) := by
    decide
  exact ((Hop.forwards_valid_iff plainHop rfl _).2 admits).1

/-! ## Chain detection along a chain -/

/-- A server and the proxies on top of it; the upstream of proxy `0` is the server, and the
upstream of proxy `i + 1` is proxy `i`. `pipe` is what proxy `0` has sent to the server. -/
structure ProxyChain where
  server : MasterControl
  serving : Bool
  pipe : List UInt8
  hops : List Hop

/-- A step of one of the proxies, in which a failing upstream write delivers `partly` bytes, or a
turn of the server's control thread. -/
inductive ChainAct where
  | hop (i : Nat) (a : HopAct) (partly : Nat)
  | serve (env : Env) (n : Nat) (cut : ErrorKind)

namespace ProxyChain

/-- What a proxy writes arrives at the server, or at the proxy below it if that one's master is a
proxy at the moment. -/
def deliver (s : ProxyChain) (i : Nat) (bytes : List UInt8) : ProxyChain :=
  match i with
  | 0 => { s with pipe := s.pipe ++ bytes }
  | i + 1 => { s with hops := s.hops.modify i fun below =>
      if below.inSession && below.fromProxy then { below with pipe := below.pipe ++ bytes } else below }

/-- A delivery touches no control thread. -/
theorem deliver_control {s : ProxyChain} {i : Nat} {bytes : List UInt8} {h : Hop}
    (member : h ∈ (s.deliver i bytes).hops) : ∃ below ∈ s.hops, h.control = below.control := by
  cases i with
  | zero => exact ⟨h, member, rfl⟩
  | succ i =>
    obtain ⟨j, found⟩ := List.mem_iff_getElem?.1 member
    rw [deliver, List.getElem?_modify] at found
    obtain ⟨below, place, same⟩ := Option.map_eq_some_iff.1 found
    refine ⟨below, List.mem_of_getElem? place, ?_⟩
    rw [← same]
    repeat' split
    all_goals rfl

variable [ChaCha]

/-- The next state; `key` is the server's encryption key. -/
def step (key : Option Key) (s : ProxyChain) : ChainAct → Option ProxyChain
  | .hop i a partly =>
    match s.hops[i]? with
    | none => none
    | some hop =>
      match hop.step a with
      | none => none
      | some hop' =>
        let writes := hop'.control.forwarded.drop hop.control.forwarded.length
        some ({ s with hops := s.hops.set i hop' }.deliver i (CommandChannel.delivery false partly writes))
  | .serve env n cut =>
    if s.serving then
      let inbound := (s.pipe.take n).map Arrival.byte ++ [.fail cut]
      let (flow, server) := { s.server with stream := inbound }.turn key env
      some { s with
        server := server
        serving := flow == .again
        pipe := bytesOf server.stream ++ s.pipe.drop n }
    else none

/-- No proxy has passed a probe on to its upstream. -/
def NoProbeForwarded (s : ProxyChain) : Prop :=
  ∀ hop ∈ s.hops, ∀ entry ∈ hop.control.forwarded, entry.1.cmd ≠ cmdChainDetect

/-- The proxy that reads a probe answers it itself, with the acknowledgement. -/
def AnswersProbe (s : ProxyChain) : ChainAct → Prop
  | .hop i a _ => ∀ hop hop' buf, s.hops[i]? = some hop → hop.step a = some hop' →
      hop.frameRead a = some buf → buf.cmd = cmdChainDetect → hop'.toMaster = hop.toMaster ++ chainDetectAck
  | .serve .. => True

/-- The proxy that takes the step does not read a probe. -/
def NoProbeRead (s : ProxyChain) : ChainAct → Prop
  | .hop i a _ => ∀ hop ∈ s.hops[i]?, ∀ buf ∈ hop.frameRead a, buf.cmd ≠ cmdChainDetect
  | .serve .. => True

instance (s : ProxyChain) (a : ChainAct) : Decidable (s.NoProbeRead a) :=
  match a with
  | .hop i a _ => decidable_of_iff
      (s.hops[i]?.all (fun hop => (hop.frameRead a).all fun buf => buf.cmd != cmdChainDetect) = true)
      (by simp [NoProbeRead, Option.all_eq_true])
  | .serve .. => isTrue trivial

/-- A step of a proxy, from the proxy's point of view. -/
theorem hop_step {key : Option Key} {s t : ProxyChain} {i : Nat} {a : HopAct} {partly : Nat}
    (taken : s.step key (.hop i a partly) = some t) :
    ∃ hop hop', s.hops[i]? = some hop ∧ hop.step a = some hop' ∧
      ∀ h ∈ t.hops, h.control = hop'.control ∨ ∃ old ∈ s.hops, h.control = old.control := by
  simp only [step] at taken
  split at taken
  · cases taken
  · rename_i hop found
    split at taken
    · cases taken
    · rename_i hop' moved
      cases taken
      refine ⟨hop, hop', found, moved, fun h member => ?_⟩
      have among : ∀ h ∈ s.hops.set i hop', h.control = hop'.control ∨ ∃ old ∈ s.hops, h.control = old.control := by
        intro h member
        rcases List.mem_or_eq_of_mem_set member with old | rfl
        · exact .inr ⟨h, old, rfl⟩
        · exact .inl rfl
      obtain ⟨below, inside, same⟩ := deliver_control member
      rw [same]
      exact among below inside

/-- A proxy never answers its master, so every probe is answered exactly when none is read. -/
theorem answersProbe_iff {key : Option Key} {s t : ProxyChain} {a : ChainAct} (taken : s.step key a = some t) :
    s.AnswersProbe a ↔ s.NoProbeRead a := by
  cases a with
  | serve env n cut => exact Iff.rfl
  | hop i a partly =>
    obtain ⟨hop, hop', found, moved, -⟩ := hop_step taken
    constructor
    · intro answers h among buf frame probe
      rw [Option.mem_def, found, Option.some.injEq] at among
      subst among
      have written := answers hop hop' buf found moved frame probe
      rw [Hop.step_toMaster moved frame] at written
      simp [chainDetectAck] at written
    · intro quiet h h' buf among _ frame probe
      exact absurd probe (quiet h among buf frame)

/-- **Chain detection is hop by hop exactly when there is none.** For every chain of proxies that
have forwarded nothing yet, with any ciphers and any key of the server, and every interleaving of
their masters, their turns and the server's: no proxy writes a probe to its upstream and each
probe is answered by the proxy that reads it, if and only if no proxy reads a probe. -/
theorem hop_by_hop_iff (key : Option Key) (s : ProxyChain) (fresh : ∀ hop ∈ s.hops, hop.control.forwarded = [])
    (acts : List ChainAct) :
    Always (step key) NoProbeForwarded s acts ∧ Along (step key) AnswersProbe s acts ↔
      Along (step key) NoProbeRead s acts := by
  rw [along_congr fun _ _ _ => answersProbe_iff]
  refine and_iff_right_of_imp fun admits => always_of_along (I := NoProbeForwarded) ?_ ?_ admits
  · intro s a t unsent quiet taken
    cases a with
    | serve env n cut =>
      simp only [step] at taken
      split at taken
      · cases taken
        exact unsent
      · cases taken
    | hop i a partly =>
      obtain ⟨hop, hop', found, moved, hops⟩ := hop_step taken
      have clean := Hop.forwarded_all (P := fun buf => buf.cmd ≠ cmdChainDetect) moved
        (fun buf admitted => quiet hop found buf (Hop.frameRead_of_admitted admitted))
        (unsent hop (List.mem_of_getElem? found))
      intro h member
      rcases hops h member with same | ⟨old, inside, same⟩
      · rw [same]
        exact clean
      · rw [same]
        exact unsent old inside
  · intro hop member entry inside
    rw [fresh hop member] at inside
    cases inside

end ProxyChain

/-- A server with two proxies on top of it, all without a key. -/
def plainChain : ProxyChain :=
  ⟨.start [] .new (.new commandRateLimitInterval 0 0), true, [], [plainHop, plainHop]⟩

/-- The second proxy connects to the first: its probe is read, and the server reads what the first
proxy makes of it. -/
def secondConnects : List ChainAct :=
  [.hop 0 (.accept true 0 0) 0, .hop 0 (.send probe) 0, .hop 0 (.turn (calmProxyEnv 0) 5 .timedOut) 0,
   .serve (MasterControl.calmEnv 1) 5 .timedOut]

/-- The first proxy passes the probe on and answers nothing; the acknowledgement comes from the
server, into the samples that the first proxy relays. -/
theorem probe_reaches_server :
    letI := zeroChaCha
    (run (ProxyChain.step none) plainChain secondConnects).map (fun t =>
        (t.hops.map fun hop => (hop.control.forwarded.map Prod.fst, hop.toMaster), t.server.written.map Prod.fst)) =
        some ([([⟨probe, rfl⟩], magicPacket.toList), ([], [])], [chainDetectAck]) ∧
      ¬(Always (ProxyChain.step none) ProxyChain.NoProbeForwarded plainChain secondConnects ∧
        Along (ProxyChain.step none) ProxyChain.AnswersProbe plainChain secondConnects) := by
  let _ := zeroChaCha
  have sent : (run (ProxyChain.step none) plainChain secondConnects).map (fun t =>
      (t.hops.map fun hop => (hop.control.forwarded.map Prod.fst, hop.toMaster), t.server.written.map Prod.fst)) =
      some ([([⟨probe, rfl⟩], magicPacket.toList), ([], [])], [chainDetectAck]) := by decide
  refine ⟨sent, fun ⟨clean, _⟩ => ?_⟩
  obtain ⟨t, reached, data⟩ := Option.map_eq_some_iff.1 sent
  obtain ⟨hops, -⟩ := Prod.mk.inj data
  obtain ⟨hop, among, log⟩ := List.mem_map.1 (hops ▸ List.mem_cons_self ..)
  obtain ⟨frames, -⟩ := Prod.mk.inj log
  obtain ⟨entry, inside, frame⟩ := List.mem_map.1 (frames ▸ List.mem_singleton.2 rfl)
  exact clean.last reached hop among entry inside (by rw [frame]; rfl)

/-- A chain on which a client tunes: the condition holds and nothing else is passed on. -/
theorem tuning_passes_on :
    letI := zeroChaCha
    Always (ProxyChain.step none) ProxyChain.NoProbeForwarded plainChain
      ((clientSends [0x01, 0x05, 0xFD, 0x82, 0x20]).map (ChainAct.hop 1 · 0)) := by
  let _ := zeroChaCha
  have quiet : Along (ProxyChain.step none) ProxyChain.NoProbeRead plainChain
      ((clientSends [0x01, 0x05, 0xFD, 0x82, 0x20]).map (ChainAct.hop 1 · 0)) := by
    decide
  exact ((ProxyChain.hop_by_hop_iff none plainChain (by decide) _).2 quiet).1

end RtlTcp
