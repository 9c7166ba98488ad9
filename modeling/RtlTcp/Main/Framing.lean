import RtlTcp.Lib.Framing
import RtlTcp.Main.MasterControl
import RtlTcp.Main.SingleControl
import RtlTcp.Main.ProxyControl
import RtlTcp.Replay

/-!
# Command framing across read timeouts

Each control loop reads its frames with `read_exact` on a socket that has a read timeout, and
goes on with the next iteration when the timeout strikes. A timeout in the middle of a frame
drops the bytes read so far, so the loops stay on the frame boundaries for exactly the arrival
patterns that `Aligned` describes: `framing_iff_aligned`, for all four loops.
-/

namespace RtlTcp
set_option autoImplicit false
open ByteIo Transition

/-- A control loop as a reader of frames. `view` is the frame as command processing sees it,
`views` the same for a sequence of frames, and `calm` an environment in which the loop goes on. -/
structure FrameLoop (σ ε : Type) where
  turn : σ → ε → Flow × σ
  stream : σ → List Arrival
  view : σ → Frame → Frame
  views : σ → List Frame → List Frame
  calm : ε → Prop

namespace FrameLoop
variable {σ ε : Type} (L : FrameLoop σ ε)

/-- The frames handed to command processing, turn by turn until the loop leaves. -/
def handed : σ → List ε → List Frame
  | _, [] => []
  | s, e :: es =>
    let later := match L.turn s e with
      | (.again, s') => handed s' es
      | (.leave, _) => []
    match readExact commandHeaderSize (L.stream s) with
    | (.ok buf, _) => L.view s buf :: later
    | (.error _, _) => later

/-- At any time, the frames handed over are the groups of five of the bytes taken so far; and
a loop that nothing stops hands over the groups of the whole stream. -/
structure KeepsFraming (s : σ) : Prop where
  soFar : ∀ answers, L.handed s answers =
    L.views s (cut commandHeaderSize (taken (L.stream s) (L.stream (loop L.turn s answers))))
  whole : ∀ answers, (∀ e ∈ answers, L.calm e) → (L.stream s).length ≤ answers.length →
    L.handed s answers = L.views s (cut commandHeaderSize (bytesOf (L.stream s)))

/-- What one turn of a frame loop does with its stream, in states with the invariant `Inv`. -/
structure Sound (Inv : σ → Prop) : Prop where
  views_nil : ∀ s, L.views s [] = []
  frame : ∀ {s e buf rest flow s'}, Inv s → readExact commandHeaderSize (L.stream s) = (.ok buf, rest) →
    L.turn s e = (flow, s') → L.stream s' = rest ∧ Inv s' ∧ (L.calm e → flow = .again) ∧
      ∀ bufs, L.views s (buf :: bufs) = L.view s buf :: L.views s' bufs
  failure : ∀ {s e err rest flow s'}, Inv s → readExact commandHeaderSize (L.stream s) = (.error err, rest) →
    L.turn s e = (flow, s') → L.stream s' = rest ∧ Inv s' ∧ (L.calm e → err.isTimeout → flow = .again) ∧
      ∀ bufs, L.views s' bufs = L.views s bufs

variable {L} {Inv : σ → Prop}

/-- A loop reads as some number of `read_exact` calls read. -/
theorem Sound.reads (sound : L.Sound Inv) (es : List ε) {s : σ} (inv : Inv s) :
    ∃ m, L.handed s es = L.views s (readFrames commandHeaderSize m (L.stream s)).1 ∧
      L.stream (loop L.turn s es) = (readFrames commandHeaderSize m (L.stream s)).2 := by
  induction es generalizing s with
  | nil => exact ⟨0, (sound.views_nil s).symm, rfl⟩
  | cons e es ih =>
    match read : readExact commandHeaderSize (L.stream s), taken : L.turn s e with
    | (.ok buf, rest), (.again, s') =>
      obtain ⟨rfl, inv', -, views⟩ := sound.frame inv read taken
      obtain ⟨m, frames, left⟩ := ih inv'
      refine ⟨m + 1, ?_, ?_⟩
      · simp only [handed, readFrames, read, taken, views, frames]
      · rw [loop_again taken]
        simp only [readFrames, read, left]
    | (.ok buf, rest), (.leave, s') =>
      obtain ⟨rfl, -, -, views⟩ := sound.frame inv read taken
      refine ⟨1, ?_, ?_⟩
      · simp only [handed, readFrames, read, taken, views, sound.views_nil]
      · rw [loop_leave taken]
        simp only [readFrames, read]
    | (.error err, rest), (.again, s') =>
      obtain ⟨rfl, inv', -, views⟩ := sound.failure inv read taken
      obtain ⟨m, frames, left⟩ := ih inv'
      refine ⟨m + 1, ?_, ?_⟩
      · simp only [handed, readFrames, read, taken, ← views, frames]
      · rw [loop_again taken]
        simp only [readFrames, read, left]
    | (.error err, rest), (.leave, s') =>
      obtain ⟨rfl, -, -, -⟩ := sound.failure inv read taken
      refine ⟨1, ?_, ?_⟩
      · simp only [handed, readFrames, read, taken, sound.views_nil]
      · rw [loop_leave taken]
        simp only [readFrames, read]

/-- A loop that nothing stops takes the whole stream. -/
theorem Sound.drains (sound : L.Sound Inv) {es : List ε} (calm : ∀ e ∈ es, L.calm e) {p : List Slot} {s : σ}
    (inv : Inv s) (follows : Follows p (L.stream s)) (enough : (L.stream s).length ≤ es.length) :
    L.stream (loop L.turn s es) = [] := by
  induction es generalizing s p with
  | nil => exact List.eq_nil_of_length_eq_zero (Nat.le_zero.1 enough)
  | cons e es ih =>
    have calmHere := calm e (List.mem_cons_self ..)
    have calmLater : ∀ e' ∈ es, L.calm e' := fun e' member => calm e' (List.mem_cons_of_mem _ member)
    obtain ⟨flow, s', taken⟩ : ∃ flow s', L.turn s e = (flow, s') := ⟨_, _, rfl⟩
    generalize shape : L.stream s = stream at follows enough
    cases follows.outcome commandHeaderSize with
    | frame v rest later =>
      have read := readExact_bytes v rest
      rw [← shape] at read
      obtain ⟨rfl, inv', again, -⟩ := sound.frame inv read taken
      rw [again calmHere] at taken
      rw [loop_again taken]
      apply ih calmLater inv' later
      simp only [List.length_append, List.length_map, List.Vector.toList_length, List.length_cons,
        commandHeaderSize] at enough
      omega
    | timeout bs t rest short later =>
      have read := readExact_timeout short t rest
      rw [← shape] at read
      obtain ⟨rfl, inv', again, -⟩ := sound.failure inv read taken
      rw [again calmHere t.isTimeout_kind] at taken
      rw [loop_again taken]
      apply ih calmLater inv' later
      simp only [List.length_append, List.length_map, List.length_cons] at enough
      omega
    | eof bs short =>
      have read := readExact_eof short
      rw [← shape] at read
      obtain ⟨stream', inv', -, -⟩ := sound.failure inv read taken
      cases flow with
      | leave => rw [loop_leave taken, stream']
      | again =>
        have ended : Follows [] (L.stream s') := stream' ▸ Follows.nil
        rw [loop_again taken]
        exact ih calmLater inv' ended (by rw [stream']; exact Nat.zero_le _)

/-- **Aligned patterns keep a loop on the frame boundaries.** -/
theorem Sound.keepsFraming (sound : L.Sound Inv) {p : List Slot} (aligned : Aligned commandHeaderSize p) {s : σ}
    (inv : Inv s) (follows : Follows p (L.stream s)) : L.KeepsFraming s := by
  have soFar : ∀ answers, L.handed s answers =
      L.views s (cut commandHeaderSize (taken (L.stream s) (L.stream (loop L.turn s answers)))) := by
    intro answers
    obtain ⟨m, frames, left⟩ := sound.reads answers inv
    rw [frames, left, frames_kept (by decide) m aligned follows]
  refine ⟨soFar, fun answers calm enough => ?_⟩
  rw [soFar, sound.drains calm inv follows enough, taken_eq (List.append_nil _).symm]

/-- **Other patterns do not**, for a state that sees the frames as they are. -/
theorem Sound.losesFraming (sound : L.Sound Inv) {s : σ} (inv : Inv s) {p : List Slot}
    (follows : Follows p (L.stream s)) (plain : ∀ bufs, L.views s bufs = bufs) {e : ε} (calm : L.calm e)
    (differ : ∀ m, (readFrames commandHeaderSize m (L.stream s)).2 = [] →
      (readFrames commandHeaderSize m (L.stream s)).1 ≠ cut commandHeaderSize (bytesOf (L.stream s))) :
    ¬L.KeepsFraming s := by
  intro keeps
  let answers := List.replicate (L.stream s).length e
  have calmAll : ∀ e' ∈ answers, L.calm e' := fun e' member => List.eq_of_mem_replicate member ▸ calm
  have enough : (L.stream s).length ≤ answers.length := by simp [answers]
  obtain ⟨m, frames, left⟩ := sound.reads answers inv
  rw [sound.drains calmAll inv follows enough] at left
  apply differ m left.symm
  have groups := keeps.whole answers calmAll enough
  rwa [frames, plain, plain] at groups

end FrameLoop

/-! ## The four loops -/

/-- The control thread of `run_serve_single`. -/
def singleLoop : FrameLoop SingleControl Env where
  turn := SingleControl.turn
  stream := SingleControl.stream
  view _ buf := buf
  views _ bufs := bufs
  calm env := env.shouldExit = false

/-- `cmd_thread` of `replay.rs`. -/
def replayLoop : FrameLoop Replay.CmdThread Bool where
  turn := Replay.CmdThread.turn
  stream := Replay.CmdThread.stream
  view _ buf := buf
  views _ bufs := bufs
  calm quit := quit = false

theorem singleLoop_sound : singleLoop.Sound fun _ => True where
  views_nil _ := rfl
  frame {s e buf rest flow s'} _ read taken := by
    simp only [singleLoop, SingleControl.turn] at read taken
    rw [read] at taken
    refine ⟨?_, trivial, fun calm => ?_, fun _ => rfl⟩
    · dsimp only at taken
      split at taken
      · cases taken; rfl
      · split at taken <;> cases taken
        · rfl
        · exact SingleControl.dispatch_stream ..
    · simp only [singleLoop] at calm
      simp only [calm, Bool.false_eq_true, if_false] at taken
      split at taken <;> cases taken <;> rfl
  failure {s e err rest flow s'} _ read taken := by
    simp only [singleLoop, SingleControl.turn] at read taken
    rw [read] at taken
    refine ⟨?_, trivial, fun _ timeout => ?_, fun _ => rfl⟩
    · dsimp only at taken
      split at taken <;> cases taken <;> rfl
    · rw [ErrorKind.isTimeout] at timeout
      simp only [timeout, if_true] at taken
      cases taken; rfl

theorem replayLoop_sound : replayLoop.Sound fun _ => True where
  views_nil _ := rfl
  frame {s e buf rest flow s'} _ read taken := by
    simp only [replayLoop, Replay.CmdThread.turn] at read taken
    rw [read] at taken
    cases taken
    exact ⟨rfl, trivial, fun _ => rfl, fun _ => rfl⟩
  failure {s e err rest flow s'} _ read taken := by
    simp only [replayLoop, Replay.CmdThread.turn] at read taken
    rw [read] at taken
    refine ⟨?_, trivial, fun calm timeout => ?_, fun _ => rfl⟩
    · dsimp only at taken
      split at taken
      · cases taken; rfl
      · split at taken <;> cases taken <;> rfl
    · simp only [replayLoop] at calm
      cases err <;> first | cases timeout; done | skip
      all_goals
        subst calm
        cases taken; rfl

theorem cmd_mem (buf : Frame) : buf.cmd ∈ buf.toList := by
  obtain ⟨b, payload, rfl⟩ := List.Vector.exists_eq_cons buf
  simp [Frame.cmd]

/-- Frames after `apply_keystream` one after the other. -/
def decryptAll [ChaCha] : Option ChaCha20 → List Frame → List Frame
  | _, [] => []
  | none, buf :: bufs => buf :: decryptAll none bufs
  | some cipher, buf :: bufs => (cipher.applyArray buf).1 :: decryptAll (some (cipher.applyArray buf).2) bufs

section
variable [ChaCha]

/-- The control thread of `run_proxy_multi`. -/
def proxyLoop : FrameLoop ProxyControl ProxyEnv where
  turn := ProxyControl.turn
  stream := ProxyControl.stream
  view _ buf := buf
  views _ bufs := bufs
  calm env := env.shouldExit = false ∧ env.upstreamLock = true ∧ env.sent = .ok ()

/-- `spawn_master_control_thread`. -/
def masterLoop (key : Option Key) : FrameLoop MasterControl Env where
  turn := MasterControl.turn key
  stream := MasterControl.stream
  view s buf := (s.decrypt buf).1
  views s bufs := decryptAll s.readCipher bufs
  calm env := env.shouldExit = false

theorem proxyLoop_sound : proxyLoop.Sound fun _ => True where
  views_nil _ := rfl
  frame {s e buf rest flow s'} _ read taken := by
    simp only [proxyLoop, ProxyControl.turn] at read taken
    rw [read] at taken
    refine ⟨?_, trivial, fun calm => ?_, fun _ => rfl⟩
    · dsimp only at taken
      split at taken
      · cases taken; rfl
      · split at taken
        · cases taken; rfl
        · exact (congrArg (fun r => r.2.stream) taken).symm.trans (ProxyControl.forward_stream ..)
    · obtain ⟨running, unlocked, sent⟩ := calm
      simp only [running, Bool.false_eq_true, if_false] at taken
      split at taken
      · cases taken; rfl
      · simp only [ProxyControl.forward, unlocked, if_true, sent] at taken
        cases taken; rfl
  failure {s e err rest flow s'} _ read taken := by
    simp only [proxyLoop, ProxyControl.turn] at read taken
    rw [read] at taken
    refine ⟨?_, trivial, fun _ timeout => ?_, fun _ => rfl⟩
    · dsimp only at taken
      split at taken
      · cases taken; rfl
      · split at taken <;> cases taken <;> rfl
    · rw [ErrorKind.isTimeout] at timeout
      simp only [timeout, if_true] at taken
      cases taken; rfl

theorem decryptAll_none (bufs : List Frame) : decryptAll none bufs = bufs := by
  induction bufs with
  | nil => rfl
  | cons buf bufs ih => rw [decryptAll, ih]

theorem decryptAll_cons (s : MasterControl) (buf : Frame) (bufs : List Frame) :
    decryptAll s.readCipher (buf :: bufs) = (s.decrypt buf).1 :: decryptAll (s.decrypt buf).2.readCipher bufs := by
  cases cipher : s.readCipher <;> simp only [MasterControl.decrypt, decryptAll, cipher]

theorem decryptAll_front {bufs more : List Frame} (h : bufs <+: more) (cipher : Option ChaCha20) :
    decryptAll cipher bufs <+: decryptAll cipher more := by
  induction bufs generalizing more cipher with
  | nil => simp [decryptAll]
  | cons buf bufs ih =>
    obtain ⟨rest, rfl⟩ := h
    cases cipher with
    | none => exact List.cons_prefix_cons.2 ⟨rfl, ih ⟨rest, rfl⟩ _⟩
    | some cipher => exact List.cons_prefix_cons.2 ⟨rfl, ih ⟨rest, rfl⟩ _⟩

/-- No frame that the loop will read starts a handshake, which would take the twelve bytes
after it out of the stream. -/
def NoHandshake (key : Option Key) (s : MasterControl) : Prop :=
  key = none ∨ ∀ m, ∀ buf ∈ decryptAll s.readCipher (readFrames commandHeaderSize m s.stream).1,
    buf.cmd ≠ cmdChainDetect

theorem masterLoop_sound (key : Option Key) : (masterLoop key).Sound (NoHandshake key) where
  views_nil s := by simp only [masterLoop, decryptAll]
  frame {s e raw rest flow s'} inv read taken := by
    simp only [masterLoop, MasterControl.turn] at read taken
    rw [read] at taken
    let t : MasterControl := { s with stream := rest }
    have cons : ∀ bufs, decryptAll s.readCipher (raw :: bufs) =
        (t.decrypt raw).1 :: decryptAll (t.decrypt raw).2.readCipher bufs := decryptAll_cons t raw
    have plain : key = none ∨ (t.decrypt raw).1.cmd ≠ cmdChainDetect := by
      refine inv.imp_right fun noProbe => noProbe 1 _ ?_
      simp only [readFrames, read, cons]
      exact List.mem_cons_self ..
    have result : MasterControl.process key (t.decrypt raw).2 e (t.decrypt raw).1 = (flow, s') := taken
    obtain ⟨stream, cipher⟩ := MasterControl.process_plain plain (t.decrypt raw).2 e
    rw [result] at stream cipher
    have left : (t.decrypt raw).2.stream = rest := by unfold MasterControl.decrypt; split <;> rfl
    refine ⟨stream.trans left, ?_, fun calm => ?_, fun bufs => ?_⟩
    · refine inv.imp_right fun noProbe m buf member => noProbe (m + 1) buf ?_
      rw [show s'.stream = rest from stream.trans left, show s'.readCipher = _ from cipher] at member
      simp only [readFrames, read, cons]
      exact List.mem_cons_of_mem _ member
    · have again : (MasterControl.process key (t.decrypt raw).2 e (t.decrypt raw).1).1 = .again :=
        MasterControl.process_again calm
      rwa [result] at again
    · have cipher : s'.readCipher = (t.decrypt raw).2.readCipher := cipher
      have same : (s.decrypt raw).1 = (t.decrypt raw).1 := by
        cases known : s.readCipher <;> simp only [MasterControl.decrypt, t, known]
      simp only [masterLoop, cipher, cons, same]
  failure {s e err rest flow s'} inv read taken := by
    simp only [masterLoop, MasterControl.turn] at read taken
    rw [read] at taken
    have kept : s' = { s with stream := rest } := by
      dsimp only at taken
      split at taken <;> cases taken <;> rfl
    subst kept
    refine ⟨rfl, ?_, fun _ timeout => ?_, fun _ => rfl⟩
    · refine inv.imp_right fun noProbe m buf member => noProbe (m + 1) buf ?_
      simpa only [readFrames, read] using member
    · rw [ErrorKind.isTimeout] at timeout
      simp only [timeout, if_true] at taken
      cases taken; rfl

/-- Without a probe among the groups of the stream, an aligned loop reads none. -/
theorem noHandshake_of_aligned {key : Option Key} {p : List Slot} (aligned : Aligned commandHeaderSize p)
    {s : MasterControl} (follows : Follows p s.stream)
    (noProbe : key = none ∨ ∀ buf ∈ decryptAll s.readCipher (cut commandHeaderSize (bytesOf s.stream)),
      buf.cmd ≠ cmdChainDetect) : NoHandshake key s := by
  refine noProbe.imp_right fun noProbe m buf member => noProbe buf ?_
  obtain ⟨gone, split⟩ := bytesOf_readFrames commandHeaderSize m s.stream
  rw [frames_kept (by decide) m aligned follows, taken_eq split] at member
  rw [split]
  exact (decryptAll_front (cut_append_left ..) _).subset member

/-- **Command framing.** For every arrival pattern, each of the four control loops hands the
groups of five to command processing, whatever the bytes are, exactly when every timeout of the
pattern falls between two groups or inside one that the stream does not complete. The groups
are decrypted in order if the loop has a read cipher; with a key, the groups of the stream are
commands other than the probe, after which the handshake takes bytes that are no commands. -/
theorem framing_iff_aligned (key : Option Key) (p : List Slot) :
    ((∀ s : SingleControl, Follows p s.stream → singleLoop.KeepsFraming s) ↔ Aligned commandHeaderSize p) ∧
      ((∀ s : MasterControl, Follows p s.stream →
        (key = none ∨ ∀ buf ∈ decryptAll s.readCipher (cut commandHeaderSize (bytesOf s.stream)),
          buf.cmd ≠ cmdChainDetect) →
        (masterLoop key).KeepsFraming s) ↔ Aligned commandHeaderSize p) ∧
      ((∀ s : ProxyControl, Follows p s.stream → proxyLoop.KeepsFraming s) ↔ Aligned commandHeaderSize p) ∧
      ((∀ s : Replay.CmdThread, Follows p s.stream → replayLoop.KeepsFraming s) ↔
        Aligned commandHeaderSize p) := by
  let limiter : RateLimiter := .new commandRateLimitInterval 0 0
  refine ⟨⟨fun keeps => ?_, fun aligned s follows => ?_⟩, ⟨fun keeps => ?_, fun aligned s follows noProbe => ?_⟩,
    ⟨fun keeps => ?_, fun aligned s follows => ?_⟩, ⟨fun keeps => ?_, fun aligned s follows => ?_⟩⟩
  · by_contra misplaced
    obtain ⟨arrivals, follows, -, differ⟩ := frames_lost (by decide) misplaced
    let s : SingleControl := ⟨arrivals, [], .new ⟨[]⟩, .new, 0, limiter⟩
    have calm : singleLoop.calm (MasterControl.calmEnv 0) := rfl
    exact singleLoop_sound.losesFraming (s := s) trivial follows (fun _ => rfl) calm differ (keeps s follows)
  · exact singleLoop_sound.keepsFraming aligned trivial follows
  · by_contra misplaced
    obtain ⟨arrivals, follows, small, differ⟩ := frames_lost (by decide) misplaced
    let s : MasterControl := .start arrivals .new limiter
    have other : ∀ b ∈ bytesOf arrivals, b ≠ cmdChainDetect := by
      intro b member
      rcases small b member with rfl | rfl <;> decide
    have inv : NoHandshake key s := .inr fun m buf member => by
      have member : buf ∈ decryptAll none (readFrames commandHeaderSize m arrivals).1 := member
      rw [decryptAll_none] at member
      exact other _ (mem_readFrames member (cmd_mem buf))
    have noProbe : ∀ buf ∈ decryptAll s.readCipher (cut commandHeaderSize (bytesOf s.stream)),
        buf.cmd ≠ cmdChainDetect := by
      intro buf member
      have member : buf ∈ decryptAll none (cut commandHeaderSize (bytesOf arrivals)) := member
      rw [decryptAll_none] at member
      rcases mem_cut member (cmd_mem buf) with there | zero
      · exact other _ there
      · rw [zero]; decide
    have calm : (masterLoop key).calm (MasterControl.calmEnv 0) := rfl
    exact (masterLoop_sound key).losesFraming inv follows decryptAll_none calm differ (keeps s follows (.inr noProbe))
  · exact (masterLoop_sound key).keepsFraming aligned (noHandshake_of_aligned aligned follows noProbe) follows
  · by_contra misplaced
    obtain ⟨arrivals, follows, -, differ⟩ := frames_lost (by decide) misplaced
    let s : ProxyControl := ⟨arrivals, limiter, none, []⟩
    let e : ProxyEnv := ⟨false, 0, true, .ok ()⟩
    have calm : proxyLoop.calm e := ⟨rfl, rfl, rfl⟩
    exact proxyLoop_sound.losesFraming (s := s) trivial follows (fun _ => rfl) calm differ (keeps s follows)
  · exact proxyLoop_sound.keepsFraming aligned trivial follows
  · by_contra misplaced
    obtain ⟨arrivals, follows, -, differ⟩ := frames_lost (by decide) misplaced
    let s : Replay.CmdThread := ⟨arrivals, []⟩
    have calm : replayLoop.calm false := rfl
    exact replayLoop_sound.losesFraming (s := s) trivial follows (fun _ => rfl) calm differ (keeps s follows)
  · exact replayLoop_sound.keepsFraming aligned trivial follows

end

/-- `SET_FREQUENCY` with a timeout after its first byte, then `SET_SAMPLE_RATE`. -/
def splitCommand : List Arrival :=
  [.byte 0x01, .fail .timedOut, .byte 0x05, .byte 0xFD, .byte 0x82, .byte 0x20,
    .byte 0x02, .byte 0x00, .byte 0x1F, .byte 0x40, .byte 0x00]

/-- All four loops hand over one frame, made of the end of the first and the start of the
second command. -/
theorem timeout_shifts_frames :
    letI := zeroChaCha
    let limiter : RateLimiter := .new commandRateLimitInterval 0 0
    let shifted : List Frame := [⟨[0x05, 0xFD, 0x82, 0x20, 0x02], rfl⟩]
    singleLoop.handed ⟨splitCommand, [], .new ⟨[]⟩, .new, 0, limiter⟩
        (List.replicate 11 (MasterControl.calmEnv 0)) = shifted ∧
      (masterLoop none).handed (.start splitCommand .new limiter)
        (List.replicate 11 (MasterControl.calmEnv 0)) = shifted ∧
      proxyLoop.handed ⟨splitCommand, limiter, none, []⟩ (List.replicate 11 ⟨false, 0, true, .ok ()⟩) = shifted ∧
      replayLoop.handed ⟨splitCommand, []⟩ (List.replicate 11 false) = shifted ∧
      shifted ≠ cut commandHeaderSize (bytesOf splitCommand) := by
  decide

end RtlTcp
