import RtlTcp.Limiter
import RtlTcp.Main.Framing

/-!
# `run_serve_multi`: one master after the other

The accept loop joins the control thread of a master before it accepts the next one. The sessions
share the device and its `AgcState`; each has a rate limiter of its own. A session here is any
stream of arrivals with any timeouts, any clock, with or without a key, and it ends when the
stream does or before.

`sessions_spec` says what the device is told over all sessions, and `sessions_rate` how fast.
-/

namespace RtlTcp
set_option autoImplicit false
open ByteIo Transition

/-- What the control threads of successive sessions share. -/
structure SharedDevice where
  ctl : Mutex Controller
  agcState : AgcState
  encryptionNonces : Option (Nonce × Nonce)

/-- One session: what arrives from the master, the two clock readings of `RateLimiter::new`, and what
the iterations of the loop observe. -/
structure MasterInput where
  stream : List Arrival
  now : Nat
  again : Nat
  envs : List Env

namespace SharedDevice

def new : SharedDevice := ⟨.new ⟨[]⟩, .new, none⟩

/-- The calls made on the device. -/
def calls (d : SharedDevice) : List DeviceCall := d.ctl.value.calls.map Prod.fst

/-- The control thread of a new session at the head of its loop. -/
def spawn (d : SharedDevice) (input : MasterInput) : MasterControl where
  stream := input.stream
  written := []
  ctl := d.ctl
  agcState := d.agcState
  unknownCommandCount := 0
  encryptionNonces := d.encryptionNonces
  readCipher := none
  writeCipher := none
  rateLimiter := .new commandRateLimitInterval input.now input.again

/-- What a control thread leaves to the next one. -/
def ofThread (t : MasterControl) : SharedDevice := ⟨t.ctl, t.agcState, t.encryptionNonces⟩

variable [ChaCha]

/-- One session, to the join of its control thread. -/
def session (key : Option Key) (d : SharedDevice) (input : MasterInput) : SharedDevice :=
  ofThread (loop (MasterControl.turn key) (d.spawn input) input.envs)

/-- The loop of `run_serve_multi` over its masters. -/
def sessions (key : Option Key) (d : SharedDevice) (inputs : List MasterInput) : SharedDevice :=
  inputs.foldl (session key) d

end SharedDevice

/-- The gain mode that the last of some calls has set. -/
def AgcState.after (a : AgcState) (calls : List DeviceCall) : AgcState :=
  calls.foldl (fun a call => match call with
    | .enableAgc => ⟨true⟩
    | .disableAgc => ⟨false⟩
    | _ => a) a

theorem AgcState.after_append (a : AgcState) (before later : List DeviceCall) :
    a.after (before ++ later) = (a.after before).after later :=
  List.foldl_append ..

/-- A call that passes is due, and becomes the last one. -/
theorem RateLimiter.check_accepted {r : RateLimiter} {now : Nat} (positive : 0 < r.minInterval)
    (accepted : (r.check now).1 = true) :
    r.lastCommand + r.minInterval ≤ now ∧ (r.check now).2 = { r with lastCommand := now } := by
  rw [check_eq positive] at accepted ⊢
  split at accepted
  · rename_i due
    rw [if_pos due]
    exact ⟨by simpa [RateLimiter.due] using due, rfl⟩
  · cases accepted

namespace MasterControl

/-! ## One command, with or without a key -/

/-- Only a probe is handled differently with a key. -/
theorem dispatch_key {buf : Frame} (other : buf.cmd ≠ cmdChainDetect) (key : Option Key) (s : MasterControl) (env : Env) :
    s.dispatch key env buf = s.dispatch none env buf := by
  unfold dispatch
  split <;> rename_i cmd
  case h_7 => exact absurd cmd other
  all_goals rfl

/-- A probe leaves the device alone. -/
theorem chainDetect_frame (key : Option Key) (s : MasterControl) (env : Env) :
    (s.chainDetect key env).ctl = s.ctl ∧ (s.chainDetect key env).agcState = s.agcState ∧
      (s.chainDetect key env).rateLimiter = s.rateLimiter := by
  unfold chainDetect
  dsimp only
  split
  · exact ⟨rfl, rfl, rfl⟩
  · split <;> exact ⟨rfl, rfl, rfl⟩

/-- The flag follows the calls on the device. -/
theorem dispatch_agcState (s : MasterControl) (env : Env) (buf : Frame) :
    (s.dispatch none env buf).agcState = s.agcState.after (commandCall buf).toList := by
  have quiet : buf.cmd ≠ 0x03 → buf.cmd ≠ 0x08 → ∀ a : AgcState, a.after (commandCall buf).toList = a := by
    intro mode agc a
    simp only [commandCall, if_neg mode, if_neg agc]
    repeat' split
    all_goals rfl
  unfold dispatch
  split <;> rename_i cmd
  case h_3 =>
    have cmd : buf.cmd = 0x03 := cmd
    dsimp only
    split <;> rename_i manual <;> rw [int32_pos_iff] at manual <;> simp [commandCall, cmd, manual] <;> rfl
  case h_6 =>
    have cmd : buf.cmd = 0x08 := cmd
    dsimp only
    split <;> rename_i on <;> rw [uint32_one_iff] at on <;> simp [commandCall, cmd, on] <;> rfl
  case h_7 =>
    rw [quiet (by rw [cmd]; decide) (by rw [cmd]; decide)]
    rfl
  case h_8 h1 h2 h3 h4 h5 h8 => rw [quiet h3 h8]
  all_goals
    dsimp only
    rw [quiet (by rw [cmd]; decide) (by rw [cmd]; decide)]
    split <;> rfl

/-- What a control thread does to the device when it dispatches `frames`. -/
structure Told (s : MasterControl) (frames : List Frame) (t : MasterControl) : Prop where
  calls : t.ctl.value.calls.map Prod.fst = s.ctl.value.calls.map Prod.fst ++ frames.filterMap commandCall
  agcState : t.agcState = s.agcState.after (frames.filterMap commandCall)
  sound : t.ctl.poisoned = s.ctl.poisoned

/-- A thread that leaves the device alone. -/
theorem Told.none {s t : MasterControl} (ctl : t.ctl = s.ctl) (agcState : t.agcState = s.agcState) : Told s [] t :=
  ⟨by rw [ctl]; simp, agcState, by rw [ctl]⟩

theorem Told.trans {s t u : MasterControl} {before later : List Frame} (first : Told s before t) (second : Told t later u) :
    Told s (before ++ later) u where
  calls := by rw [second.calls, first.calls, List.filterMap_append, List.append_assoc]
  agcState := by rw [second.agcState, first.agcState, List.filterMap_append, AgcState.after_append]
  sound := second.sound.trans first.sound

/-- **One command**, with or without a key. -/
theorem dispatch_told {s : MasterControl} (sound : s.ctl.poisoned = false) (key : Option Key) (env : Env) (buf : Frame) :
    Told s [buf] (s.dispatch key env buf) ∧ (s.dispatch key env buf).rateLimiter = s.rateLimiter := by
  by_cases probe : buf.cmd = cmdChainDetect
  · obtain ⟨ctl, agcState, limiter⟩ := chainDetect_frame key s env
    have quiet : commandCall buf = none := by
      have probe : buf.cmd = 0xF0 := probe
      simp [commandCall, probe]
    rw [dispatch_probe probe]
    refine ⟨⟨?_, ?_, by rw [ctl]⟩, limiter⟩
    · simp [ctl, quiet]
    · rw [agcState, List.filterMap_cons, quiet]
      rfl
  · rw [dispatch_key probe]
    have effect := dispatched sound env buf
    refine ⟨⟨effect.interpreted.calls, ?_, effect.sound⟩, effect.limiter⟩
    rw [dispatch_agcState, List.filterMap_cons]
    cases commandCall buf <;> rfl

end MasterControl

namespace MasterControl
variable [ChaCha]

/-- The frame that one turn dispatches, if it does, with the clock reading at which the rate limiter let
it pass. -/
def passed (s : MasterControl) (env : Env) : List (Nat × Frame) :=
  match readExact commandHeaderSize s.stream with
  | (.ok raw, _) =>
    if env.shouldExit = false ∧ (s.rateLimiter.check env.now).1 = true then [(env.now, (s.decrypt raw).1)] else []
  | (.error _, _) => []

/-- The frames that a control thread dispatches. -/
def executed (key : Option Key) (s : MasterControl) : List Env → List (Nat × Frame)
  | [] => []
  | env :: envs =>
    s.passed env ++
      match s.turn key env with
      | (.again, s') => executed key s' envs
      | (.leave, _) => []

/-! ## One turn -/

theorem decrypt_frame (s : MasterControl) (raw : Frame) :
    (s.decrypt raw).2.ctl = s.ctl ∧ (s.decrypt raw).2.agcState = s.agcState ∧
      (s.decrypt raw).2.rateLimiter = s.rateLimiter := by
  unfold decrypt
  cases s.readCipher <;> exact ⟨rfl, rfl, rfl⟩

/-- What a turn does to the device and to the limiter: nothing, or a frame is checked by the limiter
and, if it passes, dispatched. -/
inductive Turned (s : MasterControl) (env : Env) (t : MasterControl) : (frames : List (Nat × Frame)) → Prop where
  | idle (told : Told s [] t) (limiter : t.rateLimiter = s.rateLimiter) : Turned s env t []
  | dispatched (buf : Frame) (told : Told s [buf] t) (accepted : (s.rateLimiter.check env.now).1 = true)
    (limiter : t.rateLimiter = (s.rateLimiter.check env.now).2) : Turned s env t [(env.now, buf)]

omit [ChaCha] in
theorem Turned.told {s t : MasterControl} {env : Env} {frames : List (Nat × Frame)} (h : Turned s env t frames) :
    Told s (frames.map Prod.snd) t := by
  cases h with
  | idle told => exact told
  | dispatched buf told => exact told

theorem turned {s : MasterControl} (sound : s.ctl.poisoned = false) (key : Option Key) (env : Env) :
    Turned s env (s.turn key env).2 (s.passed env) := by
  match read : readExact commandHeaderSize s.stream with
  | (.error e, rest) =>
    have same : (s.turn key env).2 = { s with stream := rest } := by
      simp only [turn, read]
      split <;> rfl
    simp only [passed, read, same]
    exact .idle (.none rfl rfl) rfl
  | (.ok raw, rest) =>
    obtain ⟨ctl, agcState, limiter⟩ := decrypt_frame { s with stream := rest } raw
    have view : (MasterControl.decrypt { s with stream := rest } raw).1 = (s.decrypt raw).1 := by
      unfold decrypt
      cases s.readCipher <;> rfl
    simp only [passed, read, turn, process, limiter, view]
    cases exit : env.shouldExit with
    | true =>
      simp only [if_true, Bool.true_eq_false, false_and, if_false]
      exact .idle (.none ctl agcState) limiter
    | false =>
      cases accepted : (s.rateLimiter.check env.now).1 with
      | false =>
        simp only [Bool.false_eq_true, if_false, Bool.not_false, if_true, and_false]
        exact .idle (.none ctl agcState) (check_rejected accepted)
      | true =>
        simp only [Bool.false_eq_true, if_false, Bool.not_true, and_self, if_true]
        let limited : MasterControl := { (MasterControl.decrypt { s with stream := rest } raw).2 with
          rateLimiter := (s.rateLimiter.check env.now).2 }
        have before : Told s [] limited := .none ctl agcState
        obtain ⟨told, kept⟩ := dispatch_told (before.sound.trans sound) key env (s.decrypt raw).1
        exact .dispatched _ (before.trans told) accepted kept

/-! ## One session -/

theorem loop_told {s : MasterControl} (sound : s.ctl.poisoned = false) (key : Option Key) (envs : List Env) :
    Told s ((executed key s envs).map Prod.snd) (loop (turn key) s envs) := by
  induction envs generalizing s with
  | nil => exact .none rfl rfl
  | cons env envs ih =>
    have first := (turned sound key env).told
    match taken : s.turn key env with
    | (.again, s') =>
      rw [taken] at first
      simp only [executed, taken, loop, List.map_append]
      exact first.trans (ih (first.sound.trans sound))
    | (.leave, s') =>
      rw [taken] at first
      simp only [executed, taken, loop, List.append_nil]
      exact first

/-- The commands of a session keep the distance of the rate limiter, from its last one on. -/
theorem executed_apart {envs : List Env} {s : MasterControl} (sound : s.ctl.poisoned = false)
    (positive : 0 < s.rateLimiter.minInterval) (key : Option Key) :
    (s.rateLimiter.lastCommand :: (executed key s envs).map Prod.fst).Pairwise fun a b =>
      a + s.rateLimiter.minInterval ≤ b := by
  induction envs generalizing s with
  | nil => simp [executed]
  | cons env envs ih =>
    have step := turned sound key env
    -- whatever the rest of the run is, it starts from the limiter that the turn leaves
    have rest : ∀ later, ((s.turn key env).2.rateLimiter.lastCommand :: later).Pairwise (fun a b =>
        a + (s.turn key env).2.rateLimiter.minInterval ≤ b) →
        (s.rateLimiter.lastCommand :: ((s.passed env).map Prod.fst ++ later)).Pairwise fun a b =>
          a + s.rateLimiter.minInterval ≤ b := by
      intro later apart
      generalize s.passed env = frames at step
      cases step with
      | idle told limiter =>
        rw [limiter] at apart
        exact apart
      | dispatched buf told accepted limiter =>
        obtain ⟨due, last⟩ := RateLimiter.check_accepted positive accepted
        rw [limiter, last] at apart
        refine List.pairwise_cons.2 ⟨fun t member => ?_, apart⟩
        rcases List.mem_cons.1 member with rfl | inside
        · exact due
        · have := (List.pairwise_cons.1 apart).1 t inside
          dsimp only at this
          omega
    have positive' : 0 < (s.turn key env).2.rateLimiter.minInterval := by
      generalize s.passed env = frames at step
      cases step with
      | idle told limiter => rw [limiter]; exact positive
      | dispatched buf told accepted limiter =>
        rw [limiter, (RateLimiter.check_accepted positive accepted).2]
        exact positive
    match taken : s.turn key env with
    | (.again, s') =>
      rw [taken] at rest positive'
      simp only [executed, taken, List.map_append]
      have told := (turned sound key env).told
      rw [taken] at told
      exact rest _ (ih (told.sound.trans sound) positive')
    | (.leave, s') =>
      simp only [executed, taken, List.append_nil]
      simpa using rest [] (List.pairwise_singleton ..)

/-- A turn dispatches the frame it has read, at the time it reads the clock, or nothing. -/
theorem passed_cases (s : MasterControl) (env : Env) :
    s.passed env = [] ∨ ∃ raw rest, readExact commandHeaderSize s.stream = (.ok raw, rest) ∧
      s.passed env = [(env.now, (s.decrypt raw).1)] := by
  unfold passed
  split
  · rename_i raw rest read
    split
    · exact .inr ⟨raw, rest, read, rfl⟩
    · exact .inl rfl
  · exact .inl rfl

/-- The frame that a turn hands to command processing. -/
def seen (s : MasterControl) : List Frame :=
  match readExact commandHeaderSize s.stream with
  | (.ok raw, _) => [(s.decrypt raw).1]
  | (.error _, _) => []

theorem passed_seen (s : MasterControl) (env : Env) : ((s.passed env).map Prod.snd).Sublist s.seen := by
  rcases passed_cases s env with nothing | ⟨raw, rest, read, one⟩
  · rw [nothing]
    exact List.nil_sublist _
  · rw [one, seen, read]
    exact List.Sublist.refl _

theorem handed_again {key : Option Key} {s s' : MasterControl} {env : Env} (taken : s.turn key env = (.again, s'))
    (envs : List Env) : (masterLoop key).handed s (env :: envs) = s.seen ++ (masterLoop key).handed s' envs := by
  have taken : (masterLoop key).turn s env = (.again, s') := taken
  have stream : (masterLoop key).stream s = s.stream := rfl
  match read : readExact commandHeaderSize s.stream with
  | (.ok raw, rest) =>
    simp only [FrameLoop.handed, taken, stream, read, seen]
    rfl
  | (.error e, rest) =>
    simp only [FrameLoop.handed, taken, stream, read, seen]
    rfl

theorem handed_leave {key : Option Key} {s s' : MasterControl} {env : Env} (taken : s.turn key env = (.leave, s'))
    (envs : List Env) : (masterLoop key).handed s (env :: envs) = s.seen := by
  have taken : (masterLoop key).turn s env = (.leave, s') := taken
  have stream : (masterLoop key).stream s = s.stream := rfl
  match read : readExact commandHeaderSize s.stream with
  | (.ok raw, rest) =>
    simp only [FrameLoop.handed, taken, stream, read, seen]
    rfl
  | (.error e, rest) => simp only [FrameLoop.handed, taken, stream, read, seen]

/-- The commands are frames of the session in the order of their arrival. -/
theorem executed_handed (key : Option Key) (envs : List Env) (s : MasterControl) :
    ((executed key s envs).map Prod.snd).Sublist ((masterLoop key).handed s envs) := by
  induction envs generalizing s with
  | nil => exact List.Sublist.slnil
  | cons env envs ih =>
    match taken : s.turn key env with
    | (.again, s') =>
      rw [handed_again taken]
      simp only [executed, taken, List.map_append]
      exact (s.passed_seen env).append (ih s')
    | (.leave, s') =>
      rw [handed_leave taken]
      simp only [executed, taken, List.append_nil]
      exact s.passed_seen env

/-- They are dispatched when the clock says so. -/
theorem executed_times (key : Option Key) (envs : List Env) (s : MasterControl) :
    ((executed key s envs).map Prod.fst).Sublist (envs.map Env.now) := by
  induction envs generalizing s with
  | nil => exact List.Sublist.slnil
  | cons env envs ih =>
    have first : ((s.passed env).map Prod.fst).Sublist [env.now] := by
      rcases passed_cases s env with nothing | ⟨raw, rest, read, one⟩
      · rw [nothing]
        exact List.nil_sublist _
      · rw [one]
        exact List.Sublist.refl _
    match taken : s.turn key env with
    | (.again, s') =>
      simp only [executed, taken, List.map_append, List.map_cons]
      exact first.append (ih s')
    | (.leave, s') =>
      simp only [executed, taken, List.append_nil, List.map_cons]
      exact first.trans ((List.nil_sublist _).cons_cons _)

end MasterControl

/-! ## All sessions -/

namespace SharedDevice
variable [ChaCha]
open MasterControl

/-- The commands of each session, one list for each. -/
def executedBy (key : Option Key) (d : SharedDevice) : List MasterInput → List (List (Nat × Frame))
  | [] => []
  | input :: inputs => executed key (d.spawn input) input.envs :: executedBy key (d.session key input) inputs

theorem executedBy_at (key : Option Key) (before : List MasterInput) (input : MasterInput) (later : List MasterInput)
    (d : SharedDevice) :
    (d.executedBy key (before ++ input :: later))[before.length]? =
      some (executed key ((d.sessions key before).spawn input) input.envs) := by
  induction before generalizing d with
  | nil => rfl
  | cons first before ih => exact ih (d.session key first)

/-- The device over all sessions: what it has been told, and the flag. -/
theorem sessions_told (key : Option Key) (inputs : List MasterInput) {d : SharedDevice} (sound : d.ctl.poisoned = false) :
    (d.sessions key inputs).calls = d.calls ++ ((d.executedBy key inputs).flatten.map Prod.snd).filterMap commandCall ∧
      (d.sessions key inputs).agcState =
        d.agcState.after (((d.executedBy key inputs).flatten.map Prod.snd).filterMap commandCall) := by
  induction inputs generalizing d with
  | nil => exact ⟨by simp [sessions, executedBy], rfl⟩
  | cons input inputs ih =>
    have first := loop_told (s := d.spawn input) sound key input.envs
    obtain ⟨calls, agcState⟩ := ih (d := d.session key input) (first.sound.trans sound)
    rw [executedBy, List.flatten_cons, List.map_append, List.filterMap_append, AgcState.after_append, ← List.append_assoc]
    refine ⟨calls.trans (congrArg (· ++ _) first.calls), agcState.trans (congrArg (AgcState.after · _) first.agcState)⟩

/-- **What the device is told over all sessions.** With or without a key, for any number of masters one
after the other, any arrivals and timeouts, any clock and any outcome of the device calls: the calls
on the device are those of the commands that the masters' rate limiters let pass, session after
session; each session's commands are among the frames it has sent, in their order; no value out of range
reaches the device; and the shared flag is the gain mode of the last call that set one. -/
theorem sessions_spec (key : Option Key) (inputs : List MasterInput) :
    let d := new.sessions key inputs
    d.calls = ((new.executedBy key inputs).flatten.map Prod.snd).filterMap commandCall ∧
      (∀ before input later, inputs = before ++ input :: later →
        (new.executedBy key inputs)[before.length]? =
            some (executed key ((new.sessions key before).spawn input) input.envs) ∧
          ((executed key ((new.sessions key before).spawn input) input.envs).map Prod.snd).Sublist
            ((masterLoop key).handed ((new.sessions key before).spawn input) input.envs)) ∧
      (∀ c ∈ d.calls, InRange c) ∧ d.agcState = AgcState.new.after d.calls := by
  obtain ⟨calls, agcState⟩ := sessions_told key inputs (d := new) rfl
  have image : (new.sessions key inputs).calls =
      ((new.executedBy key inputs).flatten.map Prod.snd).filterMap commandCall := calls
  refine ⟨image, ?_, fun c member => ?_, ?_⟩
  · rintro before input later rfl
    refine ⟨executedBy_at key before input later new, executed_handed ..⟩
  · rw [image] at member
    obtain ⟨f, -, call⟩ := List.mem_filterMap.1 member
    exact inRange_of_commandCall call
  · rw [image]
    exact agcState

/-- Every session keeps the distance of its own limiter. -/
theorem executedBy_apart (key : Option Key) {inputs : List MasterInput} {d : SharedDevice} (sound : d.ctl.poisoned = false) :
    ∀ commands ∈ d.executedBy key inputs, (commands.map Prod.fst).Pairwise fun a b => a + commandRateLimitInterval ≤ b := by
  induction inputs generalizing d with
  | nil => exact fun commands member => by cases member
  | cons input inputs ih =>
    intro commands member
    rcases List.mem_cons.1 member with rfl | later
    · exact (List.pairwise_cons.1 (executed_apart (s := d.spawn input) sound (show 0 < commandRateLimitInterval by decide)
        key)).2
    · exact ih ((loop_told (s := d.spawn input) sound key input.envs).sound.trans sound) commands later

/-- The commands of all sessions are dispatched when the clock says so. -/
theorem executedBy_times (key : Option Key) (inputs : List MasterInput) (d : SharedDevice) :
    ((d.executedBy key inputs).flatMap (·.map Prod.fst)).Sublist (inputs.flatMap fun input => input.envs.map Env.now) := by
  induction inputs generalizing d with
  | nil => exact List.Sublist.slnil
  | cons input inputs ih =>
    rw [executedBy, List.flatMap_cons, List.flatMap_cons]
    exact (executed_times key input.envs (d.spawn input)).append (ih (d.session key input))

/-- **How fast the device is told.** With or without a key and on a clock that never steps back, any closed
window of length `T` has at most one command for every full rate-limit interval in it, and one more
for each session that commands the device in it: a master that reconnects gains one command. -/
theorem sessions_rate (key : Option Key) (inputs : List MasterInput) (lo T : Nat)
    (clock : (inputs.flatMap fun input => input.envs.map Env.now).Pairwise (· ≤ ·)) :
    let times := (new.executedBy key inputs).map fun commands =>
      (commands.map Prod.fst).filter fun t => lo ≤ t ∧ t ≤ lo + T
    times.flatten.length ≤ T / commandRateLimitInterval + (times.filter (!·.isEmpty)).length := by
  intro times
  have sublist : times.flatten.Sublist (inputs.flatMap fun input => input.envs.map Env.now) := by
    refine List.Sublist.trans ?_ (executedBy_times key inputs new)
    have shape : times = ((new.executedBy key inputs).map (·.map Prod.fst)).map
        (List.filter fun t => lo ≤ t ∧ t ≤ lo + T) := by
      rw [List.map_map]
      rfl
    rw [shape, ← List.filter_flatten, ← List.flatMap_def]
    exact List.filter_sublist
  rw [← List.flatten_filter_not_isEmpty (L := times)]
  refine Greedy.length_le_of_groups lo (by decide) (fun g member => ?_) ?_ fun t member => ?_
  · obtain ⟨commands, inside, rfl⟩ := List.mem_map.1 (List.mem_filter.1 member).1
    exact (executedBy_apart key rfl commands inside).filter _
  · rw [List.flatten_filter_not_isEmpty]
    exact clock.sublist sublist
  · rw [List.flatten_filter_not_isEmpty] at member
    obtain ⟨g, among, inside⟩ := List.mem_flatten.1 member
    obtain ⟨commands, -, rfl⟩ := List.mem_map.1 among
    simpa using (List.mem_filter.1 inside).2

end SharedDevice

/-- A frequency command in every turn. -/
def tunesAt (times : List Nat) : MasterInput where
  stream := times.flatMap fun _ => [.byte 0x01, .byte 0x05, .byte 0xFD, .byte 0x82, .byte 0x20]
  now := times.headD 0
  again := times.headD 0
  envs := times.map fun now => { MasterControl.calmEnv 0 with now := now }

/-- The second command comes too early; its master reconnects and gets it through after 30 ms. -/
theorem rate_of_reconnect :
    letI := zeroChaCha
    let times := (SharedDevice.new.executedBy none [tunesAt [100000000, 120000000], tunesAt [130000000]]).map fun commands =>
      (commands.map Prod.fst).filter fun t => 100000000 ≤ t ∧ t ≤ 100000000 + 30000000
    times = [[100000000], [130000000]] ∧
      times.flatten.length ≤ 30000000 / commandRateLimitInterval + (times.filter (!·.isEmpty)).length := by
  let _ := zeroChaCha
  refine ⟨by decide, ?_⟩
  exact SharedDevice.sessions_rate none [tunesAt [100000000, 120000000], tunesAt [130000000]] 100000000 30000000 (by decide)

end RtlTcp
