import RtlTcp.Main.ServeMulti
import RtlTcp.Main.MasterSessions

/-!
# `run_serve_multi`: the masters take turns

The control threads of all masters get the same device. A second one could send its calls between
those of the first; but the accepting thread joins a control thread before it accepts the next
master, so that no two of them run. Beside the server, `Logged` keeps the calls on the device in the
order in which they are made; `masters_take_turns` says that this is the order of the sessions,
with or without a key and whatever the threads' interleaving.
-/

namespace RtlTcp
set_option autoImplicit false
open ByteIo Transition

/-- The calls that a control thread has made on the device. -/
def ControlThread.calls (c : ControlThread) : List DeviceCall := c.thread.ctl.value.calls.map Prod.fst

namespace ServeMulti

/-- The control threads, in the order of their sessions. -/
def controls (s : ServeMulti) : List (Option ControlThread) := s.sessions.map Session.control

/-- The calls of session `i`. -/
def callsOf (s : ServeMulti) (i : Nat) : List DeviceCall :=
  match s.controls[i]? with
  | some (some c) => c.calls
  | _ => []

end ServeMulti

/-- The server, and the calls on its device, each with the session that has made it. -/
structure Logged where
  server : ServeMulti
  log : List (Nat × DeviceCall)

namespace Logged

def start (capacity : Nat) : Logged := ⟨.start capacity, []⟩

/-- The calls that a step adds. -/
def newCalls (s s' : ServeMulti) : ServeAct → List (Nat × DeviceCall)
  | .control i _ _ => ((s'.callsOf i).drop (s.callsOf i).length).map (i, ·)
  | _ => []

def step [ChaCha] (key : Option Key) (x : Logged) (a : ServeAct) : Option Logged :=
  (x.server.step key a).map fun s => ⟨s, x.log ++ newCalls x.server s a⟩

end Logged

namespace ServeMulti

/-! ## What a step does to the control threads -/

/-- What a step does to the accepting thread and to the control threads. -/
inductive Moves [ChaCha] (key : Option Key) (s : ServeMulti) (a : ServeAct) (s' : ServeMulti) : Prop where
  | elsewhere (other : ∀ i env partly, a ≠ .control i env partly) (main : s'.main = s.main)
      (controls : s'.controls = s.controls)
  | fails (other : ∀ i env partly, a ≠ .control i env partly) (main : s'.main = .returned)
      (controls : s'.controls = s.controls) (i : Nat) (before : s.main = .sendingMagic i)
  | accepts (other : ∀ i env partly, a ≠ .control i env partly) (free : s.main = .accepting)
      (main : s'.main = .sendingMagic s.controls.length) (controls : s'.controls = s.controls ++ [none])
  | spawns (other : ∀ i env partly, a ≠ .control i env partly) (i : Nat) (thread : MasterControl)
      (before : s.main = .sendingMagic i) (main : s'.main = .joining i) (there : s.controls[i]? = some none)
      (fresh : thread.ctl.value.calls = []) (controls : s'.controls = s.controls.set i (some ⟨.reading, thread⟩))
  | joins (other : ∀ i env partly, a ≠ .control i env partly) (i : Nat) (c : ControlThread) (before : s.main = .joining i)
      (there : s.controls[i]? = some (some c)) (ended : c.point = .ended) (main : s'.main = .accepting)
      (controls : s'.controls = s.controls)
  | controls (i : Nat) (env : Env) (partly : Nat) (c : ControlThread) (here : a = .control i env partly)
      (there : s.controls[i]? = some (some c)) (running : c.point ≠ .ended) (main : s'.main = s.main) (env' : Env)
      (controls : s'.controls = s.controls.set i (some (c.step key env')))

theorem controls_at {s : ServeMulti} {i : Nat} {m : Session} (there : s.sessions[i]? = some m) :
    s.controls[i]? = some m.control := by
  rw [controls, List.getElem?_map, there]
  rfl

theorem controls_set (s : ServeMulti) (i : Nat) (m : Session) : (s.setSession i m).controls = s.controls.set i m.control := by
  simp only [controls, setSession, List.map_set]

theorem controls_same {s : ServeMulti} {i : Nat} {m m' : Session} (there : s.sessions[i]? = some m)
    (same : m'.control = m.control) : (s.setSession i m').controls = s.controls := by
  obtain ⟨bound, value⟩ := List.getElem?_eq_some_iff.1 (controls_at there)
  rw [controls_set, same, ← value, List.set_getElem_self]

theorem magicStep_moves [ChaCha] {key : Option Key} {s s' : ServeMulti} {i : Nat} {m : Session}
    {result : Except ErrorKind Nat} (sending : s.main = .sendingMagic i) (there : s.sessions[i]? = some m)
    (taken : s.magicStep i m result = some s') : Moves key s (.magic result) s' := by
  unfold magicStep at taken
  split at taken
  · cases taken
  · cases taken
    exact .fails (by simp) rfl rfl i sending
  · cases taken
    exact .elsewhere (by simp) rfl (controls_same there rfl)
  · split at taken
    · cases taken
      exact .elsewhere (by simp) rfl rfl
    · cases taken
      exact .fails (by simp) rfl rfl i sending

theorem writerStep_moves [ChaCha] {key : Option Key} {s s' : ServeMulti} {i : Nat} {m : Session}
    {result : Except ErrorKind Nat} (there : s.sessions[i]? = some m) (taken : s.writerStep key i m result = some s') :
    Moves key s (.writer i result) s' := by
  unfold writerStep at taken
  split at taken
  · cases taken
  · cases taken
  · split at taken
    · cases taken
    · split at taken
      · cases taken
        exact .elsewhere (by simp) rfl rfl
      · cases taken
        exact .elsewhere (by simp) rfl (controls_same there rfl)
  · split at taken
    · cases taken
    · cases taken
      exact .elsewhere (by simp) rfl (controls_same there rfl)

theorem controlStep_moves [ChaCha] {key : Option Key} {s s' : ServeMulti} {i : Nat} {m : Session} {c : ControlThread}
    {env env' : Env} {partly : Nat} (there : s.sessions[i]? = some m) (spawned : m.control = some c)
    (taken : s.controlStep key i m c env' partly = some s') : Moves key s (.control i env partly) s' := by
  have here : s.controls[i]? = some (some c) := by rw [controls_at there, spawned]
  unfold controlStep at taken
  cases point : c.point with
  | replying peerNonce =>
    simp only [point] at taken
    split at taken
    · cases taken
    · cases taken
      exact .controls i env partly c rfl here (by simp [point]) rfl env' (controls_set ..)
  | storing myNonce peerNonce =>
    simp only [point] at taken
    split at taken
    · cases taken
    · cases taken
      exact .controls i env partly c rfl here (by simp [point]) rfl env' (controls_set ..)
  | ended =>
    simp only [point] at taken
    cases taken
  | reading | acking | exchanging =>
    simp only [point] at taken
    cases taken
    exact .controls i env partly c rfl here (by simp [point]) rfl env' (controls_set ..)

/-- **What a step does to the control threads**, with or without a key. -/
theorem step_moves [ChaCha] {key : Option Key} {s s' : ServeMulti} {a : ServeAct} (taken : s.step key a = some s') :
    Moves key s a s' := by
  cases a with
  | send buf =>
    cases taken
    exact .elsewhere (by simp) rfl rfl
  | setExit =>
    cases taken
    exact .elsewhere (by simp) rfl rfl
  | accept inbound =>
    simp only [step] at taken
    split at taken
    · rename_i open'
      cases taken
      refine .accepts (by simp) open'.1 ?_ ?_
      · simp [controls]
      · simp [controls, newSession]
    · cases taken
  | magic result =>
    simp only [step] at taken
    split at taken
    · rename_i i sending
      obtain ⟨m, there, taken⟩ := Option.bind_eq_some_iff.1 taken
      exact magicStep_moves sending there taken
    · cases taken
  | spawnControl now again =>
    simp only [step] at taken
    split at taken
    · rename_i i sending
      obtain ⟨m, there, taken⟩ := Option.bind_eq_some_iff.1 taken
      split at taken
      · rename_i ready
        obtain ⟨-, unspawned⟩ := Bool.and_eq_true_iff.1 ready
        have here : s.controls[i]? = some none := by rw [controls_at there, Option.isNone_iff_eq_none.1 unspawned]
        cases taken
        exact .spawns (by simp) i _ sending rfl here rfl (controls_set ..)
      · cases taken
    · cases taken
  | join =>
    simp only [step] at taken
    split at taken
    · rename_i i joining
      obtain ⟨m, there, taken⟩ := Option.bind_eq_some_iff.1 taken
      obtain ⟨c, spawned, taken⟩ := Option.bind_eq_some_iff.1 taken
      split at taken
      · rename_i ended
        have here : s.controls[i]? = some (some c) := by rw [controls_at there, spawned]
        cases taken
        exact .joins (by simp) i c joining here ended rfl rfl
      · cases taken
    · cases taken
  | writer i result =>
    obtain ⟨m, there, taken⟩ := Option.bind_eq_some_iff.1 taken
    exact writerStep_moves there taken
  | control i env partly =>
    obtain ⟨m, there, taken⟩ := Option.bind_eq_some_iff.1 taken
    obtain ⟨c, spawned, taken⟩ := Option.bind_eq_some_iff.1 taken
    exact controlStep_moves there spawned taken

end ServeMulti

/-! ## A control thread only adds calls -/

theorem MasterControl.same_calls {s t : MasterControl} (same : t.ctl = s.ctl) : s.ctl.value.calls <+: t.ctl.value.calls := by
  have calls : s.ctl.value.calls = t.ctl.value.calls := by rw [same]
  exact calls ▸ List.prefix_rfl

theorem MasterControl.device_calls (s : MasterControl) (env : Env) (call : DeviceCall) :
    s.ctl.value.calls <+: (s.device env call).ctl.value.calls := by
  unfold device withControl
  split
  · exact List.prefix_rfl
  · exact List.prefix_append ..

theorem MasterControl.dispatch_calls (key : Option Key) (s : MasterControl) (env : Env) (buf : Frame) :
    s.ctl.value.calls <+: (s.dispatch key env buf).ctl.value.calls := by
  unfold dispatch
  split
  case h_7 =>
    exact same_calls (chainDetect_frame key s env).1
  case h_8 => exact List.prefix_rfl
  all_goals
    dsimp only
    split
  -- a value that the validation refuses leaves the device alone
  all_goals first
    | exact List.prefix_rfl
    | exact device_calls ..

namespace ControlThread
variable [ChaCha]

theorem readCommand_calls (key : Option Key) (s : MasterControl) (env : Env) :
    s.ctl.value.calls <+: (readCommand key s env).thread.ctl.value.calls := by
  match read : readExact commandHeaderSize s.stream with
  | (.error e, rest) =>
    have same : (readCommand key s env).thread.ctl = s.ctl := by rw [(readCommand_error key env read).1]
    exact MasterControl.same_calls same
  | (.ok raw, rest) =>
    have same := (MasterControl.decrypt_frame { s with stream := rest } raw).1
    simp only [readCommand, read]
    split
    · exact MasterControl.same_calls same
    · split
      · exact MasterControl.same_calls same
      · split
        · exact MasterControl.same_calls same
        · refine List.IsPrefix.trans ?_ (MasterControl.dispatch_calls key _ env _)
          exact MasterControl.same_calls same

/-- **A step never takes a call back.** -/
theorem step_calls (key : Option Key) (c : ControlThread) (env : Env) : c.calls <+: (c.step key env).calls := by
  obtain ⟨point, thread⟩ := c
  have silent : ∀ {t : ControlThread}, t.thread.ctl = thread.ctl → calls ⟨point, thread⟩ <+: t.calls := by
    intro t same
    exact (MasterControl.same_calls same).map _
  cases point with
  | reading => exact (readCommand_calls key thread env).map _
  | acking => cases key <;> exact silent rfl
  | exchanging =>
    simp only [step]
    split <;> exact silent rfl
  | replying peerNonce =>
    simp only [step]
    split <;> exact silent rfl
  | storing myNonce peerNonce => cases key <;> exact silent rfl
  | ended => exact silent rfl

end ControlThread

/-! ## Whole runs -/

/-- Appending to the last of some lists appends to their concatenation. -/
theorem flatMap_range_succ_append {β : Type} {f g : Nat → List β} {n : Nat} {more : List β}
    (same : ∀ j < n, g j = f j) (last : g n = f n ++ more) :
    (List.range (n + 1)).flatMap g = (List.range (n + 1)).flatMap f ++ more := by
  have front : (List.range n).flatMap g = (List.range n).flatMap f := by
    rw [List.flatMap_def, List.flatMap_def, List.map_congr_left fun j member => same j (List.mem_range.1 member)]
  simp only [List.range_succ, List.flatMap_append, List.flatMap_singleton, front, last, List.append_assoc]

namespace ServeMulti

/-- The calls of all sessions, one session after the other. -/
def callsBySession (s : ServeMulti) : List (Nat × DeviceCall) :=
  (List.range s.sessions.length).flatMap fun i => (s.callsOf i).map (i, ·)

/-- Only the thread that the accepting thread waits for runs, and it is the one of the last session. -/
structure OneControl (s : ServeMulti) : Prop where
  joined : ∀ i c, s.controls[i]? = some (some c) → c.point ≠ .ended → s.main = .joining i
  last : ∀ i, s.main = .joining i ∨ s.main = .sendingMagic i → i + 1 = s.controls.length

theorem callsBySession_eq (s : ServeMulti) :
    s.callsBySession = (List.range s.controls.length).flatMap fun i => (s.callsOf i).map (i, ·) := by
  rw [callsBySession, controls, List.length_map]

theorem callsOf_congr {s s' : ServeMulti} {i : Nat} (same : s'.controls[i]? = s.controls[i]?) :
    s'.callsOf i = s.callsOf i := by
  rw [callsOf, callsOf, same]

theorem callsOf_some {s : ServeMulti} {i : Nat} {c : ControlThread} (there : s.controls[i]? = some (some c)) :
    s.callsOf i = c.calls := by
  rw [callsOf, there]

/-- A session without a control thread has made no calls. -/
theorem callsOf_none {s : ServeMulti} {i : Nat} (there : ∀ c, s.controls[i]? ≠ some (some c)) : s.callsOf i = [] := by
  unfold callsOf
  split
  · exact absurd ‹_› (there _)
  · rfl

theorem callsBySession_same {s s' : ServeMulti} (same : s'.controls = s.controls) :
    s'.callsBySession = s.callsBySession := by
  rw [callsBySession_eq, callsBySession_eq, same]
  simp only [callsOf, same]

variable [ChaCha]

theorem oneControl_step {key : Option Key} {s s' : ServeMulti} {a : ServeAct} (inv : OneControl s)
    (taken : s.step key a = some s') : OneControl s' := by
  cases step_moves taken with
  | elsewhere other main controls =>
    refine ⟨?_, ?_⟩
    · rw [controls, main]
      exact inv.joined
    · rw [controls, main]
      exact inv.last
  | fails other main controls i before =>
    refine ⟨fun j c there running => ?_, fun j point => ?_⟩
    · rw [controls] at there
      have := (inv.joined j c there running).symm.trans before
      cases this
    · rw [main] at point
      rcases point with point | point <;> cases point
  | accepts other free main controls =>
    refine ⟨fun j c there running => ?_, fun j point => ?_⟩
    · rw [controls] at there
      -- the new session has no control thread yet, and the old ones have ended
      rcases Nat.lt_or_ge j s.controls.length with old | new
      · rw [List.getElem?_append_left old] at there
        have := (inv.joined j c there running).symm.trans free
        cases this
      · rw [List.getElem?_append_right new] at there
        have := List.mem_of_getElem? there
        simp at this
    · rw [main] at point
      rcases point with point | point
      · cases point
      · cases point
        rw [controls, List.length_append, List.length_singleton]
  | spawns other i thread before main there fresh controls =>
    refine ⟨fun j c there' running => ?_, fun j point => ?_⟩
    · rw [controls] at there'
      by_cases here : i = j
      · rw [← here]
        exact main
      · rw [List.getElem?_set_ne here] at there'
        have := (inv.joined j c there' running).symm.trans before
        cases this
    · rw [main] at point
      rcases point with point | point
      · cases point
        rw [controls, List.length_set]
        exact inv.last i (.inr before)
      · cases point
  | joins other i c before there ended main controls =>
    refine ⟨fun j c' there' running => ?_, fun j point => ?_⟩
    · rw [controls] at there'
      have same := (inv.joined j c' there' running).symm.trans before
      cases same
      rw [there] at there'
      cases there'
      exact absurd ended running
    · rw [main] at point
      rcases point with point | point <;> cases point
  | controls i env partly c here there running main env' controls =>
    refine ⟨fun j c' there' running' => ?_, fun j point => ?_⟩
    · rw [controls] at there'
      rw [main]
      by_cases here : i = j
      · rw [← here]
        exact inv.joined i c there running
      · rw [List.getElem?_set_ne here] at there'
        exact inv.joined j c' there' running'
    · rw [controls, List.length_set]
      rw [main] at point
      exact inv.last j point

/-- **One step**: the calls that it adds come after those of all sessions. -/
theorem callsBySession_step {key : Option Key} {s s' : ServeMulti} {a : ServeAct} (inv : OneControl s)
    (taken : s.step key a = some s') : s'.callsBySession = s.callsBySession ++ Logged.newCalls s s' a := by
  have silent : (∀ i env partly, a ≠ .control i env partly) → Logged.newCalls s s' a = [] := by
    intro other
    cases a with
    | control i env partly => exact absurd rfl (other i env partly)
    | _ => rfl
  cases step_moves taken with
  | elsewhere other main controls => rw [silent other, List.append_nil, callsBySession_same controls]
  | fails other main controls => rw [silent other, List.append_nil, callsBySession_same controls]
  | joins other i c before there ended main controls =>
    rw [silent other, List.append_nil, callsBySession_same controls]
  | accepts other free main controls =>
    rw [silent other, List.append_nil, callsBySession_eq, callsBySession_eq, controls, List.length_append,
      List.length_singleton, List.range_succ, List.flatMap_append, List.flatMap_singleton]
    have new : s'.callsOf s.controls.length = [] := by
      refine callsOf_none fun c there => ?_
      rw [controls, List.getElem?_append_right (Nat.le_refl _), Nat.sub_self] at there
      cases there
    rw [new, List.map_nil, List.append_nil, List.flatMap_def, List.flatMap_def]
    congr 1
    refine List.map_congr_left fun j member => ?_
    rw [callsOf_congr (s := s) (by rw [controls, List.getElem?_append_left (List.mem_range.1 member)])]
  | spawns other i thread before main there fresh controls =>
    rw [silent other, List.append_nil, callsBySession_eq, callsBySession_eq, controls, List.length_set]
    congr 1
    funext j
    by_cases here : i = j
    · subst here
      have bound := (List.getElem?_eq_some_iff.1 there).1
      rw [callsOf_some (by rw [controls, List.getElem?_set_self bound]), callsOf_none (s := s) (by simp [there])]
      simp [ControlThread.calls, fresh]
    · rw [callsOf_congr (s := s) (by rw [controls, List.getElem?_set_ne here])]
  | controls i env partly c here there running main env' controls =>
    have bound := (List.getElem?_eq_some_iff.1 there).1
    have last := inv.last i (.inl (inv.joined i c there running))
    have next : s'.callsOf i = (c.step key env').calls := callsOf_some (by rw [controls, List.getElem?_set_self bound])
    rw [callsBySession_eq, callsBySession_eq, controls, List.length_set, ← last, here]
    refine flatMap_range_succ_append (fun j earlier => ?_) ?_
    · rw [callsOf_congr (s := s) (by rw [controls, List.getElem?_set_ne (by omega)])]
    · obtain ⟨more, grown⟩ := c.step_calls key env'
      simp only [Logged.newCalls]
      rw [next, callsOf_some there, ← grown, List.drop_left, List.map_append]

end ServeMulti

namespace Logged

/-- **The masters take turns.** In every state of every run, with or without a key, for any number of
sessions and any interleaving of the accepting thread, the sample writers, the control threads and the
device: the calls on the device, in the order in which they were made, are those of the first session,
then those of the second, and so on; and of any two control threads one has ended. -/
theorem masters_take_turns [ChaCha] (key : Option Key) (capacity : Nat) (acts : List ServeAct) :
    Always (step key) (fun x => x.log = x.server.callsBySession ∧
      ∀ (i j : Nat) (c c' : ControlThread), x.server.controls[i]? = some (some c) →
        x.server.controls[j]? = some (some c') → i ≠ j → c.point = .ended ∨ c'.point = .ended) (start capacity) acts := by
  have keep : ∀ x a x', x.log = x.server.callsBySession ∧ x.server.OneControl → step key x a = some x' →
      x'.log = x'.server.callsBySession ∧ x'.server.OneControl := by
    intro x a x' inv taken
    obtain ⟨s', moved, rfl⟩ := Option.map_eq_some_iff.1 taken
    refine ⟨?_, ServeMulti.oneControl_step inv.2 moved⟩
    rw [ServeMulti.callsBySession_step inv.2 moved, ← inv.1]
  have first : (start capacity).log = (start capacity).server.callsBySession ∧ (start capacity).server.OneControl :=
    ⟨rfl, ⟨fun i c there => (by cases there), fun i point => (by rcases point with point | point <;> cases point)⟩⟩
  refine (always_of_along (fun x a x' inv (_ : True) => keep x a x' inv) first along_trivial).imp fun x inv => ?_
  refine ⟨inv.1, fun i j c c' there there' other => ?_⟩
  by_contra running
  rw [not_or] at running
  have same := (inv.2.joined i c there running.1).symm.trans (inv.2.joined j c' there' running.2)
  cases same
  exact other rfl

end Logged

end RtlTcp
