import RtlTcp.Main.ProxyControl
import RtlTcp.Main.Session

/-!
# The control loops after the exit flag is set

The signal handlers of `run_serve_multi` and `run_proxy_multi` only set the flag; they leave the
master's socket open. Both control loops look at the flag after a complete frame and at no other
place: a timeout goes straight back to the read. `shutdown_reaches_iff` says from which states
a control thread leaves its loop within one more `read_exact`.
-/

namespace RtlTcp
set_option autoImplicit false
open ByteIo Transition

/-- The next read of a frame does not time out. -/
def NextReadEnds (stream : List Arrival) : Prop :=
  ∀ e rest, readExact commandHeaderSize stream = (.error e, rest) → e.isTimeout = false

/-- The points at which the thread is in a `read_exact`: of a frame, or of the peer's nonce. -/
def ControlPoint.isRead : ControlPoint → Bool
  | .reading | .exchanging => true
  | _ => false

namespace ControlThread
variable [ChaCha]

/-- The thread after the given steps. -/
def after (key : Option Key) (c : ControlThread) (envs : List Env) : ControlThread := envs.foldl (step key) c

/-- How many `read_exact` calls the steps complete. -/
def readsIn (key : Option Key) : ControlThread → List Env → Nat
  | _, [] => 0
  | c, env :: envs => (if c.point.isRead then 1 else 0) + readsIn key (c.step key env) envs

/-- With the flag set from now on, the thread completes at most one `read_exact`, and a few
steps bring it to its end. -/
def ExitsInTime (key : Option Key) (c : ControlThread) : Prop :=
  ∀ envs, (∀ env ∈ envs, env.shouldExit = true) →
    c.readsIn key envs ≤ 1 ∧ (3 ≤ envs.length → (c.after key envs).point = .ended)

/-- The thread is not on its way into a nonce exchange, and its next read does not time out. -/
def PromptExit (key : Option Key) (c : ControlThread) : Prop :=
  match c.point with
  | .reading => NextReadEnds c.thread.stream
  | .acking => key = none ∧ NextReadEnds c.thread.stream
  | .exchanging => False
  | .replying _ | .storing .. => key.isSome ∧ NextReadEnds c.thread.stream
  | .ended => True

theorem readsIn_ended (key : Option Key) (thread : MasterControl) (envs : List Env) :
    readsIn key ⟨.ended, thread⟩ envs = 0 ∧ after key ⟨.ended, thread⟩ envs = ⟨.ended, thread⟩ := by
  induction envs with
  | nil => exact ⟨rfl, rfl⟩
  | cons env envs ih => exact ⟨(Nat.zero_add _).trans ih.1, ih.2⟩

/-- With the flag set, a read that does not time out is the last one. -/
theorem step_reading (key : Option Key) {s : MasterControl} {env : Env} (exit : env.shouldExit = true)
    (ends : NextReadEnds s.stream) : ∃ thread, step key ⟨.reading, s⟩ env = ⟨.ended, thread⟩ := by
  match taken : readExact commandHeaderSize s.stream with
  | (.ok raw, rest) =>
    simp only [step, readCommand, taken, exit, if_true]
    exact ⟨_, rfl⟩
  | (.error e, rest) =>
    have fatal := ends e rest taken
    rw [ErrorKind.isTimeout] at fatal
    simp only [step, readCommand, taken, fatal, Bool.false_eq_true, if_false]
    exact ⟨_, rfl⟩

/-- A read that times out is followed by another one. -/
theorem step_timeout (key : Option Key) {s : MasterControl} (late : ¬NextReadEnds s.stream) :
    ∃ t, ∀ env, step key ⟨.reading, s⟩ env = ⟨.reading, t⟩ := by
  simp only [NextReadEnds, not_forall, Bool.not_eq_false] at late
  obtain ⟨e, rest, taken, timeout⟩ := late
  rw [ErrorKind.isTimeout] at timeout
  refine ⟨{ s with stream := rest }, fun env => ?_⟩
  simp only [step, readCommand, taken, timeout, if_true]

/-- From the read on, one step is enough. -/
theorem reading_exits (key : Option Key) {c : ControlThread} {stream : List Arrival} (reading : c.point = .reading)
    (same : c.thread.stream = stream) (ends : NextReadEnds stream) {envs : List Env}
    (exit : ∀ env ∈ envs, env.shouldExit = true) :
    readsIn key c envs ≤ 1 ∧ (1 ≤ envs.length → (after key c envs).point = .ended) := by
  obtain ⟨point, s⟩ := c
  cases reading
  cases same
  cases envs with
  | nil => exact ⟨Nat.zero_le _, fun long => by cases long⟩
  | cons env envs =>
    obtain ⟨thread, last⟩ := step_reading key (exit env List.mem_cons_self) ends
    obtain ⟨reads, stays⟩ := readsIn_ended key thread envs
    refine ⟨?_, fun _ => ?_⟩
    · simp only [readsIn, last, reads]
      exact Nat.le_refl _
    · have rest : after key ⟨.reading, s⟩ (env :: envs) = after key ⟨.ended, thread⟩ envs := by
        rw [after, List.foldl_cons, last]
        rfl
      rw [rest, stays]

/-- A step without a read puts the count off by one step. -/
theorem exits_later (key : Option Key) {c : ControlThread} {n : Nat} (silent : c.point.isRead = false)
    (next : ∀ env envs, env.shouldExit = true → (∀ env ∈ envs, env.shouldExit = true) →
      readsIn key (c.step key env) envs ≤ 1 ∧ (n ≤ envs.length → (after key (c.step key env) envs).point = .ended))
    {envs : List Env} (exit : ∀ env ∈ envs, env.shouldExit = true) :
    readsIn key c envs ≤ 1 ∧ (n + 1 ≤ envs.length → (after key c envs).point = .ended) := by
  cases envs with
  | nil => exact ⟨Nat.zero_le _, fun long => by cases long⟩
  | cons env envs =>
    obtain ⟨reads, ended⟩ := next env envs (exit env List.mem_cons_self) fun e member =>
      exit e (List.mem_cons_of_mem _ member)
    refine ⟨?_, fun long => ended (Nat.le_of_succ_le_succ long)⟩
    simp only [readsIn, silent, Bool.false_eq_true, if_false, Nat.zero_add]
    exact reads

theorem exits_of_promptExit {key : Option Key} {c : ControlThread} (prompt : c.PromptExit key) : c.ExitsInTime key := by
  intro envs exit
  obtain ⟨point, s⟩ := c
  cases point with
  | reading =>
    obtain ⟨reads, ended⟩ := reading_exits key (c := ⟨.reading, s⟩) rfl rfl prompt exit
    exact ⟨reads, fun long => ended (by omega)⟩
  | acking =>
    obtain ⟨rfl, ends⟩ := prompt
    obtain ⟨reads, ended⟩ := exits_later none (c := ⟨.acking, s⟩) (n := 1) rfl
      (fun env envs _ exit => reading_exits none (c := step none ⟨.acking, s⟩ env) rfl rfl ends exit) exit
    exact ⟨reads, fun long => ended (by omega)⟩
  | exchanging => cases prompt
  | replying peerNonce =>
    obtain ⟨hasKey, ends⟩ := prompt
    obtain ⟨key, rfl⟩ := Option.isSome_iff_exists.1 hasKey
    refine exits_later (some key) (c := ⟨.replying peerNonce, s⟩) (n := 2) rfl (fun env envs _ exit => ?_) exit
    cases sent : env.nonceSent with
    | ok =>
      refine exits_later (some key) (n := 1) ?_ (fun env' envs _ exit => ?_) exit
      · simp only [step, sent, ControlPoint.isRead]
      · have back : step (some key) (step (some key) ⟨.replying peerNonce, s⟩ env) env' = ⟨.reading, { s with
            written := s.written ++ [(env.myNonce.toList, .ok ())]
            encryptionNonces := some (env.myNonce, peerNonce)
            readCipher := some (.new key peerNonce)
            writeCipher := some (.new key env.myNonce) }⟩ := by
          simp only [step, sent]
        rw [back]
        refine reading_exits (some key) ?_ ?_ ends exit <;> rfl
    | error e =>
      have back : step (some key) ⟨.replying peerNonce, s⟩ env =
          ⟨.reading, { s with written := s.written ++ [(env.myNonce.toList, .error e)] }⟩ := by
        simp only [step, sent]
      rw [back]
      obtain ⟨reads, ended⟩ := reading_exits (some key) (c := ⟨.reading, { s with
        written := s.written ++ [(env.myNonce.toList, .error e)] }⟩) rfl rfl ends exit
      exact ⟨reads, fun long => ended (by omega)⟩
  | storing myNonce peerNonce =>
    obtain ⟨hasKey, ends⟩ := prompt
    obtain ⟨key, rfl⟩ := Option.isSome_iff_exists.1 hasKey
    obtain ⟨reads, ended⟩ := exits_later (some key) (c := ⟨.storing myNonce peerNonce, s⟩) (n := 1) rfl
      (fun env envs _ exit =>
        reading_exits (some key) (c := step (some key) ⟨.storing myNonce peerNonce, s⟩ env) rfl rfl ends exit) exit
    exact ⟨reads, fun long => ended (by omega)⟩
  | ended =>
    obtain ⟨reads, stays⟩ := readsIn_ended key s envs
    exact ⟨by rw [reads]; exact Nat.zero_le _, fun _ => by rw [stays]⟩

/-- An environment with the flag set in which the nonce cannot be sent. -/
def exitEnv : Env := ⟨true, 0, true, .ok (), zeroNonce, .error .brokenPipe⟩

/-- Two reads that time out one after the other. -/
theorem two_timeouts (key : Option Key) {c : ControlThread} {stream : List Arrival} (reading : c.point = .reading)
    (same : c.thread.stream = stream) (late : ¬NextReadEnds stream) : readsIn key c [exitEnv, exitEnv] = 2 := by
  obtain ⟨point, s⟩ := c
  cases reading
  cases same
  obtain ⟨t, again⟩ := step_timeout key late
  simp only [readsIn, again, ControlPoint.isRead, if_true]

/-- After a nonce, a frame is read, whatever became of the nonce. -/
theorem two_reads (key : Option Key) (s : MasterControl) :
    2 ≤ readsIn key ⟨.exchanging, s⟩ [exitEnv, exitEnv, exitEnv] := by
  match taken : readExact 12 s.stream with
  | (.error e, rest) =>
    simp only [readsIn, step, taken, ControlPoint.isRead, if_true]
    omega
  | (.ok peerNonce, rest) =>
    simp only [readsIn, step, taken, exitEnv, ControlPoint.isRead, if_true]
    omega

theorem promptExit_of_exits {key : Option Key} {c : ControlThread} (exits : c.ExitsInTime key) : c.PromptExit key := by
  obtain ⟨point, s⟩ := c
  obtain ⟨reads, ended⟩ := exits [exitEnv, exitEnv, exitEnv] (by simp [exitEnv])
  cases point with
  | reading =>
    by_contra late
    have once := (exits [exitEnv, exitEnv] (by simp [exitEnv])).1
    rw [two_timeouts key rfl rfl late] at once
    omega
  | acking =>
    cases key with
    | none =>
      refine ⟨rfl, ?_⟩
      by_contra late
      have twice := two_timeouts none (c := step none ⟨.acking, s⟩ exitEnv) rfl rfl late
      rw [readsIn, twice] at reads
      omega
    | some key =>
      have once := (exits [exitEnv, exitEnv, exitEnv, exitEnv] (by simp [exitEnv])).1
      let acked := (step (some key) ⟨.acking, s⟩ exitEnv).thread
      have twice := two_reads (some key) acked
      have more : readsIn (some key) ⟨.acking, s⟩ [exitEnv, exitEnv, exitEnv, exitEnv] =
          0 + readsIn (some key) ⟨.exchanging, acked⟩ [exitEnv, exitEnv, exitEnv] := rfl
      rw [more] at once
      omega
  | exchanging =>
    have twice := two_reads key s
    omega
  | replying peerNonce =>
    have hasKey : key.isSome = true := by
      cases key with
      | none =>
        -- a thread without a key never gets here, and would not get on
        let sending : Env := { exitEnv with nonceSent := .ok () }
        cases (exits [sending, sending, sending] (by simp [sending, exitEnv])).2 (by simp)
      | some key => rfl
    refine ⟨hasKey, ?_⟩
    by_contra late
    have twice := two_timeouts key (c := step key ⟨.replying peerNonce, s⟩ exitEnv) rfl rfl late
    rw [readsIn, twice] at reads
    omega
  | storing myNonce peerNonce =>
    cases key with
    | none => cases ended (by simp)
    | some key =>
      refine ⟨rfl, ?_⟩
      by_contra late
      have twice := two_timeouts (some key) (c := step (some key) ⟨.storing myNonce peerNonce, s⟩ exitEnv) rfl rfl late
      rw [readsIn, twice] at reads
      omega
  | ended => trivial

end ControlThread

namespace ProxyControl
variable [ChaCha]

/-- With the flag set from now on, the loop is left in the next turn; each turn has one read. -/
def ExitsInTime (s : ProxyControl) : Prop :=
  ∀ env envs, env.shouldExit = true → (∀ env ∈ envs, env.shouldExit = true) → leftAfter turn s (env :: envs) = some 1

theorem exitsInTime_iff (s : ProxyControl) : s.ExitsInTime ↔ NextReadEnds s.stream := by
  constructor
  · intro exits e rest taken
    have left := exits ⟨true, 0, true, .ok ()⟩ [] rfl (by simp)
    cases timeout : e.isTimeout with
    | false => rfl
    | true =>
      rw [ErrorKind.isTimeout] at timeout
      simp only [leftAfter, turn, taken, timeout, if_true] at left
      cases left
  · intro ends env envs exit _
    rcases taken : readExact commandHeaderSize s.stream with ⟨e | buf, rest⟩
    · have fatal := ends e rest taken
      rw [ErrorKind.isTimeout] at fatal
      simp only [leftAfter, turn, taken, fatal, Bool.false_eq_true, if_false, ite_self]
    · simp only [leftAfter, turn, taken, exit, if_true]

end ProxyControl

section
variable [ChaCha]

/-- **Shutdown and the control loops.** In every state of the serve-mode control thread, with a
key or without, and of the proxy's: once the exit flag is set, the thread leaves its loop within
one more `read_exact` exactly when that call does not time out, and the thread is not on its way
into a nonce exchange, which has a read of its own. -/
theorem shutdown_reaches_iff :
    (∀ (key : Option Key) (c : ControlThread), c.ExitsInTime key ↔ c.PromptExit key) ∧
      ∀ s : ProxyControl, s.ExitsInTime ↔ NextReadEnds s.stream :=
  ⟨fun _ _ => ⟨ControlThread.promptExit_of_exits, ControlThread.exits_of_promptExit⟩, ProxyControl.exitsInTime_iff⟩

end

/-- A master that stays connected and silent: its reads time out one after the other. -/
def silentMaster : List Arrival := List.replicate 9 (.fail .timedOut)

/-- The serve-mode thread reads again and again. -/
theorem silent_master_holds_join :
    letI := zeroChaCha
    let c : ControlThread := ⟨.reading, .start silentMaster .new (.new commandRateLimitInterval 0 0)⟩
    c.readsIn none (List.replicate 9 ControlThread.exitEnv) = 9 ∧ ¬c.ExitsInTime none := by
  let _ := zeroChaCha
  refine ⟨rfl, fun exits => ?_⟩
  have once := (exits (List.replicate 9 ControlThread.exitEnv) (by decide)).1
  revert once
  decide

end RtlTcp
