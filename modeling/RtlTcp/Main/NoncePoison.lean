import RtlTcp.Main.Chain
import RtlTcp.Main.NonceLock

/-!
# `run_serve_multi`: panics with the nonces locked

`apply_keystream` panics when a call would go past its keystream, and the thread that made the call
is gone. A writer streams with the mutex of the nonces locked, so its panic poisons the mutex, and
from then on every `encryption_nonces.lock().unwrap()` panics too. `Fallible` adds these panics to the
server. `keystream_end_is_final` says what is left of the service then: masters are admitted as
before, and none of them ever gets a sample.
-/

namespace RtlTcp
set_option autoImplicit false
open ByteIo Transition

/-- The writer's next `apply_keystream` goes past a keystream of `limit` bytes. -/
def WriterThread.overruns (limit : Nat) : WriterThread → Bool
  | .running (some cipher) loop => loop.unwritten ≠ [] ∧ limit < cipher.pos + loop.unwritten.length
  | _ => false

def WriterThread.isWaiting : WriterThread → Bool
  | .waiting _ => true
  | _ => false

namespace ControlThread

/-- The next `apply_keystream` on `read_cipher` goes past a keystream of `limit` bytes. -/
def overruns (limit : Nat) (c : ControlThread) : Bool :=
  match c.point, readExact commandHeaderSize c.thread.stream, c.thread.readCipher with
  | .reading, (.ok _, _), some cipher => limit < cipher.pos + commandHeaderSize
  | _, _, _ => false

def isStoring (c : ControlThread) : Bool :=
  match c.point with
  | .storing _ _ => true
  | _ => false

end ControlThread

/-- The server with its panics. `poisoned` is the state of the mutex of the nonces, and `panicked` has
the sessions whose writer threads ended in a panic; a control thread that panics has ended. -/
structure Fallible where
  server : ServeMulti
  poisoned : Bool
  panicked : List Nat

namespace Fallible

def start (capacity : Nat) : Fallible := ⟨.start capacity, false, []⟩

/-- The control thread of session `i` panics. -/
def endControl (x : Fallible) (i : Nat) (m : Session) (thread : MasterControl) : Fallible :=
  { x with server := x.server.setSession i { m with control := some ⟨.ended, thread⟩ } }

variable [ChaCha]

/-- A step of the server in which no thread panics. -/
def calmly (key : Key) (x : Fallible) (a : ServeAct) : Option Fallible :=
  (x.server.step (some key) a).map fun s => { x with server := s }

def step (limit : Nat) (key : Key) (x : Fallible) : ServeAct → Option Fallible
  | .writer i result => x.server.sessions[i]?.bind fun m =>
    if i ∈ x.panicked then none
    else if m.writer.overruns limit then
      -- the guard is dropped while the thread panics
      some ⟨{ x.server with holder := none }, true, i :: x.panicked⟩
    else if m.writer.isWaiting && x.server.holder.isNone && x.poisoned then
      some { x with panicked := i :: x.panicked }
    else x.calmly key (.writer i result)
  | .control i env partly => x.server.sessions[i]?.bind fun m => m.control.bind fun c =>
    if c.overruns limit then
      -- the frame has been read, and the thread panics on it
      some (x.endControl i m { c.thread with stream := (readExact commandHeaderSize c.thread.stream).2 })
    else if c.isStoring && x.server.holder.isNone && x.poisoned then some (x.endControl i m c.thread)
    else x.calmly key (.control i env partly)
  | a => x.calmly key a

/-- Everything that a step can do. -/
inductive Moved (limit : Nat) (key : Key) (x : Fallible) (a : ServeAct) (y : Fallible) : Prop where
  | calm {s : ServeMulti} (stepped : x.server.step (some key) a = some s) (next : y = { x with server := s })
      (alive : ∀ i result, a = .writer i result → i ∉ x.panicked)
      (clean : x.poisoned = true → x.server.holder = none →
        (∀ i result, a = .writer i result → ∀ m ∈ x.server.sessions[i]?, m.writer.isWaiting = false) ∧
        ∀ i env partly, a = .control i env partly → ∀ m ∈ x.server.sessions[i]?, ∀ c ∈ m.control, c.isStoring = false)
  | writerOverruns {i : Nat} {m : Session} (there : x.server.sessions[i]? = some m) (alive : i ∉ x.panicked)
      (over' : m.writer.overruns limit = true) (next : y = ⟨{ x.server with holder := none }, true, i :: x.panicked⟩)
  | writerPanics {i : Nat} (poisoned : x.poisoned = true) (next : y = { x with panicked := i :: x.panicked })
  | controlPanics {i : Nat} {m : Session} {thread : MasterControl} (there : x.server.sessions[i]? = some m)
      (next : y = x.endControl i m thread)

/-- A step without a panic that touches neither a writer nor a control thread. -/
theorem calmly_moved {limit : Nat} {key : Key} {x y : Fallible} {a : ServeAct} (other : ∀ i result, a ≠ .writer i result)
    (other' : ∀ i env partly, a ≠ .control i env partly) (taken : x.calmly key a = some y) : Moved limit key x a y := by
  obtain ⟨s, stepped, rfl⟩ := Option.map_eq_some_iff.1 taken
  exact .calm stepped rfl (fun i result same => absurd same (other i result)) fun _ _ =>
    ⟨fun i result same => absurd same (other i result), fun i env partly same => absurd same (other' i env partly)⟩

theorem moved {limit : Nat} {key : Key} {x y : Fallible} {a : ServeAct} (taken : x.step limit key a = some y) :
    Moved limit key x a y := by
  cases a with
  | writer i result =>
    obtain ⟨m, there, taken⟩ := Option.bind_eq_some_iff.1 taken
    split at taken
    · cases taken
    · rename_i alive
      split at taken
      · rename_i over'
        cases taken
        exact .writerOverruns there alive over' rfl
      · split at taken
        · rename_i locked
          cases taken
          exact .writerPanics (Bool.and_eq_true_iff.1 locked).2 rfl
        · rename_i clean
          obtain ⟨s, stepped, rfl⟩ := Option.map_eq_some_iff.1 taken
          refine .calm stepped rfl (fun j r same => by cases same; exact alive) fun poisoned free => ⟨?_, ?_⟩
          · rintro j r same m' here
            cases same
            rw [Option.mem_def, there, Option.some.injEq] at here
            subst here
            simpa [poisoned, free] using clean
          · exact fun j env partly same => by cases same
  | control i env partly =>
    obtain ⟨m, there, taken⟩ := Option.bind_eq_some_iff.1 taken
    obtain ⟨c, spawned, taken⟩ := Option.bind_eq_some_iff.1 taken
    split at taken
    · cases taken
      exact .controlPanics there rfl
    · split at taken
      · cases taken
        exact .controlPanics there rfl
      · rename_i clean
        obtain ⟨s, stepped, rfl⟩ := Option.map_eq_some_iff.1 taken
        refine .calm stepped rfl (fun j r same => by cases same) fun poisoned free => ⟨?_, ?_⟩
        · exact fun j r same => by cases same
        · rintro j env' partly' same m' here c' here'
          cases same
          rw [Option.mem_def, there, Option.some.injEq] at here
          subst here
          rw [Option.mem_def, spawned, Option.some.injEq] at here'
          subst here'
          simpa [poisoned, free] using clean
  | send buf => exact calmly_moved (by simp) (by simp) taken
  | setExit => exact calmly_moved (by simp) (by simp) taken
  | accept inbound => exact calmly_moved (by simp) (by simp) taken
  | magic result => exact calmly_moved (by simp) (by simp) taken
  | spawnControl now again => exact calmly_moved (by simp) (by simp) taken
  | join => exact calmly_moved (by simp) (by simp) taken

/-! ## The mutex and the writers -/

/-- A writer that streams has the mutex, and nobody has a poisoned one. -/
structure Guarded (x : Fallible) : Prop where
  holds : ∀ i w, (ServeMulti.writers x.server)[i]? = some w → ServeMulti.Streaming w → i ∉ x.panicked →
    x.server.holder = some i
  free : x.poisoned = true → x.server.holder = none

omit [ChaCha] in
/-- No writer changed, and the mutex is where it was. -/
theorem Guarded.same {x y : Fallible} (h : Guarded x) (writers : ServeMulti.writers y.server = ServeMulti.writers x.server)
    (holder : y.server.holder = x.server.holder) (poisoned : y.poisoned = x.poisoned)
    (panicked : ∀ i, i ∈ x.panicked → i ∈ y.panicked) : Guarded y := by
  refine ⟨fun i w there streams alive => ?_, fun bad => ?_⟩
  · rw [holder]
    exact h.holds i w (writers ▸ there) streams fun dead => alive (panicked i dead)
  · rw [holder]
    exact h.free (poisoned ▸ bad)

omit [ChaCha] in
theorem not_streaming_waiting (loop : WriteClientLoop) : ¬ServeMulti.Streaming (.waiting loop) := by
  rintro ⟨cipher, loop', same, -⟩
  cases same

omit [ChaCha] in
theorem streaming_of_overruns {limit : Nat} {w : WriterThread} (over' : w.overruns limit = true) :
    ServeMulti.Streaming w := by
  unfold WriterThread.overruns at over'
  split at over'
  · rename_i cipher loop
    refine ⟨some cipher, loop, rfl, fun stopped => ?_⟩
    simp [WriteClientLoop.unwritten, stopped] at over'
  · cases over'

/-- The writer that takes the next step is the one that has the mutex. -/
theorem Guarded.calm {key : Key} {x : Fallible} {s : ServeMulti} {a : ServeAct} (h : Guarded x)
    (stepped : x.server.step (some key) a = some s) (alive : ∀ i result, a = .writer i result → i ∉ x.panicked)
    (clean : x.poisoned = true → x.server.holder = none →
      ∀ i result, a = .writer i result → ∀ m ∈ x.server.sessions[i]?, m.writer.isWaiting = false) :
    Guarded { x with server := s } := by
  cases ServeMulti.step_cases stepped with
  | send | setExit | magicInterrupted | magicFailed | join | looked => exact h.same rfl rfl rfl fun _ => id
  | magicWrote n there => exact h.same (ServeMulti.writers_set_same there rfl rfl) rfl rfl fun _ => id
  | spawnControl now again there => exact h.same (ServeMulti.writers_set_same there rfl rfl) rfl rfl fun _ => id
  | replied env partly now there | stored env partly now there | controlled env partly now there =>
    exact h.same (ServeMulti.writers_set_same there rfl rfl) rfl rfl fun _ => id
  | accept inbound =>
    refine ⟨fun i w there streams unharmed => ?_, h.free⟩
    simp only [ServeMulti.writers, List.map_append, List.map_singleton, ServeMulti.newSession, Option.isSome_some,
      if_true] at there
    by_cases old : i < (x.server.sessions.map Session.writer).length
    · rw [List.getElem?_append_left old] at there
      exact h.holds i w there streams unharmed
    · rw [List.getElem?_append_right (Nat.le_of_not_lt old)] at there
      cases List.mem_singleton.1 (List.mem_of_getElem? there)
      exact absurd streams (not_streaming_waiting _)
  | @took i m loop myNonce peerNonce result there waiting free found =>
    refine ⟨fun j w here streams unharmed => ?_, fun bad => ?_⟩
    · by_cases same : i = j
      · exact congrArg some same
      · rw [ServeMulti.writers_set rfl, List.getElem?_set_ne same] at here
        cases free.symm.trans (h.holds j w here streams unharmed)
    · have unspawned := clean bad free i result rfl m there
      rw [waiting] at unspawned
      cases unspawned
  | @wrote i m cipher loop writer accepted result there running on next =>
    obtain ⟨cipher', rfl⟩ := WriterThread.step_loop next
    have mine : x.server.holder = some i :=
      h.holds i _ (ServeMulti.getElem?_writers there) ⟨cipher, loop, running, on⟩ (alive i result rfl)
    have bound := (List.getElem?_eq_some_iff.1 (ServeMulti.getElem?_writers there)).1
    refine ⟨fun j w here streams unharmed => ?_, fun bad => ?_⟩
    · by_cases same : i = j
      · subst same
        rw [ServeMulti.writers_set rfl, List.getElem?_set_self bound] at here
        cases here
        obtain ⟨cipher'', loop', same, on'⟩ := streams
        cases same
        have going : (WriterThread.running cipher' (loop.step x.server.tx x.server.shouldExit result)).stopped = false := by
          simpa [WriterThread.stopped] using on'
        simp only [going, Bool.false_and, Bool.false_eq_true, if_false, mine]
      · rw [ServeMulti.writers_set rfl, List.getElem?_set_ne same] at here
        have theirs := h.holds j w here streams unharmed
        rw [mine, Option.some.injEq] at theirs
        exact absurd theirs same
    · rw [h.free bad] at mine
      cases mine

theorem Guarded.step {limit : Nat} {key : Key} {x y : Fallible} {a : ServeAct} (h : Guarded x)
    (taken : x.step limit key a = some y) : Guarded y := by
  cases moved taken with
  | calm stepped next alive clean =>
    subst next
    exact h.calm stepped alive fun bad free => (clean bad free).1
  | writerOverruns there alive over' next =>
    subst next
    -- only the writer that panicked had the mutex
    have mine := h.holds _ _ (ServeMulti.getElem?_writers there) (streaming_of_overruns over') alive
    refine ⟨fun j w here streams unharmed => ?_, fun _ => rfl⟩
    rw [List.mem_cons, not_or] at unharmed
    have theirs := h.holds j w here streams unharmed.2
    rw [mine, Option.some.injEq] at theirs
    exact absurd theirs.symm unharmed.1
  | writerPanics poisoned next =>
    subst next
    exact h.same rfl rfl rfl fun i dead => List.mem_cons_of_mem _ dead
  | controlPanics there next =>
    subst next
    exact h.same (ServeMulti.writers_set_same there rfl rfl) rfl rfl fun _ => id

/-! ## After the panic -/

omit [ChaCha] in
/-- The samples that each master's socket has accepted, in the order of the sessions. -/
def samples (x : Fallible) : List (List UInt8) := x.server.sessions.map fun m => iqBytes m.out

omit [ChaCha] in
/-- A session that gets no sample. -/
theorem samples_set {x y : Fallible} {i : Nat} {m m' : Session} (there : x.server.sessions[i]? = some m)
    (set : y.server.sessions = x.server.sessions.set i m') (same : iqBytes m'.out = iqBytes m.out) :
    y.samples = x.samples := by
  obtain ⟨bound, value⟩ := List.getElem?_eq_some_iff.1 there
  have here : iqBytes m'.out = (x.server.sessions.map fun m => iqBytes m.out).get ⟨i, by simpa using bound⟩ := by
    simp [same, value]
  rw [samples, set, List.map_set, here]
  exact List.set_getElem_self _

/-- What a step with a poisoned mutex can change: masters may be admitted, but no one gets a sample,
and the nonces stay as they are. -/
structure Starved (x y : Fallible) : Prop where
  poisoned : y.poisoned = true
  nonces : y.server.nonces = x.server.nonces
  samples : ∃ k, y.samples = x.samples ++ List.replicate k []

theorem starved_calm {key : Key} {x : Fallible} {s : ServeMulti} {a : ServeAct} (h : Guarded x) (bad : x.poisoned = true)
    (stepped : x.server.step (some key) a = some s) (alive : ∀ i result, a = .writer i result → i ∉ x.panicked)
    (clean : (∀ i result, a = .writer i result → ∀ m ∈ x.server.sessions[i]?, m.writer.isWaiting = false) ∧
      ∀ i env partly, a = .control i env partly → ∀ m ∈ x.server.sessions[i]?, ∀ c ∈ m.control, c.isStoring = false) :
    Starved x { x with server := s } := by
  have free := h.free bad
  cases ServeMulti.step_cases stepped with
  | send | setExit | magicInterrupted | magicFailed | join | looked => exact ⟨bad, rfl, 0, by simp [samples]⟩
  | accept inbound => exact ⟨bad, rfl, 1, by simp [samples, ServeMulti.newSession, iqBytes]⟩
  | magicWrote n there left =>
    refine ⟨bad, rfl, 0, ?_⟩
    rw [List.replicate_zero, List.append_nil]
    refine samples_set there rfl ?_
    rw [iqBytes_append, iqBytes_other (other_of_tagged (by simp) _), List.append_nil]
  | spawnControl now again there =>
    exact ⟨bad, rfl, 0, by rw [List.replicate_zero, List.append_nil]; exact samples_set there rfl rfl⟩
  | replied env partly now there | controlled env partly now there =>
    refine ⟨bad, rfl, 0, ?_⟩
    rw [List.replicate_zero, List.append_nil]
    refine samples_set there rfl ?_
    rw [iqBytes_append, iqBytes_other (ControlThread.output_other _ _ _), List.append_nil]
  | stored env partly now there spawned point =>
    have idle := clean.2 _ _ _ rfl _ there _ spawned
    simp [ControlThread.isStoring, point] at idle
  | took result there waiting =>
    have unspawned := clean.1 _ _ rfl _ there
    rw [waiting] at unspawned
    cases unspawned
  | wrote result there running on =>
    have mine := h.holds _ _ (ServeMulti.getElem?_writers there) ⟨_, _, running, on⟩ (alive _ _ rfl)
    rw [free] at mine
    cases mine

theorem starved_step {limit : Nat} {key : Key} {x y : Fallible} {a : ServeAct} (h : Guarded x) (bad : x.poisoned = true)
    (taken : x.step limit key a = some y) : Starved x y := by
  cases moved taken with
  | calm stepped next alive clean =>
    subst next
    exact starved_calm h bad stepped alive (clean bad (h.free bad))
  | writerOverruns there alive over' next =>
    have mine := h.holds _ _ (ServeMulti.getElem?_writers there) (streaming_of_overruns over') alive
    rw [h.free bad] at mine
    cases mine
  | writerPanics poisoned next =>
    subst next
    exact ⟨bad, rfl, 0, by simp [samples]⟩
  | controlPanics there next =>
    subst next
    exact ⟨bad, rfl, 0, by rw [List.replicate_zero, List.append_nil]; exact samples_set there rfl rfl⟩

omit [ChaCha] in
theorem Starved.trans {x y z : Fallible} (first : Starved x y) (second : Starved y z) : Starved x z := by
  obtain ⟨k, before⟩ := first.samples
  obtain ⟨l, after⟩ := second.samples
  refine ⟨second.poisoned, second.nonces.trans first.nonces, k + l, ?_⟩
  rw [after, before, List.append_assoc, List.replicate_append_replicate]

/-- What is left of the service: it is starved since `x`, it goes on admitting masters, and a control
thread that has completed a handshake panics instead of storing the nonces. -/
structure Starving (limit : Nat) (key : Key) (x y : Fallible) : Prop extends Starved x y where
  admits : y.server.main = .accepting → y.server.shouldExit = false → ∀ inbound, ∃ z,
    y.step limit key (.accept inbound) = some z ∧ z.samples = y.samples ++ [[]]
  panics : ∀ i m c, y.server.sessions[i]? = some m → m.control = some c → c.isStoring = true → ∀ env partly,
    y.step limit key (.control i env partly) = some (y.endControl i m c.thread)

theorem Starved.starving {limit : Nat} {key : Key} {x y : Fallible} (h : Guarded y) (starved : Starved x y) :
    Starving limit key x y := by
  refine ⟨starved, fun accepting going inbound => ?_, fun i m c there spawned storing env partly => ?_⟩
  · have open' : y.server.main = .accepting ∧ y.server.shouldExit = false := ⟨accepting, going⟩
    simp only [step, calmly, ServeMulti.step, if_pos open', Option.map_some]
    exact ⟨_, rfl, by simp [Fallible.samples, ServeMulti.newSession, iqBytes]⟩
  · have reads : c.overruns limit = false := by
      unfold ControlThread.isStoring at storing
      unfold ControlThread.overruns
      split at storing
      · rename_i point
        rw [point]
      · cases storing
    simp only [step, there, spawned, Option.bind_some, reads, Bool.false_eq_true, if_false, storing, starved.poisoned,
      h.free starved.poisoned, Option.isNone_none, Bool.and_self, if_true]

omit [ChaCha] in
theorem guarded_start (capacity : Nat) : Guarded (start capacity) :=
  ⟨fun i w there => by simp [start, ServeMulti.start, ServeMulti.writers] at there, fun bad => by cases bad⟩

/-- **The end of a keystream is the end of the service.** For every length of the keystream and every run
with any number of sessions: once a writer has panicked with the nonces locked, then in every state
of every continuation no master's socket has accepted a sample more, those of the masters admitted
since none at all, and the nonces are the old ones; masters are admitted as before, and a control
thread that completes a handshake panics. -/
theorem keystream_end_is_final (limit : Nat) (key : Key) (capacity : Nat) (acts later : List ServeAct) (x : Fallible)
    (reached : run (step limit key) (start capacity) acts = some x) (poisoned : x.poisoned = true) :
    Always (step limit key) (Starving limit key x) x later := by
  have guarded : Guarded x := run_invariant (fun _ _ _ h taken => h.step taken) (guarded_start capacity) reached
  have begun : Starved x x := ⟨poisoned, rfl, 0, by simp⟩
  refine (always_of_along (I := fun y => Guarded y ∧ Starved x y) (fun y a z inv (_ : True) taken => ?_) ⟨guarded, begun⟩
    along_trivial).imp fun y inv => inv.2.starving inv.1
  obtain ⟨h, starved⟩ := inv
  exact ⟨h.step taken, starved.trans (starved_step h starved.poisoned taken)⟩

end Fallible

/-- After the handshake the writer sends two samples' bytes, and the next two go past a keystream of
three bytes. -/
def keystreamEndActs : List ServeAct :=
  chainActs ++ [.writer 0 (.ok 0), .writer 0 (.ok 0), .send [3, 4], .writer 0 (.ok 0), .writer 0 (.ok 2)]

namespace Fallible

/-- The master keeps the two bytes it has, and that is all that any master gets. -/
theorem keystream_end_of_three :
    letI := zeroChaCha
    ∃ x, run (step 3 zeroKey) (start defaultBroadcastCapacity) keystreamEndActs = some x ∧ x.poisoned = true ∧
      x.samples = [[0x77, 0xba]] ∧ ∀ later, Always (step 3 zeroKey) (Starving 3 zeroKey x) x later := by
  let _ := zeroChaCha
  have facts : (run (step 3 zeroKey) (start defaultBroadcastCapacity) keystreamEndActs).map
      (fun x => (x.poisoned, x.samples)) = some (true, [[0x77, 0xba]]) := by decide
  obtain ⟨x, reached, facts⟩ := Option.map_eq_some_iff.1 facts
  obtain ⟨poisoned, samples⟩ := Prod.mk.inj facts
  exact ⟨x, reached, poisoned, samples, fun later =>
    keystream_end_is_final 3 zeroKey defaultBroadcastCapacity keystreamEndActs later x reached poisoned⟩

section
variable [ChaCha]

/-! ## Before the panic -/

/-- No writer's `apply_keystream` goes past its keystream in this step. -/
def WriterFits (limit : Nat) (x : Fallible) : ServeAct → Prop
  | .writer i _ => ∀ m ∈ x.server.sessions[i]?, m.writer.overruns limit = false
  | _ => True

/-- No `apply_keystream` at all does. -/
def Fits (limit : Nat) (x : Fallible) : ServeAct → Prop
  | .control i _ _ => ∀ m ∈ x.server.sessions[i]?, ∀ c ∈ m.control, c.overruns limit = false
  | a => WriterFits limit x a

theorem poisoned_step_iff {limit : Nat} {key : Key} {x y : Fallible} {a : ServeAct} (clean : x.poisoned = false)
    (taken : x.step limit key a = some y) : y.poisoned = false ↔ WriterFits limit x a := by
  have calm : ∀ {a}, x.calmly key a = some y → y.poisoned = false := by
    intro a taken
    obtain ⟨s, -, rfl⟩ := Option.map_eq_some_iff.1 taken
    exact clean
  cases a with
  | writer i result =>
    obtain ⟨m, there, taken⟩ := Option.bind_eq_some_iff.1 taken
    split at taken
    · cases taken
    · split at taken
      · rename_i past
        cases taken
        refine iff_of_false (by simp) fun fits => ?_
        rw [fits m there] at past
        cases past
      · rename_i within
        have fits : WriterFits limit x (.writer i result) := by
          intro m' here
          rw [Option.mem_def, there, Option.some.injEq] at here
          subst here
          simpa using within
        split at taken
        · cases taken
          exact iff_of_true clean fits
        · exact iff_of_true (calm taken) fits
  | control i env partly =>
    obtain ⟨m, -, taken⟩ := Option.bind_eq_some_iff.1 taken
    obtain ⟨c, -, taken⟩ := Option.bind_eq_some_iff.1 taken
    refine iff_of_true ?_ trivial
    split at taken
    · cases taken
      exact clean
    · split at taken
      · cases taken
        exact clean
      · exact calm taken
  | send buf => exact iff_of_true (calm taken) trivial
  | setExit => exact iff_of_true (calm taken) trivial
  | accept inbound => exact iff_of_true (calm taken) trivial
  | magic result => exact iff_of_true (calm taken) trivial
  | spawnControl now again => exact iff_of_true (calm taken) trivial
  | join => exact iff_of_true (calm taken) trivial

/-- A sound server takes the steps of the server without panics, unless a keystream ends. -/
theorem step_sound {limit : Nat} {key : Key} {s : ServeMulti} {a : ServeAct}
    (fits : ∀ y, step limit key ⟨s, false, []⟩ a = some y → Fits limit ⟨s, false, []⟩ a) :
    step limit key ⟨s, false, []⟩ a = calmly key ⟨s, false, []⟩ a := by
  cases a with
  | writer i result =>
    simp only [step, List.not_mem_nil, if_false, Bool.and_false, Bool.false_eq_true] at fits ⊢
    cases there : s.sessions[i]? with
    | none => simp [calmly, ServeMulti.step, there]
    | some m =>
      simp only [there, Option.bind_some] at fits ⊢
      split
      · rename_i past
        have within := fits _ (if_pos past) m there
        rw [past] at within
        cases within
      · rfl
  | control i env partly =>
    simp only [step, Bool.and_false, Bool.false_eq_true, if_false] at fits ⊢
    cases there : s.sessions[i]? with
    | none => simp [calmly, ServeMulti.step, there]
    | some m =>
      simp only [there, Option.bind_some] at fits ⊢
      cases spawned : m.control with
      | none => simp [calmly, ServeMulti.step, there, spawned]
      | some c =>
        simp only [spawned, Option.bind_some] at fits ⊢
        split
        · rename_i past
          have within := fits _ (if_pos past) m there c spawned
          rw [past] at within
          cases within
        · rfl
  | send buf => rfl
  | setExit => rfl
  | accept inbound => rfl
  | magic result => rfl
  | spawnControl now again => rfl
  | join => rfl

theorem run_sound {limit : Nat} {key : Key} {acts : List ServeAct} {s : ServeMulti}
    (fits : Along (step limit key) (Fits limit) ⟨s, false, []⟩ acts) :
    run (step limit key) ⟨s, false, []⟩ acts =
      (run (ServeMulti.step (some key)) s acts).map fun s => ⟨s, false, []⟩ := by
  induction acts generalizing s with
  | nil => rfl
  | cons a acts ih =>
    have calm := step_sound fun y taken => (fits y taken).1
    cases stepped : s.step (some key) a with
    | none =>
      have refused : step limit key ⟨s, false, []⟩ a = none := by rw [calm, calmly, stepped, Option.map_none]
      simp only [run, refused, stepped, Option.map_none]
    | some t =>
      have allowed : step limit key ⟨s, false, []⟩ a = some ⟨t, false, []⟩ := by rw [calm, calmly, stepped, Option.map_some]
      rw [run_cons allowed, run_cons stepped]
      exact ih (fits _ allowed).2

/-- **Panics come from the end of a keystream only.** A run is one of the server without panics as long as
no call of `apply_keystream` goes past its keystream; and the mutex of the nonces is sound exactly
as long as no writer makes such a call. -/
theorem panics_at_keystream_end (limit : Nat) (key : Key) (capacity : Nat) (acts : List ServeAct) :
    (Along (step limit key) (Fits limit) (start capacity) acts →
      run (step limit key) (start capacity) acts =
        (run (ServeMulti.step (some key)) (.start capacity) acts).map fun s => ⟨s, false, []⟩) ∧
      (Always (step limit key) (fun x => x.poisoned = false) (start capacity) acts ↔
        Along (step limit key) (WriterFits limit) (start capacity) acts) := by
  refine ⟨run_sound, ?_⟩
  exact always_iff_along (I := fun _ => True) (fun _ _ _ _ _ => trivial)
    (fun _ _ _ _ clean taken => poisoned_step_iff clean taken) trivial rfl

end

/-- What `Fits` says can be computed. -/
instance (limit : Nat) (x : Fallible) (a : ServeAct) : Decidable (Fits limit x a) :=
  match a with
  | .writer i _ => inferInstanceAs (Decidable (∀ m ∈ x.server.sessions[i]?, m.writer.overruns limit = false))
  | .control i _ _ =>
    inferInstanceAs (Decidable (∀ m ∈ x.server.sessions[i]?, ∀ c ∈ m.control, c.overruns limit = false))
  | .send _ | .setExit | .accept _ | .magic _ | .spawnControl _ _ | .join => isTrue trivial

/-- Two samples' bytes fit into three. -/
theorem two_bytes_within_three :
    letI := zeroChaCha
    run (step 3 zeroKey) (start defaultBroadcastCapacity) chainActs =
      (run (ServeMulti.step (some zeroKey)) (.start defaultBroadcastCapacity) chainActs).map fun s => ⟨s, false, []⟩ := by
  let _ := zeroChaCha
  exact (panics_at_keystream_end 3 zeroKey defaultBroadcastCapacity chainActs).1 (by decide)

end Fallible

end RtlTcp
