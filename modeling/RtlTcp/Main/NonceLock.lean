import RtlTcp.Main.ServeMulti

/-!
# `run_serve_multi`: the lock on the nonces

A writer waits for its nonces with `if let Some(..) = *enonces.lock().unwrap()`, and runs
`write_client_loop` in the body. The guard is a temporary of the scrutinee and lives as long as the
body, so that the mutex stays locked while the writer streams. `nonce_slot_free_iff` says in which
runs that does not happen.
-/

namespace RtlTcp.ServeMulti
set_option autoImplicit false
open ByteIo Transition

/-- The writer threads, in the order of their sessions. -/
def writers (s : ServeMulti) : List WriterThread := s.sessions.map Session.writer

/-- The writer is in its `write_client_loop`. -/
def Streaming (w : WriterThread) : Prop := ∃ cipher loop, w = .running cipher loop ∧ loop.point ≠ .stopped

section
variable [ChaCha]

/-- No writer in its `write_client_loop` has the mutex of the nonces, and a control thread that has
completed `server_nonce_exchange` can store the new nonces and goes on with the next command. -/
structure NonceSlotFree (key : Key) (s : ServeMulti) : Prop where
  unlocked : ∀ i w, (writers s)[i]? = some w → Streaming w → s.holder ≠ some i
  stores : ∀ i m thread myNonce peerNonce, s.sessions[i]? = some m →
    m.control = some ⟨.storing myNonce peerNonce, thread⟩ → ∀ env partly, ∃ s' m' thread',
      s.step (some key) (.control i env partly) = some s' ∧ s'.nonces = some (myNonce, peerNonce) ∧
        s'.sessions[i]? = some m' ∧ m'.control = some ⟨.reading, thread'⟩

end

/-- A writer that looks for nonces finds none. -/
def FindsNoNonces (s : ServeMulti) : ServeAct → Prop
  | .writer i _ => ∀ loop, (writers s)[i]? = some (.waiting loop) → s.nonces = none
  | _ => True

/-! ## Who has the mutex -/

/-- The mutex is with a writer that streams, and a writer that waits has its loop before it. -/
structure LockInv (s : ServeMulti) : Prop where
  streams : ∀ i, s.holder = some i → ∃ w, (writers s)[i]? = some w ∧ Streaming w
  waits : ∀ loop, .waiting loop ∈ writers s → loop.point ≠ .stopped

theorem getElem?_writers {s : ServeMulti} {i : Nat} {m : Session} (there : s.sessions[i]? = some m) :
    (writers s)[i]? = some m.writer := by
  rw [writers, List.getElem?_map, there]
  rfl

theorem writers_set {s s' : ServeMulti} {i : Nat} {m : Session} (set : s'.sessions = s.sessions.set i m) :
    writers s' = (writers s).set i m.writer := by
  rw [writers, set, List.map_set]
  rfl

/-- A session that keeps its writer changes no writer. -/
theorem writers_set_same {s s' : ServeMulti} {i : Nat} {m m' : Session} (there : s.sessions[i]? = some m)
    (set : s'.sessions = s.sessions.set i m') (same : m'.writer = m.writer) : writers s' = writers s := by
  obtain ⟨bound, value⟩ := List.getElem?_eq_some_iff.1 (getElem?_writers there)
  rw [writers_set set, same, ← value, List.set_getElem_self]

theorem LockInv.same {s s' : ServeMulti} (inv : LockInv s) (same : writers s' = writers s)
    (holder : s'.holder = s.holder) : LockInv s' := by
  refine ⟨fun i held => ?_, fun loop member => ?_⟩
  · rw [same]
    exact inv.streams i (holder ▸ held)
  · rw [same] at member
    exact inv.waits loop member

/-- A new writer waits, and has its loop before it. -/
theorem LockInv.accept {s s' : ServeMulti} (inv : LockInv s) {loop : WriteClientLoop} (before : loop.point ≠ .stopped)
    (more : writers s' = writers s ++ [.waiting loop]) (holder : s'.holder = s.holder) : LockInv s' := by
  refine ⟨fun i held => ?_, fun loop' member => ?_⟩
  · obtain ⟨w, there, streaming⟩ := inv.streams i (holder ▸ held)
    have bound := (List.getElem?_eq_some_iff.1 there).1
    exact ⟨w, by rw [more, List.getElem?_append_left bound, there], streaming⟩
  · rw [more] at member
    rcases List.mem_append.1 member with old | new
    · exact inv.waits loop' old
    · cases List.mem_singleton.1 new
      exact before

/-- A writer that goes on keeps the mutex until it has stopped. -/
theorem LockInv.run {s s' : ServeMulti} (inv : LockInv s) {i : Nat} {m m' : Session} {cipher : Option ChaCha20}
    {loop : WriteClientLoop} (there : s.sessions[i]? = some m) (set : s'.sessions = s.sessions.set i m')
    (running : m'.writer = .running cipher loop)
    (holder : ∀ j, s'.holder = some j → j = i ∧ loop.point ≠ .stopped ∨ j ≠ i ∧ s.holder = some j) : LockInv s' := by
  have bound := (List.getElem?_eq_some_iff.1 (getElem?_writers there)).1
  have next := writers_set set
  rw [running] at next
  refine ⟨fun j held => ?_, fun loop' member => ?_⟩
  · rcases holder j held with ⟨rfl, on⟩ | ⟨other, before⟩
    · exact ⟨_, by rw [next, List.getElem?_set_self bound], cipher, loop, rfl, on⟩
    · rw [next, List.getElem?_set_ne (Ne.symm other)]
      exact inv.streams j before
  · rw [next] at member
    rcases List.mem_or_eq_of_mem_set member with old | new
    · exact inv.waits loop' old
    · cases new

section
variable [ChaCha]

theorem LockInv.step {key : Key} {s s' : ServeMulti} {a : ServeAct} (inv : LockInv s)
    (taken : s.step (some key) a = some s') : LockInv s' := by
  cases step_cases taken with
  | send | setExit | magicInterrupted | magicFailed | join | looked => exact inv.same rfl rfl
  | accept inbound =>
    refine inv.accept (show (WriteClientLoop.start s.tx).point ≠ .stopped by simp [WriteClientLoop.start]) ?_ rfl
    simp only [writers, List.map_append, List.map_singleton, newSession, Option.isSome_some, if_true]
  | magicWrote n there => exact inv.same (writers_set_same there rfl rfl) rfl
  | spawnControl now again there => exact inv.same (writers_set_same there rfl rfl) rfl
  | replied env partly now there | stored env partly now there | controlled env partly now there =>
    exact inv.same (writers_set_same there rfl rfl) rfl
  | @took i m loop myNonce peerNonce result there waiting free found =>
    have member := List.mem_of_getElem? (getElem?_writers there)
    rw [waiting] at member
    refine inv.run there rfl rfl fun j held => ?_
    cases held
    exact .inl ⟨rfl, inv.waits loop member⟩
  | @wrote i m cipher loop writer accepted result there running on next =>
    obtain ⟨cipher', rfl⟩ := WriterThread.step_loop next
    refine inv.run there rfl rfl fun j held => ?_
    dsimp only at held
    split at held
    · cases held
    · rename_i kept
      by_cases here : j = i
      · subst here
        refine .inl ⟨rfl, fun stopped => kept ?_⟩
        simp [WriterThread.stopped, stopped, held]
      · exact .inr ⟨here, held⟩

/-- In a reachable state the slot is free exactly when nobody has the mutex. -/
theorem nonceSlotFree_iff (key : Key) {s : ServeMulti} (inv : LockInv s) : NonceSlotFree key s ↔ s.holder = none := by
  constructor
  · intro free
    cases held : s.holder with
    | none => rfl
    | some i =>
      obtain ⟨w, there, streaming⟩ := inv.streams i held
      exact absurd held (free.unlocked i w there streaming)
  · intro nobody
    refine ⟨fun i w _ _ => by simp [nobody], fun i m thread myNonce peerNonce there storing env partly => ?_⟩
    have bound := (List.getElem?_eq_some_iff.1 there).1
    let c : ControlThread := ⟨.storing myNonce peerNonce, thread⟩
    let m' : Session := { m with
      control := some (c.step (some key) { env with shouldExit := s.shouldExit })
      out := m.out ++ c.output { env with shouldExit := s.shouldExit } partly }
    refine ⟨{ s.setSession i m' with nonces := some (myNonce, peerNonce), storedBy := some i }, m', _, ?_, rfl,
      List.getElem?_set_self bound, rfl⟩
    simp only [ServeMulti.step, there, storing, Option.bind_some, controlStep, nobody, Option.isSome_none,
      Bool.false_eq_true, if_false]
    rfl

/-- A step leaves the mutex alone unless a writer finds nonces. -/
theorem holder_step_iff {key : Key} {s s' : ServeMulti} {a : ServeAct} (nobody : s.holder = none)
    (taken : s.step (some key) a = some s') : s'.holder = none ↔ FindsNoNonces s a := by
  cases step_cases taken with
  | looked result there waiting empty => exact ⟨fun _ _ _ => empty, fun _ => nobody⟩
  | took result there waiting free found =>
    have here := getElem?_writers there
    rw [waiting] at here
    refine ⟨fun nobody => (nomatch nobody), fun finds => ?_⟩
    rw [finds _ here] at found
    cases found
  | wrote result there running on next =>
    have here := getElem?_writers there
    rw [running] at here
    refine ⟨fun _ loop waiting => ?_, fun _ => ?_⟩
    · cases here.symm.trans waiting
    · simp only [nobody, ite_self]
  | _ => exact ⟨fun _ => trivial, fun _ => nobody⟩

/-- **When the nonce slot is never locked.** With a key, in every run of any number of sessions and
handshakes and with any interleaving of the threads: no writer ever streams with the mutex of the
nonces in its hand, and every control thread can always store the nonces of its exchange and go on,
exactly when no writer that looks for nonces ever finds any. -/
theorem nonce_slot_free_iff (key : Key) (capacity : Nat) (acts : List ServeAct) :
    Always (step (some key)) (NonceSlotFree key) (start capacity) acts ↔
      Along (step (some key)) FindsNoNonces (start capacity) acts := by
  have begun : LockInv (start capacity) := ⟨fun i held => (nomatch held), fun loop member => (nomatch member)⟩
  refine always_iff_along (I := LockInv) ?_ ?_ begun ((nonceSlotFree_iff key begun).2 rfl)
  · intro s a s' inv taken
    exact inv.step taken
  · intro s a s' inv free taken
    rw [nonceSlotFree_iff key (inv.step taken)]
    exact holder_step_iff ((nonceSlotFree_iff key inv).1 free) taken

end

theorem pendingNonce_some {control : Option ControlThread} {myNonce : Nonce} (pending : pendingNonce control = some myNonce) :
    ∃ peerNonce thread, control = some ⟨.storing myNonce peerNonce, thread⟩ := by
  unfold pendingNonce at pending
  split at pending
  · rename_i n peerNonce thread
    cases pending
    exact ⟨peerNonce, thread, rfl⟩
  · cases pending

/-- While somebody has the mutex, a control thread that is to store its nonces waits. -/
theorem storing_blocked [ChaCha] (key : Key) {s : ServeMulti} (held : s.holder.isSome = true) {i : Nat} {m : Session}
    {myNonce peerNonce : Nonce} {thread : MasterControl} (there : s.sessions[i]? = some m)
    (storing : m.control = some ⟨.storing myNonce peerNonce, thread⟩) (env : Env) (partly : Nat) :
    s.step (some key) (.control i env partly) = none := by
  simp only [step, there, storing, Option.bind_some, controlStep, held, if_true]

/-- A proxy connects, shakes hands and gets its stream, and then shakes hands once more. -/
def secondHandshakeActs : List ServeAct :=
  let probe : List UInt8 := [0xF0, 0x50, 0x52, 0x4F, 0x58]
  let nonce : List UInt8 := List.replicate 12 7
  -- the same, encrypted with the first bytes of the keystream
  let again : List UInt8 := [0x86, 0xE8, 0xB2, 0xE2, 0xF8]
  let client : List Arrival := (probe ++ nonce ++ again ++ nonce).map .byte
  let env : Env := MasterControl.calmEnv 0
  let later : Env := { MasterControl.calmEnv 1 with myNonce := ⟨List.replicate 12 2, rfl⟩ }
  [.accept client, .magic (.ok 12), .spawnControl 0 0, .control 0 env 0, .control 0 env 0, .control 0 env 0,
    .control 0 env 0, .control 0 env 0, .writer 0 (.ok 0), .control 0 later 0, .control 0 later 0, .control 0 later 0,
    .control 0 later 0]

/-- The writer has the mutex, and the control thread has completed the second exchange and waits for it. -/
theorem second_handshake_waits :
    letI := zeroChaCha
    ∃ s, run (step (some zeroKey)) (start defaultBroadcastCapacity) secondHandshakeActs = some s ∧ s.holder = some 0 ∧
      (∀ env partly, s.step (some zeroKey) (.control 0 env partly) = none) ∧ ¬NonceSlotFree zeroKey s := by
  let _ := zeroChaCha
  have facts : (run (step (some zeroKey)) (start defaultBroadcastCapacity) secondHandshakeActs).map
      (fun s => (s.holder, s.sessions.map fun m => pendingNonce m.control)) =
        some (some 0, [some ⟨List.replicate 12 2, rfl⟩]) := by decide
  obtain ⟨s, reached, facts⟩ := Option.map_eq_some_iff.1 facts
  obtain ⟨held, facts⟩ := Prod.mk.inj facts
  obtain ⟨m, only, pending⟩ := List.map_eq_singleton_iff.1 facts
  obtain ⟨peerNonce, thread, storing⟩ := pendingNonce_some pending
  have there : s.sessions[0]? = some m := by rw [only]; rfl
  have blocked := storing_blocked zeroKey (by rw [held]; rfl) there storing
  refine ⟨s, reached, held, blocked, fun free => ?_⟩
  obtain ⟨s', -, -, taken, -⟩ := free.stores 0 m thread _ peerNonce there storing (MasterControl.calmEnv 1) 0
  rw [blocked] at taken
  cases taken

end RtlTcp.ServeMulti
