import RtlTcp.Lib.SharedSlot
import RtlTcp.Lib.Transition
import RtlTcp.Main.Session

/-!
# `run_serve_multi`: the master sessions

The accepting thread, and for every master session its sample writer and its control thread. A
list of `ServeAct`s is a schedule of all of them. The nonces go from a control thread to the
writer through `encryption_nonces`, which all sessions share; a writer that has found them
there keeps the mutex locked until its `write_client_loop` returns.

`nonces_own_iff` says in which runs every writer gets the nonce of its own session.
-/

namespace RtlTcp
set_option autoImplicit false
open ByteIo Transition Broadcast

/-- One master session. `magicLeft` is the part of the magic packet still to be written, `out`
what its socket has accepted, `sentNonces` the nonces sent to the peer, and `writerNonce` the
nonce that its `EncryptedWriter` was made with. -/
structure Session where
  inbound : List Arrival
  magicLeft : List UInt8
  writer : WriterThread
  control : Option ControlThread
  out : SocketLog
  sentNonces : List Nonce
  writerNonce : Option Nonce

/-- Where the accepting thread is; the number is that of the session it works on. -/
inductive MainPoint where
  | accepting
  | sendingMagic (i : Nat)
  | joining (i : Nat)
  | returned
  deriving DecidableEq

/-- The server. `nonces` is `encryption_nonces`, `storedBy` the session whose control thread
stored them, `holder` the session whose writer holds the mutex, and `generated` what
`generate_nonce` has returned so far. -/
structure ServeMulti where
  tx : Channel (List UInt8)
  shouldExit : Bool
  main : MainPoint
  sessions : List Session
  nonces : Option (Nonce × Nonce)
  storedBy : Option Nat
  holder : Option Nat
  generated : List Nonce

/-- What can happen next: the device delivers a buffer, the exit flag is set, the accepting
thread takes a step, or a thread of session `i` does. `result`, `env` and `partly` are what the
operating system answers. -/
inductive ServeAct where
  | send (buf : List UInt8)
  | setExit
  | accept (inbound : List Arrival)
  | magic (result : Except ErrorKind Nat)
  | spawnControl (now again : Nat)
  | join
  | writer (i : Nat) (result : Except ErrorKind Nat)
  | control (i : Nat) (env : Env) (partly : Nat)

namespace ServeMulti

def start (capacity : Nat) : ServeMulti where
  tx := newBroadcast capacity
  shouldExit := false
  main := .accepting
  sessions := []
  nonces := none
  storedBy := none
  holder := none
  generated := []

def setSession (s : ServeMulti) (i : Nat) (m : Session) : ServeMulti := { s with sessions := s.sessions.set i m }

/-- A new session: the writer subscribes and is spawned before the magic packet is sent. -/
def newSession (key : Option Key) (tx : Channel (List UInt8)) (inbound : List Arrival) : Session where
  inbound := inbound
  magicLeft := magicPacket.toList
  writer := if key.isSome then .waiting (.start tx) else .running none (.start tx)
  control := none
  out := []
  sentNonces := []
  writerNonce := none

/-- One `write` of the magic packet's `flush`; an error makes `run_serve_multi` return. -/
def magicStep (s : ServeMulti) (i : Nat) (m : Session) (result : Except ErrorKind Nat) : Option ServeMulti :=
  match m.magicLeft, result with
  | [], _ => none
  | _ :: _, .ok 0 => some { s with main := .returned }
  | b :: bs, .ok (n + 1) =>
    some (s.setSession i
      { m with magicLeft := bs.drop n, out := m.out ++ tagged .magic ((b :: bs).take (n + 1)) })
  | _ :: _, .error e => if e = .interrupted then some s else some { s with main := .returned }

section
variable [ChaCha]

/-- A step of the writer. A waiting writer needs the mutex of the nonces; once it has found
some, it keeps the mutex until its loop stops. -/
def writerStep (key : Option Key) (s : ServeMulti) (i : Nat) (m : Session) (result : Except ErrorKind Nat) :
    Option ServeMulti :=
  match m.writer, key with
  | .notSpawned, _ => none
  | .waiting _, none => none
  | .waiting loop, some key =>
    if s.holder.isSome then none
    else
      match s.nonces with
      | none => some s
      | some (myNonce, _) =>
        some { s.setSession i { m with writer := .running (some (.new key myNonce)) loop, writerNonce := some myNonce } with
          holder := some i }
  | .running cipher loop, _ =>
    if loop.point = .stopped then none
    else
      let (writer, accepted) := WriterThread.step s.tx s.shouldExit cipher loop result
      some { s.setSession i { m with writer := writer, out := m.out ++ tagged .iq accepted } with
        holder := if writer.stopped && s.holder == some i then none else s.holder }

/-- A step of the control thread. `generate_nonce` returns something new, and storing the nonces
needs the mutex. -/
def controlStep (key : Option Key) (s : ServeMulti) (i : Nat) (m : Session) (c : ControlThread) (env : Env)
    (partly : Nat) : Option ServeMulti :=
  let m' := { m with control := some (c.step key env), out := m.out ++ c.output env partly }
  match c.point with
  | .replying _ =>
    if env.myNonce ∈ s.generated then none
    else
      let sentNonces := match env.nonceSent with
        | .ok () => m.sentNonces ++ [env.myNonce]
        | .error _ => m.sentNonces
      some { s.setSession i { m' with sentNonces := sentNonces } with generated := s.generated ++ [env.myNonce] }
  | .storing myNonce peerNonce =>
    if s.holder.isSome then none
    else some { s.setSession i m' with nonces := some (myNonce, peerNonce), storedBy := some i }
  | .ended => none
  | _ => some (s.setSession i m')

/-- The next state of the server. -/
def step (key : Option Key) (s : ServeMulti) : ServeAct → Option ServeMulti
  | .send buf => some { s with tx := s.tx.send buf }
  | .setExit => some { s with shouldExit := true }
  | .accept inbound =>
    if s.main = .accepting ∧ s.shouldExit = false then
      some { s with
        main := .sendingMagic s.sessions.length
        sessions := s.sessions ++ [newSession key s.tx inbound] }
    else none
  | .magic result =>
    match s.main with
    | .sendingMagic i => s.sessions[i]?.bind fun m => s.magicStep i m result
    | _ => none
  | .spawnControl now again =>
    match s.main with
    | .sendingMagic i => s.sessions[i]?.bind fun m =>
      -- a session gets one control thread, when its magic packet is out
      if m.magicLeft.isEmpty && m.control.isNone then
        let thread := MasterControl.start m.inbound .new (.new commandRateLimitInterval now again)
        some { s.setSession i { m with control := some ⟨.reading, thread⟩ } with main := .joining i }
      else none
    | _ => none
  | .join =>
    match s.main with
    | .joining i => s.sessions[i]?.bind fun m => m.control.bind fun c =>
      match c.point with
      | .ended => some { s with main := .accepting }
      | _ => none
    | _ => none
  | .writer i result => s.sessions[i]?.bind fun m => s.writerStep key i m result
  | .control i env partly => s.sessions[i]?.bind fun m => m.control.bind fun c =>
    s.controlStep key i m c { env with shouldExit := s.shouldExit } partly

/-- Everything that a step with a key can do. -/
inductive Stepped (key : Key) (s : ServeMulti) : ServeAct → ServeMulti → Prop where
  | send (buf : List UInt8) : Stepped key s (.send buf) { s with tx := s.tx.send buf }
  | setExit : Stepped key s .setExit { s with shouldExit := true }
  | accept (inbound : List Arrival) (free : s.main = .accepting) (running : s.shouldExit = false) :
    Stepped key s (.accept inbound) { s with
      main := .sendingMagic s.sessions.length, sessions := s.sessions ++ [newSession (some key) s.tx inbound] }
  | magicWrote {i : Nat} {m : Session} {b : UInt8} {bs : List UInt8} (n : Nat) (there : s.sessions[i]? = some m)
    (left : m.magicLeft = b :: bs) :
    Stepped key s (.magic (.ok (n + 1))) (s.setSession i
      { m with magicLeft := bs.drop n, out := m.out ++ tagged .magic ((b :: bs).take (n + 1)) })
  | magicInterrupted : Stepped key s (.magic (.error .interrupted)) s
  | magicFailed (result : Except ErrorKind Nat) : Stepped key s (.magic result) { s with main := .returned }
  | spawnControl {i : Nat} {m : Session} (now again : Nat) (there : s.sessions[i]? = some m) (sent : m.magicLeft = [])
    (unspawned : m.control = none) :
    Stepped key s (.spawnControl now again) { s.setSession i { m with
      control := some ⟨.reading, .start m.inbound .new (.new commandRateLimitInterval now again)⟩ } with main := .joining i }
  | join : Stepped key s .join { s with main := .accepting }
  | looked {i : Nat} {m : Session} {loop : WriteClientLoop} (result : Except ErrorKind Nat)
    (there : s.sessions[i]? = some m) (waiting : m.writer = .waiting loop) (empty : s.nonces = none) :
    Stepped key s (.writer i result) s
  | took {i : Nat} {m : Session} {loop : WriteClientLoop} {myNonce peerNonce : Nonce} (result : Except ErrorKind Nat)
    (there : s.sessions[i]? = some m) (waiting : m.writer = .waiting loop) (free : s.holder = none)
    (found : s.nonces = some (myNonce, peerNonce)) :
    Stepped key s (.writer i result) { s.setSession i { m with
      writer := .running (some (.new key myNonce)) loop, writerNonce := some myNonce } with holder := some i }
  | wrote {i : Nat} {m : Session} {cipher : Option ChaCha20} {loop : WriteClientLoop} {writer : WriterThread}
    {accepted : List UInt8} (result : Except ErrorKind Nat) (there : s.sessions[i]? = some m)
    (running : m.writer = .running cipher loop) (on : loop.point ≠ .stopped)
    (next : WriterThread.step s.tx s.shouldExit cipher loop result = (writer, accepted)) :
    Stepped key s (.writer i result) { s.setSession i { m with
      writer := writer, out := m.out ++ tagged .iq accepted } with
      holder := if writer.stopped && s.holder == some i then none else s.holder }
  | replied {i : Nat} {m : Session} {c : ControlThread} {peerNonce : Nonce} {env' : Env} (env : Env) (partly : Nat)
    (now : env' = { env with shouldExit := s.shouldExit })
    (there : s.sessions[i]? = some m) (spawned : m.control = some c) (point : c.point = .replying peerNonce)
    (fresh : env.myNonce ∉ s.generated) :
    Stepped key s (.control i env partly) { s.setSession i { m with
      control := some (c.step (some key) env'), out := m.out ++ c.output env' partly
      sentNonces := match env.nonceSent with
        | .ok () => m.sentNonces ++ [env.myNonce]
        | .error _ => m.sentNonces } with
      generated := s.generated ++ [env.myNonce] }
  | stored {i : Nat} {m : Session} {c : ControlThread} {myNonce peerNonce : Nonce} {env' : Env} (env : Env) (partly : Nat)
    (now : env' = { env with shouldExit := s.shouldExit })
    (there : s.sessions[i]? = some m) (spawned : m.control = some c) (point : c.point = .storing myNonce peerNonce)
    (free : s.holder = none) :
    Stepped key s (.control i env partly) { s.setSession i { m with
      control := some (c.step (some key) env'), out := m.out ++ c.output env' partly } with
      nonces := some (myNonce, peerNonce), storedBy := some i }
  | controlled {i : Nat} {m : Session} {c : ControlThread} {env' : Env} (env : Env) (partly : Nat)
    (now : env' = { env with shouldExit := s.shouldExit })
    (there : s.sessions[i]? = some m) (spawned : m.control = some c) (point : c.point = .reading ∨ c.point = .acking ∨ c.point = .exchanging) :
    Stepped key s (.control i env partly) (s.setSession i { m with
      control := some (c.step (some key) env'), out := m.out ++ c.output env' partly })

theorem magicStep_cases {key : Key} {s s' : ServeMulti} {i : Nat} {m : Session} {result : Except ErrorKind Nat}
    (there : s.sessions[i]? = some m) (taken : s.magicStep i m result = some s') :
    Stepped key s (.magic result) s' := by
  unfold magicStep at taken
  split at taken
  · cases taken
  · cases taken
    exact .magicFailed _
  · rename_i b bs n left
    cases taken
    exact .magicWrote n there left
  · split at taken
    · rename_i e interrupted
      subst interrupted
      cases taken
      exact .magicInterrupted
    · cases taken
      exact .magicFailed _

theorem writerStep_cases {key : Key} {s s' : ServeMulti} {i : Nat} {m : Session} {result : Except ErrorKind Nat}
    (there : s.sessions[i]? = some m) (taken : s.writerStep (some key) i m result = some s') :
    Stepped key s (.writer i result) s' := by
  unfold writerStep at taken
  split at taken
  · cases taken
  · cases taken
  · rename_i loop key' waiting same
    cases same
    split at taken
    · cases taken
    · rename_i free
      split at taken
      · rename_i empty
        cases taken
        exact .looked result there waiting empty
      · rename_i myNonce peerNonce found
        cases taken
        exact .took result there waiting (Option.not_isSome_iff_eq_none.1 free) found
  · rename_i cipher loop running
    split at taken
    · cases taken
    · rename_i on
      cases taken
      exact .wrote result there running on rfl

theorem controlStep_cases {key : Key} {s s' : ServeMulti} {i : Nat} {m : Session} {c : ControlThread} {env : Env}
    {partly : Nat} (there : s.sessions[i]? = some m) (spawned : m.control = some c)
    (taken : s.controlStep (some key) i m c { env with shouldExit := s.shouldExit } partly = some s') :
    Stepped key s (.control i env partly) s' := by
  unfold controlStep at taken
  cases point : c.point with
  | replying peerNonce =>
    simp only [point] at taken
    split at taken
    · cases taken
    · rename_i fresh
      cases taken
      exact .replied env partly rfl there spawned point fresh
  | storing myNonce peerNonce =>
    simp only [point] at taken
    split at taken
    · cases taken
    · rename_i free
      cases taken
      exact .stored env partly rfl there spawned point (Option.not_isSome_iff_eq_none.1 free)
  | ended =>
    simp only [point] at taken
    cases taken
  | reading | acking | exchanging =>
    simp only [point] at taken
    cases taken
    exact .controlled env partly rfl there spawned (by simp [point])

/-- **What a step can do**, with all that is known when it is done. -/
theorem step_cases {key : Key} {s s' : ServeMulti} {a : ServeAct} (taken : s.step (some key) a = some s') :
    Stepped key s a s' := by
  cases a with
  | send buf =>
    cases taken
    exact .send buf
  | setExit =>
    cases taken
    exact .setExit
  | accept inbound =>
    simp only [step] at taken
    split at taken
    · rename_i open'
      cases taken
      exact .accept inbound open'.1 open'.2
    · cases taken
  | magic result =>
    simp only [step] at taken
    split at taken
    · obtain ⟨m, there, taken⟩ := Option.bind_eq_some_iff.1 taken
      exact magicStep_cases there taken
    · cases taken
  | spawnControl now again =>
    simp only [step] at taken
    split at taken
    · obtain ⟨m, there, taken⟩ := Option.bind_eq_some_iff.1 taken
      split at taken
      · rename_i ready
        obtain ⟨sent, unspawned⟩ := Bool.and_eq_true_iff.1 ready
        cases taken
        exact .spawnControl now again there (List.isEmpty_iff.1 sent) (Option.isNone_iff_eq_none.1 unspawned)
      · cases taken
    · cases taken
  | join =>
    simp only [step] at taken
    split at taken
    · obtain ⟨m, there, taken⟩ := Option.bind_eq_some_iff.1 taken
      obtain ⟨c, spawned, taken⟩ := Option.bind_eq_some_iff.1 taken
      split at taken
      · cases taken
        exact .join
      · cases taken
    · cases taken
  | writer i result =>
    obtain ⟨m, there, taken⟩ := Option.bind_eq_some_iff.1 taken
    exact writerStep_cases there taken
  | control i env partly =>
    obtain ⟨m, there, taken⟩ := Option.bind_eq_some_iff.1 taken
    obtain ⟨c, spawned, taken⟩ := Option.bind_eq_some_iff.1 taken
    exact controlStep_cases there spawned taken

end

/-! ## The nonces on their way to the writers -/

/-- The nonce that a control thread is about to store. -/
def pendingNonce : Option ControlThread → Option Nonce
  | some ⟨.storing myNonce _, _⟩ => some myNonce
  | _ => none

/-- A session as a party of the handoff. -/
def party (m : Session) : SharedSlot.Party Nonce := ⟨m.sentNonces, pendingNonce m.control, m.writerNonce⟩

/-- The handoff of the nonces. -/
def handoff (s : ServeMulti) : SharedSlot.State Nonce where
  parties i := match s.sessions[i]? with
    | some m => party m
    | none => .new
  slot := s.nonces.map Prod.fst
  storedBy := s.storedBy
  generated := s.generated

/-- What an act means for the handoff. -/
def handoffEvent (s : ServeMulti) : ServeAct → SharedSlot.Event Nonce
  | .writer i _ =>
    match s.sessions[i]?.map Session.writer, s.nonces with
    | some (.waiting _), some (myNonce, _) => .take i myNonce
    | _, _ => .nothing
  | .control i env _ =>
    match (s.sessions[i]?.bind Session.control).map ControlThread.point, env.nonceSent with
    | some (.replying _), .ok () => .issue i env.myNonce
    | some (.replying _), .error _ => .waste env.myNonce
    | some (.storing myNonce _), _ => .store i myNonce
    | _, _ => .nothing
  | _ => .nothing

theorem handoff_parties {s : ServeMulti} {i : Nat} {m : Session} (there : s.sessions[i]? = some m) :
    (handoff s).parties i = party m := by
  simp only [handoff, there]

/-- What a changed session and a changed slot make of the handoff. -/
theorem handoff_set {s s' : ServeMulti} {i : Nat} {m m' : Session} (there : s.sessions[i]? = some m)
    (set : s'.sessions = s.sessions.set i m') :
    handoff s' = { (handoff s).update i (party m') with
      slot := s'.nonces.map Prod.fst, storedBy := s'.storedBy, generated := s'.generated } := by
  have bound := (List.getElem?_eq_some_iff.1 there).1
  simp only [handoff, SharedSlot.State.update, SharedSlot.State.mk.injEq, and_true]
  funext j
  by_cases here : j = i
  · subst here
    simp [set, List.getElem?_set_self bound]
  · simp [set, List.getElem?_set_ne (Ne.symm here), Function.update_of_ne here]

/-- A step of the handoff, from what it makes of the changed session and the slot. -/
theorem handoff_step {s s' : ServeMulti} {i : Nat} {m m' : Session} {e : SharedSlot.Event Nonce}
    {p : SharedSlot.Party Nonce} (there : s.sessions[i]? = some m) (set : s'.sessions = s.sessions.set i m')
    (after : party m' = p) (moved : SharedSlot.Step (handoff s) e { (handoff s).update i p with
      slot := s'.nonces.map Prod.fst, storedBy := s'.storedBy, generated := s'.generated }) :
    SharedSlot.Step (handoff s) e (handoff s') := by
  rw [handoff_set there set, after]
  exact moved

/-- A session that changes nothing of its nonces changes nothing of the handoff. -/
theorem handoff_nothing {s s' : ServeMulti} {i : Nat} {m m' : Session} (there : s.sessions[i]? = some m)
    (set : s'.sessions = s.sessions.set i m') (same : party m' = party m)
    (slot : (s'.nonces, s'.storedBy, s'.generated) = (s.nonces, s.storedBy, s.generated)) :
    SharedSlot.Step (handoff s) .nothing (handoff s') := by
  obtain ⟨nonces, slot⟩ := Prod.mk.inj slot
  obtain ⟨storedBy, generated⟩ := Prod.mk.inj slot
  refine handoff_step there set same ?_
  rw [← handoff_parties there, SharedSlot.State.update, Function.update_eq_self, nonces, storedBy, generated]
  exact .nothing

theorem pendingNonce_of_point {control : Option ControlThread} {c : ControlThread} (spawned : control = some c)
    (other : ∀ myNonce peerNonce, c.point ≠ .storing myNonce peerNonce) : pendingNonce control = none := by
  obtain ⟨point, thread⟩ := c
  rw [spawned]
  cases point with
  | storing myNonce peerNonce => exact absurd rfl (other myNonce peerNonce)
  | _ => rfl

theorem handoff_append {s : ServeMulti} {m : Session} (fresh : party m = .new) (main : MainPoint) :
    handoff { s with main := main, sessions := s.sessions ++ [m] } = handoff s := by
  simp only [handoff, SharedSlot.State.mk.injEq, and_true]
  funext j
  rcases Nat.lt_trichotomy j s.sessions.length with old | new | beyond
  · rw [List.getElem?_append_left old]
  · subst new
    simp [fresh]
  · rw [List.getElem?_eq_none (by simp; omega), List.getElem?_eq_none (by omega)]

section
variable [ChaCha]

/-- Outside of the exchange, a step of the control thread leaves no nonce to be stored. -/
theorem pendingNonce_step {key : Key} {c : ControlThread} {env : Env}
    (other : ∀ peerNonce, c.point ≠ .replying peerNonce) : pendingNonce (some (c.step (some key) env)) = none := by
  obtain ⟨point, thread⟩ := c
  cases point with
  | reading =>
    simp only [ControlThread.step, ControlThread.readCommand]
    split
    · split
      · rfl
      · split
        · rfl
        · split <;> rfl
    · split <;> rfl
  | acking => rfl
  | exchanging =>
    simp only [ControlThread.step]
    split <;> rfl
  | replying peerNonce => exact absurd rfl (other peerNonce)
  | storing myNonce peerNonce => rfl
  | ended => rfl

/-- **The server hands its nonces over as the parties of a shared slot do.** -/
theorem step_handoff {key : Key} {s s' : ServeMulti} {a : ServeAct} (taken : s.step (some key) a = some s') :
    SharedSlot.Step (handoff s) (handoffEvent s a) (handoff s') := by
  cases step_cases taken with
  | send | setExit | magicInterrupted | magicFailed | join => exact .nothing
  | accept inbound =>
    rw [handoff_append rfl]
    exact .nothing
  | magicWrote n there => exact handoff_nothing there rfl rfl rfl
  | spawnControl now again there sent unspawned =>
    refine handoff_nothing there rfl ?_ rfl
    rw [party, party, unspawned]
    rfl
  | looked result there waiting empty =>
    simp only [handoffEvent, there, waiting, empty, Option.map_some]
    exact .nothing
  | @took i m loop myNonce peerNonce result there waiting free found =>
    have moved := SharedSlot.Step.take (s := handoff s) i myNonce (by simp [handoff, found])
    rw [handoff_parties there] at moved
    simp only [handoffEvent, there, waiting, found, Option.map_some]
    exact handoff_step there rfl rfl moved
  | wrote result there running on next =>
    simp only [handoffEvent, there, running, Option.map_some]
    exact handoff_nothing there rfl rfl rfl
  | @replied i m c peerNonce env' env partly now there spawned point fresh =>
    subst now
    simp only [handoffEvent, there, spawned, point, Option.bind_some, Option.map_some]
    cases sent : env.nonceSent with
    | ok =>
      have moved := SharedSlot.Step.issue (s := handoff s) i env.myNonce fresh
      rw [handoff_parties there] at moved
      refine handoff_step there rfl ?_ moved
      simp only [party, ControlThread.step, point, pendingNonce]
    | error e =>
      have idle : pendingNonce m.control = none := pendingNonce_of_point spawned (by simp [point])
      have moved : SharedSlot.Step (handoff s) (.waste env.myNonce)
          { (handoff s).update i (party m) with generated := s.generated ++ [env.myNonce] } := by
        rw [← handoff_parties there, SharedSlot.State.update, Function.update_eq_self]
        exact .waste env.myNonce
      refine handoff_step there rfl ?_ moved
      simp only [party, ControlThread.step, point, idle]
      rfl
  | @stored i m c myNonce peerNonce env' env partly now there spawned point free =>
    have pending : pendingNonce m.control = some myNonce := by
      obtain ⟨_, thread⟩ := c
      cases point
      rw [spawned]
      rfl
    have moved := SharedSlot.Step.store (s := handoff s) i myNonce (by rw [handoff_parties there, party, pending])
    rw [handoff_parties there] at moved
    simp only [handoffEvent, there, spawned, point, Option.bind_some, Option.map_some]
    refine handoff_step there rfl ?_ moved
    simp only [party, ControlThread.step, point, pendingNonce]
  | @controlled i m c env' env partly now there spawned point =>
    have event : handoffEvent s (.control i env partly) = .nothing := by
      simp only [handoffEvent, there, spawned, Option.bind_some, Option.map_some]
      rcases point with reading | acking | exchanging
      · rw [reading]
      · rw [acking]
      · rw [exchanging]
    have before : pendingNonce m.control = none := by
      refine pendingNonce_of_point spawned fun myNonce peerNonce storing => ?_
      simp [storing] at point
    have after : pendingNonce (some (c.step (some key) env')) = none := by
      refine pendingNonce_step fun peerNonce replying => ?_
      simp [replying] at point
    rw [event]
    refine handoff_nothing there rfl ?_ rfl
    rw [party, party, before, after]

/-- No two writers were made with the same nonce, and each has a nonce that its own session's
exchange sent to the peer. -/
structure NoncesOwn (s : ServeMulti) : Prop where
  distinct : ∀ (i j : Nat) (m m' : Session) (n : Nonce), s.sessions[i]? = some m → s.sessions[j]? = some m' →
    m.writerNonce = some n → m'.writerNonce = some n → i = j
  own : ∀ (i : Nat) (m : Session) (n : Nonce), s.sessions[i]? = some m → m.writerNonce = some n → n ∈ m.sentNonces

/-- A writer that finds nonces in the shared slot finds those of its own session: the last ones
were stored by the session's control thread. -/
def TakesOwnNonce (s : ServeMulti) : ServeAct → Prop
  | .writer i _ => ∀ loop, s.sessions[i]?.map Session.writer = some (.waiting loop) → s.nonces ≠ none →
      s.storedBy = some i
  | _ => True

omit [ChaCha] in
theorem noncesOwn_iff (s : ServeMulti) : NoncesOwn s ↔ SharedSlot.Own (handoff s) := by
  -- a party that has taken something is a session
  have session : ∀ {i n}, ((handoff s).parties i).taken = some n → ∃ m, s.sessions[i]? = some m ∧ m.writerNonce = some n := by
    intro i n used
    cases there : s.sessions[i]? with
    | none => simp [handoff, there, SharedSlot.Party.new] at used
    | some m => exact ⟨m, rfl, by rwa [handoff_parties there] at used⟩
  constructor
  · intro h
    refine ⟨fun i n used => ?_, fun i j n used used' => ?_⟩
    · obtain ⟨m, there, nonce⟩ := session used
      rw [handoff_parties there]
      exact h.own i m n there nonce
    · obtain ⟨m, there, nonce⟩ := session used
      obtain ⟨m', there', nonce'⟩ := session used'
      exact h.distinct i j m m' n there there' nonce nonce'
  · intro h
    refine ⟨fun i j m m' n there there' nonce nonce' => h.distinct i j n ?_ ?_, fun i m n there nonce => ?_⟩
    · rwa [handoff_parties there]
    · rwa [handoff_parties there']
    · have issued := h.own i n (by rwa [handoff_parties there])
      rwa [handoff_parties there] at issued

omit [ChaCha] in
theorem takesOwnNonce_iff (s : ServeMulti) (a : ServeAct) :
    SharedSlot.Allowed (handoff s) (handoffEvent s a) ↔ TakesOwnNonce s a := by
  cases a with
  | writer i result =>
    simp only [handoffEvent, TakesOwnNonce]
    split
    · rename_i loop myNonce peerNonce writer nonces
      simp only [SharedSlot.Allowed, nonces, writer]
      exact ⟨fun own _ _ _ => own, fun own => own loop rfl (by simp)⟩
    · rename_i other
      simp only [SharedSlot.Allowed, true_iff]
      intro loop waiting found
      cases nonces : s.nonces with
      | none => exact absurd nonces found
      | some pair => exact (other loop pair.1 pair.2 waiting nonces).elim
  | control i env partly =>
    simp only [handoffEvent, TakesOwnNonce, iff_true]
    split <;> trivial
  | _ => exact Iff.rfl

/-- **Keystream reuse.** With a key, in every run of any number of sessions and with any
interleaving of their threads, every writer has always been made with a nonce of its own
session, and no two with the same, exactly when no writer takes nonces out of the shared slot
that another session stored there. -/
theorem nonces_own_iff (key : Key) (capacity : Nat) (acts : List ServeAct) :
    Always (step (some key)) NoncesOwn (start capacity) acts ↔
      Along (step (some key)) TakesOwnNonce (start capacity) acts := by
  have nobody : ∀ i, (handoff (start capacity)).parties i = .new := by
    intro i
    simp [handoff, start]
  refine always_iff_along (I := fun s => SharedSlot.Inv (handoff s)) ?_ ?_ ?_ ?_
  · intro s a s' inv taken
    exact inv.step (step_handoff taken)
  · intro s a s' inv own taken
    rw [noncesOwn_iff, ← takesOwnNonce_iff]
    exact SharedSlot.own_step_iff inv ((noncesOwn_iff s).1 own) (step_handoff taken)
  · refine ⟨fun i t issued => ?_, fun i j t issued => ?_, fun i t pending => ?_, fun t slot => ?_⟩
    · simp [nobody, SharedSlot.Party.new] at issued
    · simp [nobody, SharedSlot.Party.new] at issued
    · simp [nobody, SharedSlot.Party.new] at pending
    · simp [handoff, start] at slot
  · refine ⟨fun i j m m' n there => ?_, fun i m n there => ?_⟩ <;> simp [start] at there

end

/-- A proxy connects, shakes hands and leaves; its writer sends a buffer and finds the socket
closed. A second client connects and never shakes hands, and its writer finds the old nonces. -/
def reusedNonceActs : List ServeAct :=
  let client : List Arrival := [.byte 0xF0, .byte 0x50, .byte 0x52, .byte 0x4F, .byte 0x58] ++ List.replicate 12 (.byte 7)
  let env : Env := MasterControl.calmEnv 0
  [.accept client, .magic (.ok 12), .spawnControl 0 0, .control 0 env 0, .control 0 env 0, .control 0 env 0,
    .control 0 env 0, .control 0 env 0, .writer 0 (.ok 0), .send [1, 2], .writer 0 (.ok 0), .writer 0 (.ok 0),
    .writer 0 (.ok 2), .control 0 env 0, .join, .send [3, 4], .writer 0 (.ok 0), .writer 0 (.ok 0), .writer 0 (.ok 0),
    .writer 0 (.error .brokenPipe), .accept [], .magic (.ok 12), .writer 1 (.ok 0)]

/-- Both sessions' writers have the nonce that was sent to the first client. -/
theorem stale_nonce_reused :
    letI := zeroChaCha
    ∃ s, run (step (some zeroKey)) (start defaultBroadcastCapacity) reusedNonceActs = some s ∧ ¬NoncesOwn s := by
  let _ := zeroChaCha
  have sessions : (run (step (some zeroKey)) (start defaultBroadcastCapacity) reusedNonceActs).map
      (fun s => s.sessions.map fun m => (m.writerNonce, m.sentNonces)) =
        some [(some zeroNonce, [zeroNonce]), (some zeroNonce, [])] := by decide
  obtain ⟨s, reached, facts⟩ := Option.map_eq_some_iff.1 sessions
  refine ⟨s, reached, fun h => ?_⟩
  have second := congrArg (·[1]?) facts
  simp only [List.getElem?_map, Option.map_eq_some_iff, List.getElem?_cons_succ, List.getElem?_cons_zero] at second
  obtain ⟨m, there, shape⟩ := second
  obtain ⟨used, sent⟩ := Prod.mk.inj shape
  have issued := h.own 1 m zeroNonce there used
  rw [sent] at issued
  cases issued

end ServeMulti

end RtlTcp
