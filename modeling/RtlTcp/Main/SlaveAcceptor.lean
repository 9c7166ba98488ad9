import RtlTcp.Lib.Transition
import RtlTcp.Control
import RtlTcp.Stream
import RtlTcp.Main.AcceptLoop

/-!
# `spawn_slave_acceptor`: counting clients and keeping their sockets

The acceptor counts the slaves it has let in and stores a clone of every socket in `all_streams`,
as the master loop of serve mode does with its masters. A slave's writer loop runs on a detached
thread that reports to nobody: the count never goes down and no socket is ever taken out.
`accounting_iff` says that the two are exact as long as nobody leaves. A clone that fails with the lock of
`all_streams` held poisons it for the master loop; `lock_sound_iff` says when that never happens.
-/

namespace RtlTcp
set_option autoImplicit false
open ByteIo Transition Broadcast

inductive Role where
  | master
  | slave
  deriving DecidableEq, Repr

/-- A client that was let in: its writer loop, and whether its end of the connection is open. -/
structure AcceptedClient where
  role : Role
  loop : WriteClientLoop
  connected : Bool

/-- A slave whose writer loop still runs. -/
def AcceptedClient.isLiveSlave (c : AcceptedClient) : Bool := c.role == .slave && c.loop.point != .stopped

inductive AcceptorPoint where
  | loopHead
  | accepting
  | ended
  deriving DecidableEq, Repr

/-- How `listener.accept()` ends, and after it the two calls of `try_clone`. -/
inductive AcceptResult where
  | connection (ip : String) (storedClone writerClone : Bool)
  | wouldBlock
  | error
  deriving DecidableEq, Repr

/-- The acceptor's variables and what it shares. `allStreams` names the clients whose sockets are
stored; `storesMasters` is the difference between serve mode and proxy mode. -/
structure SlaveAcceptor where
  whitelist : List String
  maxSlaves : Nat
  storesMasters : Bool
  tx : Channel (List UInt8)
  shouldExit : Bool
  point : AcceptorPoint
  count : Nat
  clients : List AcceptedClient
  allStreams : List Nat
  poisoned : Bool

/-- A step of the acceptor, a new master, a step of a client's writer loop, the peer of a client
that closes its connection, a buffer of the source, or the exit flag. -/
inductive AcceptorAct where
  | check
  | accept (result : AcceptResult)
  | masterConnects
  | client (i : Nat) (result : Except ErrorKind Nat)
  | disconnect (i : Nat)
  | send (buf : List UInt8)
  | setExit

namespace SlaveAcceptor

def start (whitelist : List String) (maxSlaves : Nat) (storesMasters : Bool) : SlaveAcceptor where
  whitelist := whitelist
  maxSlaves := maxSlaves
  storesMasters := storesMasters
  tx := newBroadcast defaultBroadcastCapacity
  shouldExit := false
  point := .loopHead
  count := 0
  clients := []
  allStreams := []
  poisoned := false

/-- A connection that was accepted. A clone that fails panics: the first with the lock held, the
second with a socket in `all_streams` that no writer loop belongs to. -/
def connection [IpLib] (s : SlaveAcceptor) (ip : String) (storedClone writerClone : Bool) : SlaveAcceptor :=
  match checkWhitelist ip s.whitelist with
  | .error _ => { s with point := .loopHead }
  | .ok () =>
    if s.poisoned then { s with point := .ended }
    else if storedClone then
      let s := { s with allStreams := s.allStreams ++ [s.clients.length] }
      if writerClone then
        { s with
          point := .loopHead
          clients := s.clients ++ [⟨.slave, .start s.tx, true⟩]
          count := s.count + 1 }
      else
        { s with
          point := .ended
          clients := s.clients ++ [⟨.slave, { WriteClientLoop.start s.tx with point := .stopped }, true⟩] }
    else { s with point := .ended, poisoned := true }

def step [IpLib] (s : SlaveAcceptor) : AcceptorAct → Option SlaveAcceptor
  | .check =>
    if s.point = .loopHead then
      some { s with
        point := if s.shouldExit then .ended else if s.count ≥ s.maxSlaves then .loopHead else .accepting }
    else none
  | .accept result =>
    if s.point = .accepting then
      match result with
      | .connection ip storedClone writerClone => some (s.connection ip storedClone writerClone)
      | .wouldBlock | .error => some { s with point := .loopHead }
    else none
  | .masterConnects =>
    -- a poisoned lock ends the process
    if s.storesMasters && s.poisoned then none
    else
      some { s with
        clients := s.clients ++ [⟨.master, .start s.tx, true⟩]
        allStreams := if s.storesMasters then s.allStreams ++ [s.clients.length] else s.allStreams }
  | .client i result =>
    match s.clients[i]? with
    | some c => some { s with clients := s.clients.set i { c with loop := c.loop.step s.tx s.shouldExit result } }
    | none => none
  | .disconnect i =>
    match s.clients[i]? with
    | some c => some { s with clients := s.clients.set i { c with connected := false } }
    | none => none
  | .send buf => some { s with tx := s.tx.send buf }
  | .setExit => some { s with shouldExit := true }

/-- The slaves whose writer loops still run. -/
def liveSlaves (s : SlaveAcceptor) : Nat := s.clients.countP AcceptedClient.isLiveSlave

/-- As long as the acceptor runs, its count is the number of live slaves; the sockets in
`all_streams` are those of clients that are still connected. -/
structure Exact (s : SlaveAcceptor) : Prop where
  count : s.point ≠ .ended → s.count = s.liveSlaves
  streams : ∀ i ∈ s.allStreams, ∃ c, s.clients[i]? = some c ∧ c.connected = true

/-- The next step of a loop is its last: the exit flag is set, or the sender is gone, or the write
fails. -/
def Stops (tx : Channel (List UInt8)) (shouldExit : Bool) (w : WriteClientLoop) (result : Except ErrorKind Nat) : Prop :=
  match w.point with
  | .checkExit => shouldExit = true
  | .tryRecv => (w.rx.tryRecv tx).1 = .closed
  | .writing [] => False
  | .writing (_ :: _) => result = .ok 0 ∨ ∃ e, result = .error e ∧ e ≠ .interrupted
  | .stopped => True

/-- While the acceptor runs, no live slave's writer loop stops; and no client whose socket is
stored disconnects. -/
def NobodyLeaves (s : SlaveAcceptor) : AcceptorAct → Prop
  | .client i result => s.point ≠ .ended → ∀ c ∈ s.clients[i]?, c.isLiveSlave = true →
      ¬Stops s.tx s.shouldExit c.loop result
  | .disconnect i => i ∉ s.allStreams
  | _ => True

theorem stops_iff (tx : Channel (List UInt8)) (shouldExit : Bool) (w : WriteClientLoop) (result : Except ErrorKind Nat) :
    (w.step tx shouldExit result).point = .stopped ↔ Stops tx shouldExit w result := by
  obtain ⟨rx, point, written⟩ := w
  cases point with
  | checkExit => cases shouldExit <;> simp [WriteClientLoop.step, Stops]
  | tryRecv =>
    simp only [WriteClientLoop.step, Stops]
    split <;> simp_all
  | writing rest =>
    cases rest with
    | nil => simp [WriteClientLoop.step, Stops]
    | cons b bs =>
      simp only [WriteClientLoop.step, Stops]
      split
      · simp
      · simp
      · rename_i e
        by_cases again : e = .interrupted <;> simp [again]
  | stopped => simp [WriteClientLoop.step, Stops]

/-- A step of a writer loop takes a live slave away exactly when it is the loop's last. -/
theorem isLiveSlave_step (tx : Channel (List UInt8)) (shouldExit : Bool) (c : AcceptedClient)
    (result : Except ErrorKind Nat) :
    AcceptedClient.isLiveSlave { c with loop := c.loop.step tx shouldExit result } = true ↔
      c.isLiveSlave = true ∧ ¬Stops tx shouldExit c.loop result := by
  have last := stops_iff tx shouldExit c.loop result
  have stays : c.loop.point = .stopped → Stops tx shouldExit c.loop result := by
    intro stopped
    simp only [Stops, stopped]
  simp only [AcceptedClient.isLiveSlave, Bool.and_eq_true, bne_iff_ne, ne_eq, last]
  tauto

theorem liveSlaves_set {s : SlaveAcceptor} {i : Nat} {c : AcceptedClient} (there : s.clients[i]? = some c)
    (d : AcceptedClient) :
    liveSlaves { s with clients := s.clients.set i d } + (if c.isLiveSlave then 1 else 0) =
      s.liveSlaves + (if d.isLiveSlave then 1 else 0) := by
  obtain ⟨inside, here⟩ := List.getElem?_eq_some_iff.1 there
  have positive : c.isLiveSlave = true → 0 < s.liveSlaves := fun live =>
    List.countP_pos_iff.2 ⟨c, List.mem_of_getElem? there, live⟩
  simp only [liveSlaves] at positive ⊢
  rw [List.countP_set inside, here]
  cases live : c.isLiveSlave with
  | false => simp
  | true =>
    have := positive live
    simp only [if_true]
    omega

/-- A client whose loop moved is connected as before. -/
theorem streams_set {s : SlaveAcceptor} {i : Nat} {c d : AcceptedClient} (there : s.clients[i]? = some c)
    (same : d.connected = c.connected) (j : Nat) :
    (∃ c', (s.clients.set i d)[j]? = some c' ∧ c'.connected = true) ↔
      ∃ c', s.clients[j]? = some c' ∧ c'.connected = true := by
  obtain ⟨inside, -⟩ := List.getElem?_eq_some_iff.1 there
  by_cases here : i = j
  · subst here
    rw [List.getElem?_set_self inside, there]
    simp [same]
  · rw [List.getElem?_set_ne here]

/-- A new client does not touch the clients whose sockets are stored, and its own may be added. -/
theorem streams_append {clients : List AcceptedClient} {allStreams : List Nat} {d : AcceptedClient}
    (fresh : d.connected = true)
    (streams : ∀ i ∈ allStreams, ∃ c, clients[i]? = some c ∧ c.connected = true) :
    ∀ i ∈ allStreams ++ [clients.length], ∃ c, (clients ++ [d])[i]? = some c ∧ c.connected = true := by
  intro i member
  rcases List.mem_append.1 member with old | new
  · obtain ⟨c, there, connected⟩ := streams i old
    have inside := (List.getElem?_eq_some_iff.1 there).1
    exact ⟨c, by rw [List.getElem?_append_left inside, there], connected⟩
  · rw [List.mem_singleton.1 new]
    exact ⟨d, by simp, fresh⟩

/-- A step of a client's writer loop keeps the accounts exactly when it is not a live slave's last. -/
theorem exact_client {s : SlaveAcceptor} (before : s.Exact) {i : Nat} {c : AcceptedClient}
    (there : s.clients[i]? = some c) (result : Except ErrorKind Nat) :
    Exact { s with clients := s.clients.set i { c with loop := c.loop.step s.tx s.shouldExit result } } ↔
      s.NobodyLeaves (.client i result) := by
  have moved := isLiveSlave_step s.tx s.shouldExit c result
  have same : (⟨c.role, c.loop.step s.tx s.shouldExit result, c.connected⟩ : AcceptedClient).connected = c.connected := rfl
  generalize (⟨c.role, c.loop.step s.tx s.shouldExit result, c.connected⟩ : AcceptedClient) = d at moved same ⊢
  have balance := liveSlaves_set there d
  constructor
  · intro after running c' here live stops
    rw [Option.mem_def, there, Option.some.injEq] at here
    subst here
    have gone : ¬d.isLiveSlave = true := fun still => (moved.1 still).2 stops
    rw [if_pos live, if_neg gone] at balance
    have old : s.count = s.liveSlaves := before.count running
    have new : s.count = liveSlaves { s with clients := s.clients.set i d } := after.count running
    omega
  · intro stays
    refine ⟨fun running => ?_, fun j member => ?_⟩
    · have kept : d.isLiveSlave = true ↔ c.isLiveSlave = true :=
        ⟨fun live => (moved.1 live).1, fun live => moved.2 ⟨live, stays running c there live⟩⟩
      have old : s.count = s.liveSlaves := before.count running
      simp only [kept] at balance
      exact old.trans (Nat.add_right_cancel balance).symm
    · exact (streams_set there same j).2 (before.streams j member)

/-- A disconnect keeps the accounts exactly when the client's socket is not stored. -/
theorem exact_disconnect {s : SlaveAcceptor} (before : s.Exact) {i : Nat} {c : AcceptedClient}
    (there : s.clients[i]? = some c) :
    Exact { s with clients := s.clients.set i { c with connected := false } } ↔ s.NobodyLeaves (.disconnect i) := by
  obtain ⟨inside, -⟩ := List.getElem?_eq_some_iff.1 there
  have balance := liveSlaves_set there { c with connected := false }
  constructor
  · intro after stored
    obtain ⟨c', here, connected⟩ := after.streams i stored
    rw [List.getElem?_set_self inside] at here
    cases here
    cases connected
  · intro unstored
    refine ⟨fun running => ?_, fun j member => ?_⟩
    · have old : s.count = s.liveSlaves := before.count running
      exact old.trans (Nat.add_right_cancel balance).symm
    · obtain ⟨c', here, connected⟩ := before.streams j member
      have other : i ≠ j := fun same => unstored (same ▸ member)
      exact ⟨c', by rw [List.getElem?_set_ne other, here], connected⟩

section
variable [IpLib]

theorem exact_connection {s : SlaveAcceptor} (before : s.Exact) (running : s.point ≠ .ended) (ip : String)
    (storedClone writerClone : Bool) : (s.connection ip storedClone writerClone).Exact := by
  have exact_count := before.count running
  simp only [connection]
  split
  · exact ⟨fun _ => exact_count, before.streams⟩
  · cases s.poisoned with
    | true => exact ⟨fun still => absurd rfl still, before.streams⟩
    | false =>
      cases storedClone with
      | false => exact ⟨fun still => absurd rfl still, before.streams⟩
      | true =>
        cases writerClone with
        | false => exact ⟨fun still => absurd rfl still, streams_append rfl before.streams⟩
        | true =>
          refine ⟨fun _ => ?_, streams_append rfl before.streams⟩
          have live : AcceptedClient.isLiveSlave ⟨.slave, .start s.tx, true⟩ = true := rfl
          show s.count + 1 = (s.clients ++ [_]).countP AcceptedClient.isLiveSlave
          rw [List.countP_append, List.countP_singleton, live, if_pos rfl, exact_count, liveSlaves]

/-- A step keeps the accounts exactly when nobody leaves in it. -/
theorem exact_step {s t : SlaveAcceptor} {a : AcceptorAct} (before : s.Exact) (taken : s.step a = some t) :
    t.Exact ↔ s.NobodyLeaves a := by
  cases a with
  | check =>
    simp only [step, Option.ite_none_right_eq_some, Option.some.injEq] at taken
    obtain ⟨head, rfl⟩ := taken
    exact iff_of_true ⟨fun _ => before.count (by simp [head]), before.streams⟩ trivial
  | accept result =>
    simp only [step] at taken
    split at taken
    · rename_i accepting
      have running : s.point ≠ .ended := by simp [accepting]
      refine iff_of_true ?_ trivial
      cases result with
      | connection ip storedClone writerClone =>
        cases taken
        exact exact_connection before running ip storedClone writerClone
      | wouldBlock => cases taken; exact ⟨fun _ => before.count running, before.streams⟩
      | error => cases taken; exact ⟨fun _ => before.count running, before.streams⟩
    · cases taken
  | masterConnects =>
    simp only [step] at taken
    split at taken
    · cases taken
    · cases taken
      have streams := streams_append (d := ⟨.master, .start s.tx, true⟩) rfl before.streams
      refine iff_of_true ⟨fun running => ?_, fun i member => ?_⟩ trivial
      · show s.count = (s.clients ++ [_]).countP AcceptedClient.isLiveSlave
        rw [List.countP_append, before.count running]
        rfl
      · dsimp only at member
        split at member
        · exact streams i member
        · exact streams i (List.mem_append_left _ member)
  | client i result =>
    simp only [step] at taken
    split at taken
    · rename_i c there
      cases taken
      exact exact_client before there result
    · cases taken
  | disconnect i =>
    simp only [step] at taken
    split at taken
    · rename_i c there
      cases taken
      exact exact_disconnect before there
    · cases taken
  | send buf => cases taken; exact iff_of_true ⟨before.count, before.streams⟩ trivial
  | setExit => cases taken; exact iff_of_true ⟨before.count, before.streams⟩ trivial

/-- The count never falls behind the live slaves and never passes the limit. -/
structure Bounded (s : SlaveAcceptor) : Prop where
  live : s.liveSlaves ≤ s.count
  limit : s.count ≤ s.maxSlaves
  room : s.point = .accepting → s.count < s.maxSlaves

theorem bounded_connection {s : SlaveAcceptor} (before : s.Bounded) (accepting : s.point = .accepting) (ip : String)
    (storedClone writerClone : Bool) : (s.connection ip storedClone writerClone).Bounded := by
  obtain ⟨live, limit, room⟩ := before
  have free := room accepting
  simp only [connection]
  split
  · exact ⟨live, limit, by simp⟩
  · cases s.poisoned with
    | true => exact ⟨live, limit, by simp⟩
    | false =>
      cases storedClone with
      | false => exact ⟨live, limit, by simp⟩
      | true =>
        cases writerClone with
        | false =>
          refine ⟨?_, limit, by simp⟩
          show (s.clients ++ [_]).countP AcceptedClient.isLiveSlave ≤ s.count
          rw [List.countP_append]
          exact live
        | true =>
          refine ⟨?_, free, by simp⟩
          show (s.clients ++ [_]).countP AcceptedClient.isLiveSlave ≤ s.count + 1
          rw [List.countP_append]
          exact Nat.add_le_add_right live 1

theorem Bounded.step {s t : SlaveAcceptor} {a : AcceptorAct} (before : s.Bounded) (taken : s.step a = some t) :
    t.Bounded := by
  have ⟨live, limit, room⟩ := before
  cases a with
  | check =>
    simp only [SlaveAcceptor.step, Option.ite_none_right_eq_some, Option.some.injEq] at taken
    obtain ⟨-, rfl⟩ := taken
    refine ⟨live, limit, fun accepting => ?_⟩
    by_contra full
    have above : s.count ≥ s.maxSlaves := Nat.le_of_not_lt full
    simp only [above, if_true] at accepting
    split at accepting <;> cases accepting
  | accept result =>
    simp only [SlaveAcceptor.step] at taken
    split at taken
    · rename_i accepting
      cases result with
      | connection ip storedClone writerClone =>
        cases taken
        exact bounded_connection before accepting ip storedClone writerClone
      | wouldBlock => cases taken; exact ⟨live, limit, by simp⟩
      | error => cases taken; exact ⟨live, limit, by simp⟩
    · cases taken
  | masterConnects =>
    simp only [SlaveAcceptor.step] at taken
    split at taken
    · cases taken
    · cases taken
      refine ⟨?_, limit, room⟩
      show (s.clients ++ [_]).countP AcceptedClient.isLiveSlave ≤ s.count
      rw [List.countP_append]
      exact live
  | client i result =>
    simp only [SlaveAcceptor.step] at taken
    split at taken
    · rename_i c there
      cases taken
      have moved := isLiveSlave_step s.tx s.shouldExit c result
      have balance := liveSlaves_set there ⟨c.role, c.loop.step s.tx s.shouldExit result, c.connected⟩
      refine ⟨Nat.le_trans ?_ live, limit, room⟩
      split at balance
      · split at balance <;> omega
      · rename_i dead
        rw [if_neg fun alive => dead (moved.1 alive).1] at balance
        omega
    · cases taken
  | disconnect i =>
    simp only [SlaveAcceptor.step] at taken
    split at taken
    · rename_i c there
      cases taken
      have balance := liveSlaves_set there { c with connected := false }
      exact ⟨(Nat.add_right_cancel balance).symm ▸ live, limit, room⟩
    · cases taken
  | send buf => cases taken; exact ⟨live, limit, room⟩
  | setExit => cases taken; exact ⟨live, limit, room⟩

/-- The accounts are exact, so the limit is kept and a free place is offered. -/
structure Accounted (s : SlaveAcceptor) : Prop extends Exact s where
  limit : s.liveSlaves ≤ s.maxSlaves
  admits : s.point = .loopHead → s.shouldExit = false → s.liveSlaves < s.maxSlaves →
    ∃ t, s.step .check = some t ∧ t.point = .accepting

theorem accounted_iff {s : SlaveAcceptor} (bounded : s.Bounded) : s.Accounted ↔ s.Exact := by
  refine ⟨fun accounted => accounted.toExact, fun exact_ => ⟨exact_, Nat.le_trans bounded.live bounded.limit, ?_⟩⟩
  intro head running free
  have same : s.count = s.liveSlaves := exact_.count (by simp [head])
  have below : ¬s.count ≥ s.maxSlaves := by omega
  simp only [step, head, running, below, if_true, Bool.false_eq_true, if_false]
  exact ⟨_, rfl, rfl⟩

/-- **Client accounting.** For every whitelist, every limit and both modes, and for every history of
connections, refusals, disconnects and write failures: in every state the count is the number
of slaves whose writer loops run, so that no more than the limit run and a free place is offered,
and `all_streams` holds only sockets of connected clients, if and only if no slave's writer loop
ever stops while the acceptor runs and no client whose socket is stored ever disconnects. -/
theorem accounting_iff (whitelist : List String) (maxSlaves : Nat) (storesMasters : Bool) (acts : List AcceptorAct) :
    Always step Accounted (start whitelist maxSlaves storesMasters) acts ↔
      Along step NobodyLeaves (start whitelist maxSlaves storesMasters) acts := by
  have bounded : (start whitelist maxSlaves storesMasters).Bounded :=
    ⟨Nat.le_refl _, Nat.zero_le _, fun accepting => by cases accepting⟩
  refine always_iff_along (I := Bounded) (fun _ _ _ => Bounded.step) (fun s a t inv before taken => ?_) bounded
    ((accounted_iff bounded).2 ⟨fun _ => rfl, fun i member => by cases member⟩)
  rw [accounted_iff (inv.step taken)]
  exact exact_step ((accounted_iff inv).1 before) taken

/-- An allowed slave whose clone for `all_streams` cannot be made: the thread panics with the lock held. -/
def Poisons (s : SlaveAcceptor) : AcceptorAct → Prop
  | .accept (.connection ip storedClone _) => storedClone = false ∧ checkWhitelist ip s.whitelist = .ok ()
  | _ => False

theorem poisoned_step {s t : SlaveAcceptor} {a : AcceptorAct} (taken : s.step a = some t) :
    t.poisoned = true ↔ s.poisoned = true ∨ s.Poisons a := by
  cases a with
  | accept result =>
    simp only [step] at taken
    split at taken
    · cases result with
      | connection ip storedClone writerClone =>
        cases taken
        unfold connection
        cases checked : checkWhitelist ip s.whitelist with
        | error e => simp [Poisons, checked]
        | ok u =>
          cases poisoned : s.poisoned with
          | true => simp
          | false => cases storedClone <;> cases writerClone <;> simp [Poisons, checked]
      | wouldBlock => cases taken; simp [Poisons]
      | error => cases taken; simp [Poisons]
    · cases taken
  | send buf => cases taken; simp [Poisons]
  | setExit => cases taken; simp [Poisons]
  | check | masterConnects | client | disconnect =>
    simp only [step] at taken
    split at taken <;> cases taken
    simp [Poisons]

/-- **The lock that the master loop of serve mode unwraps** is sound throughout a run exactly when no
allowed slave's clone for `all_streams` fails. -/
theorem lock_sound_iff (whitelist : List String) (maxSlaves : Nat) (storesMasters : Bool) (acts : List AcceptorAct) :
    Always step (fun s => s.poisoned = false) (start whitelist maxSlaves storesMasters) acts ↔
      Along step (fun s a => ¬s.Poisons a) (start whitelist maxSlaves storesMasters) acts := by
  refine always_iff_along (I := fun _ => True) (fun _ _ _ _ _ => trivial) (fun s a t _ before taken => ?_) trivial rfl
  have poisons := poisoned_step taken
  rw [before] at poisons
  rw [← Bool.not_eq_true, poisons]
  simp

end

/-- One place: a slave takes it, gets a buffer that cannot be written and disconnects. -/
def slaveLeaves : List AcceptorAct :=
  [.check, .accept (.connection "192.168.1.20" true true), .send [1, 2], .client 0 (.ok 0), .client 0 (.ok 0),
   .client 0 (.error .brokenPipe), .disconnect 0, .check]

/-- No slave is left, but the place is still taken and the socket still stored. -/
theorem departed_slave_keeps_place :
    letI := MasterLoop.lanIpLib
    (run step (start ["192.168.1.0/24"] 1 true) slaveLeaves).map (fun s => (s.count, s.liveSlaves, s.point, s.allStreams,
        s.clients.map AcceptedClient.connected)) = some (1, 0, .loopHead, [0], [false]) ∧
      ¬Always step Accounted (start ["192.168.1.0/24"] 1 true) slaveLeaves := by
  let _ := MasterLoop.lanIpLib
  have left : (run step (start ["192.168.1.0/24"] 1 true) slaveLeaves).map (fun s => (s.count, s.liveSlaves, s.point, s.allStreams,
      s.clients.map AcceptedClient.connected)) = some (1, 0, .loopHead, [0], [false]) := by decide
  refine ⟨left, fun always => ?_⟩
  obtain ⟨t, reached, data⟩ := Option.map_eq_some_iff.1 left
  simp only [Prod.mk.injEq] at data
  obtain ⟨count, live, point, -⟩ := data
  have same := (always.last reached).count (by simp [point])
  rw [count, live] at same
  cases same

end SlaveAcceptor

end RtlTcp
