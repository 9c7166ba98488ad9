import RtlTcp.Main.Relay
import RtlTcp.Main.ServeMulti

/-!
# `run_serve_multi`: what the clients get of the samples

Every master session has its own writer, and with a key its own cipher. `EncryptedWriter::write` encrypts
more than the socket may accept, so a peer can lose its place in the keystream; but the cipher only ever
moves on. `master_streams` says which bytes of the device are on a master's socket, and which positions
of the keystream cover them. The acceptor of the slaves knows nothing of a key: `slaves_in_the_clear`.
-/

namespace RtlTcp
set_option autoImplicit false
open ByteIo Transition Broadcast Keystream

/-! ## One writer -/

section
variable [ChaCha]

/-- With a cipher, the socket accepts what the loop counts as written, encrypted where the cipher is; after
that the cipher is at least so much further. -/
theorem WriterThread.step_encrypted {tx : Channel (List UInt8)} {shouldExit : Bool} {cipher : ChaCha20} {loop : WriteClientLoop}
    {result : Except ErrorKind Nat} {writer : WriterThread} {accepted : List UInt8}
    (taken : step tx shouldExit (some cipher) loop result = (writer, accepted)) :
    ∃ plain more, writer = .running (some (cipher.advance (plain.length + more))) (loop.step tx shouldExit result) ∧
      (loop.step tx shouldExit result).written = loop.written ++ plain ∧ accepted = xorAt cipher.stream cipher.pos plain := by
  obtain ⟨rx, point, written⟩ := loop
  cases point with
  | checkExit | stopped =>
    cases taken
    exact ⟨[], 0, rfl, (List.append_nil _).symm, rfl⟩
  | tryRecv =>
    cases taken
    refine ⟨[], 0, rfl, ?_, rfl⟩
    simp only [WriteClientLoop.step]
    split <;> exact (List.append_nil _).symm
  | writing rest =>
    cases rest with
    | nil =>
      cases taken
      exact ⟨[], 0, rfl, (List.append_nil _).symm, rfl⟩
    | cons b bs =>
      cases result with
      | ok n =>
        cases taken
        refine ⟨(b :: bs).take n, (b :: bs).length - ((b :: bs).take n).length, ?_, ?_, xorAt_take ..⟩
        · have size : ((b :: bs).take n).length + ((b :: bs).length - ((b :: bs).take n).length) = (b :: bs).length :=
            Nat.add_sub_cancel' (List.length_take_le' ..)
          rw [size]
          rfl
        · cases n with
          | zero => exact (List.append_nil _).symm
          | succ n => rfl
      | error e =>
        cases taken
        refine ⟨[], (b :: bs).length, ?_, ?_, rfl⟩
        · rw [List.length_nil, Nat.zero_add]
          rfl
        · simp only [WriteClientLoop.step]
          split <;> exact (List.append_nil _).symm

/-- What a writer has sent, `samples` of it: nothing while it waits, what its loop counts as written, or this
encrypted at rising positions, all of which are behind the cipher. -/
inductive Streams (key : Option Key) (sent : List (List UInt8)) :
    WriterThread → Option Nonce → (samples : List UInt8) → Prop where
  | waiting {loop : WriteClientLoop} (keyed : key ≠ none) (faithful : loop.Faithful sent) (nothing : loop.written = []) :
      Streams key sent (.waiting loop) none []
  | plain {loop : WriteClientLoop} (unkeyed : key = none) (faithful : loop.Faithful sent) :
      Streams key sent (.running none loop) none loop.written
  | encrypted {loop : WriteClientLoop} {cipher : ChaCha20} (positions : List Nat) (keyed : key = some cipher.key)
      (faithful : loop.Faithful sent) (rising : positions.Pairwise (· < ·)) (below : ∀ p ∈ positions, p < cipher.pos)
      (size : positions.length = loop.written.length) :
      Streams key sent (.running (some cipher) loop) (some cipher.nonce) (xorWith cipher.stream loop.written positions)

variable {key : Option Key} {sent : List (List UInt8)} {writer : WriterThread} {nonce : Option Nonce} {samples : List UInt8}

theorem Streams.send (streams : Streams key sent writer nonce samples) (buf : List UInt8) :
    Streams key (sent ++ [buf]) writer nonce samples := by
  cases streams with
  | waiting keyed faithful nothing => exact .waiting keyed (faithful.sendAll [buf]) nothing
  | plain unkeyed faithful => exact .plain unkeyed (faithful.sendAll [buf])
  | encrypted positions keyed faithful rising below size =>
    exact .encrypted positions keyed (faithful.sendAll [buf]) rising below size

/-- **A step of the loop.** -/
theorem Streams.step {tx : Channel (List UInt8)} {shouldExit : Bool} {cipher : Option ChaCha20} {loop : WriteClientLoop}
    {result : Except ErrorKind Nat} {accepted : List UInt8} (streams : Streams key tx.sent (.running cipher loop) nonce samples)
    (taken : WriterThread.step tx shouldExit cipher loop result = (writer, accepted)) :
    Streams key tx.sent writer nonce (samples ++ accepted) := by
  cases streams with
  | plain unkeyed faithful =>
    obtain ⟨rfl, written⟩ := WriterThread.step_plain taken
    rw [← written]
    exact .plain unkeyed (faithful.step shouldExit result)
  | @encrypted _ cipher positions keyed faithful rising below size =>
    obtain ⟨plain, more, rfl, written, rfl⟩ := WriterThread.step_encrypted taken
    have all : xorWith cipher.stream loop.written positions ++ xorAt cipher.stream cipher.pos plain =
        xorWith cipher.stream (loop.step tx shouldExit result).written (positions ++ List.range' cipher.pos plain.length) := by
      rw [written, xorWith_append _ size, xorAt_eq_xorWith]
    rw [all]
    refine Streams.encrypted _ keyed (faithful.step shouldExit result)
      (pairwise_append_range' rising below _) ?_ ?_
    · intro p member
      simp only [ChaCha20.advance]
      rcases List.mem_append.1 member with old | new
      · have := below p old
        omega
      · have := (List.mem_range'_1.1 new).2
        omega
    · rw [List.length_append, List.length_range', written, List.length_append, size]

/-! ## All sessions -/

namespace ServeMulti
variable {s s' : ServeMulti}

/-- Every session streams. -/
def AllStream (key : Option Key) (s : ServeMulti) : Prop :=
  ∀ m ∈ s.sessions, Streams key s.tx.sent m.writer m.writerNonce (iqBytes m.out)

/-- A thread of one session has changed it. -/
theorem AllStream.set (all : AllStream key s) {i : Nat} {m : Session}
    (one : Streams key s.tx.sent m.writer m.writerNonce (iqBytes m.out)) : AllStream key (s.setSession i m) := by
  intro m' member
  rcases List.mem_or_eq_of_mem_set member with old | rfl
  · exact all m' old
  · exact one

omit [ChaCha] in
theorem iqBytes_quiet {out more : SocketLog} (other : ∀ b ∈ more, b.1 ≠ .iq) : iqBytes (out ++ more) = iqBytes out := by
  rw [iqBytes_append, iqBytes_other other, List.append_nil]

theorem streams_newSession (key : Option Key) (tx : Channel (List UInt8)) (inbound : List Arrival) :
    Streams key tx.sent (newSession key tx inbound).writer none [] := by
  cases key with
  | none => exact .plain rfl (WriteClientLoop.faithful_start tx)
  | some key => exact .waiting (by simp) (WriteClientLoop.faithful_start tx) rfl

theorem AllStream.magicStep (all : AllStream key s) {i : Nat} {m : Session} {result : Except ErrorKind Nat}
    (there : s.sessions[i]? = some m) (taken : s.magicStep i m result = some s') : AllStream key s' := by
  unfold ServeMulti.magicStep at taken
  split at taken
  · cases taken
  · cases taken
    exact all
  · cases taken
    refine all.set ?_
    rw [iqBytes_quiet (other_of_tagged (by decide) _)]
    exact all m (List.mem_of_getElem? there)
  · split at taken <;> cases taken <;> exact all

theorem AllStream.writerStep (all : AllStream key s) {i : Nat} {m : Session} {result : Except ErrorKind Nat}
    (there : s.sessions[i]? = some m) (taken : s.writerStep key i m result = some s') : AllStream key s' := by
  have mine := all m (List.mem_of_getElem? there)
  unfold ServeMulti.writerStep at taken
  split at taken
  · cases taken
  · cases taken
  · rename_i loop key waiting
    split at taken
    · cases taken
    · split at taken
      · cases taken
        exact all
      · rename_i myNonce peerNonce found
        cases taken
        refine AllStream.set all ?_
        rw [waiting] at mine
        generalize m.writerNonce = nonce, iqBytes m.out = bytes at mine ⊢
        cases mine with
        | waiting keyed faithful nothing =>
          have first : Streams (some key) s.tx.sent (.running (some (.new key myNonce)) loop) (some myNonce)
              (xorWith (ChaCha20.new key myNonce).stream loop.written []) :=
            .encrypted [] rfl faithful .nil (by simp) (by rw [nothing]; rfl)
          rwa [nothing] at first
  · rename_i cipher loop running
    split at taken
    · cases taken
    · rw [running] at mine
      match next : WriterThread.step s.tx s.shouldExit cipher loop result with
      | (writer, accepted) =>
        rw [next] at taken
        cases taken
        refine AllStream.set all ?_
        rw [iqBytes_append, iqBytes_iq]
        exact mine.step next

theorem AllStream.controlStep (all : AllStream key s) {i : Nat} {m : Session} {c : ControlThread} {env : Env} {partly : Nat}
    (there : s.sessions[i]? = some m) (taken : s.controlStep key i m c env partly = some s') : AllStream key s' := by
  have quiet : Streams key s.tx.sent m.writer m.writerNonce (iqBytes (m.out ++ c.output env partly)) := by
    rw [iqBytes_quiet (c.output_other env partly)]
    exact all m (List.mem_of_getElem? there)
  unfold ServeMulti.controlStep at taken
  dsimp only at taken
  split at taken
  · split at taken
    · cases taken
    · cases taken
      exact AllStream.set all quiet
  · split at taken
    · cases taken
    · cases taken
      exact AllStream.set all quiet
  · cases taken
  · cases taken
    exact all.set quiet

/-- **One step of the server.** -/
theorem AllStream.step (all : AllStream key s) {a : ServeAct} (taken : s.step key a = some s') : AllStream key s' := by
  cases a with
  | send buf =>
    cases taken
    exact fun m member => (all m member).send buf
  | setExit =>
    cases taken
    exact all
  | accept inbound =>
    simp only [ServeMulti.step] at taken
    split at taken
    · cases taken
      intro m member
      rcases List.mem_append.1 member with old | new
      · exact all m old
      · rw [List.mem_singleton.1 new]
        exact streams_newSession key s.tx inbound
    · cases taken
  | magic result =>
    simp only [ServeMulti.step] at taken
    split at taken
    · obtain ⟨m, there, taken⟩ := Option.bind_eq_some_iff.1 taken
      exact all.magicStep there taken
    · cases taken
  | spawnControl now again =>
    simp only [ServeMulti.step] at taken
    split at taken
    · obtain ⟨m, there, taken⟩ := Option.bind_eq_some_iff.1 taken
      split at taken
      · cases taken
        exact AllStream.set all (all m (List.mem_of_getElem? there))
      · cases taken
    · cases taken
  | join =>
    simp only [ServeMulti.step] at taken
    split at taken
    · obtain ⟨m, there, taken⟩ := Option.bind_eq_some_iff.1 taken
      obtain ⟨c, spawned, taken⟩ := Option.bind_eq_some_iff.1 taken
      split at taken <;> cases taken
      exact all
    · cases taken
  | writer i result =>
    obtain ⟨m, there, taken⟩ := Option.bind_eq_some_iff.1 taken
    exact all.writerStep there taken
  | control i env partly =>
    obtain ⟨m, there, taken⟩ := Option.bind_eq_some_iff.1 taken
    obtain ⟨c, spawned, taken⟩ := Option.bind_eq_some_iff.1 taken
    exact all.controlStep there taken

end ServeMulti

/-- The lags of a session's writer. -/
def Session.lags (m : Session) : List Nat :=
  match m.writer.loop with
  | some loop => loop.rx.lags
  | none => []

/-- What a master's socket has of the bytes that the device has delivered. `plain` are some of them in their
order, and without a gap unless the writer was overtaken. They are on the socket as they are, or, with a
key, encrypted at rising positions of the keystream of the nonce that the writer took: none of the
keystream is used twice. -/
structure Session.Carries (key : Option Key) (device : List UInt8) (m : Session) (plain : List UInt8) (positions : List Nat) :
    Prop where
  ordered : plain.Sublist device
  unbroken : m.lags = [] → plain <:+: device
  rising : positions.Pairwise (· < ·)
  size : key ≠ none → positions.length = plain.length
  clear : key = none → iqBytes m.out = plain
  silent : key ≠ none → m.writerNonce = none → plain = [] ∧ iqBytes m.out = []
  covered : ∀ k nonce, key = some k → m.writerNonce = some nonce →
    iqBytes m.out = xorWith (ChaCha.keystream k nonce) plain positions

theorem Session.carries {m : Session} (streams : Streams key sent m.writer m.writerNonce (iqBytes m.out)) :
    ∃ plain positions, m.Carries key sent.flatten plain positions := by
  have overtaken : ∀ {loop : WriteClientLoop}, m.writer.loop = some loop → m.lags = loop.rx.lags := by
    intro loop own
    simp only [Session.lags, own]
  generalize writer : m.writer = thread, nonce : m.writerNonce = own, out : iqBytes m.out = samples at streams
  cases streams with
  | waiting keyed faithful nothing =>
    refine ⟨[], [], List.nil_sublist _, fun _ => List.nil_infix, .nil, fun _ => rfl, fun unkeyed => absurd unkeyed keyed,
      fun _ _ => ⟨rfl, out⟩, fun k given _ took => ?_⟩
    rw [nonce] at took
    cases took
  | @plain loop unkeyed faithful =>
    refine ⟨loop.written, [], Client.written_sublist faithful, fun never => ?_, .nil, fun keyed => absurd unkeyed keyed,
      fun _ => out, fun keyed => absurd unkeyed keyed, fun k given keyed => ?_⟩
    · exact Client.written_infix faithful (overtaken (by rw [writer]; rfl) ▸ never)
    · rw [unkeyed] at keyed
      cases keyed
  | @encrypted loop cipher positions keyed faithful rising below size =>
    refine ⟨loop.written, positions, Client.written_sublist faithful, fun never => ?_, rising, fun _ => size, fun unkeyed => ?_,
      fun _ unset => ?_, fun k given key' took => ?_⟩
    · exact Client.written_infix faithful (overtaken (by rw [writer]; rfl) ▸ never)
    · rw [keyed] at unkeyed
      cases unkeyed
    · rw [nonce] at unset
      cases unset
    · rw [keyed] at key'
      rw [nonce] at took
      cases key'
      cases took
      exact out

/-- **What the masters get.** With or without a key, in every state of every run with any number of sessions and
any interleaving of the threads, short writes, interruptions and errors: the samples on a master's
socket are bytes that the device has delivered, in their order and none twice, and without a gap if
the session was never overtaken. Without a key they are there as they are. With a key there is none
of them before the writer has found a nonce, and then each is encrypted with a byte of the keystream
of its own, further on than that of the byte before it. -/
theorem ServeMulti.master_streams (key : Option Key) (capacity : Nat) (acts : List ServeAct) :
    Always (ServeMulti.step key) (fun s => ∀ m ∈ s.sessions, ∃ plain positions, m.Carries key s.tx.sent.flatten plain positions)
      (ServeMulti.start capacity) acts := by
  have first : AllStream key (ServeMulti.start capacity) := fun m member => absurd member (List.not_mem_nil)
  refine (always_of_along (fun s a s' all (_ : True) taken => all.step taken) first along_trivial).imp fun s all m member => ?_
  exact Session.carries (all m member)

/-! ## The slaves -/

omit [ChaCha] in
/-- A slave's writer needs no nonces, and its admitting thread never gets to `read_async`. -/
theorem Client.SlaveStage.writer_plain {magic : Bytes 12} {c : Client} (stage : c.SlaveStage magic sent) :
    (∀ loop, c.writer ≠ .waiting loop) ∧ ∀ buf, c.sampleStep buf = none := by
  cases stage with
  | sending call rest todo later writer => simp [sampleStep, writer, todo]
  | sent todo writer => simp [sampleStep, writer, todo]
  | running loop todo writer => rcases todo with todo | todo <;> simp [sampleStep, writer, todo]

namespace Admission
variable {magic : Bytes 12} {s s' : Admission}

/-- Where the slaves among the clients are. No control thread answers them. -/
def SlavesInv (magic : Bytes 12) (s : Admission) : Prop :=
  ∀ c ∈ s.clients, c.mode = .slave → c.SlaveStage magic s.tx.sent ∧ c.answer = []

omit [ChaCha] in
theorem SlavesInv.set (inv : SlavesInv magic s) {i : Nat} {c c' : Client} (there : s.clients[i]? = some c)
    (mode : c'.mode = c.mode)
    (next : c.mode = .slave → c.SlaveStage magic s.tx.sent → c.answer = [] → c'.SlaveStage magic s.tx.sent ∧ c'.answer = []) :
    SlavesInv magic (s.setClient i c') := by
  refine (forall_setClient inv there).2 fun slave => ?_
  have before := mode.symm.trans slave
  obtain ⟨stage, quiet⟩ := inv c (List.mem_of_getElem? there) before
  exact next before stage quiet

/-- **A step of any thread.** -/
theorem SlavesInv.step (inv : SlavesInv magic s) {tcpBuffers : Nat} {a : AdmitAct}
    (taken : s.step key tcpBuffers magic a = some s') : SlavesInv magic s' := by
  cases a with
  | newClient mode =>
    cases taken
    intro c member slave
    rcases List.mem_append.1 member with old | new
    · exact inv c old slave
    · rw [List.mem_singleton.1 new] at slave ⊢
      obtain rfl : mode = .slave := slave
      exact ⟨Client.slaveStage_new .., rfl⟩
  | send buf =>
    cases taken
    intro c member slave
    obtain ⟨stage, quiet⟩ := inv c member slave
    exact ⟨stage.send [buf], quiet⟩
  | setExit =>
    cases taken
    exact inv
  | main i result =>
    obtain ⟨c, there, taken⟩ := Option.bind_eq_some_iff.1 taken
    obtain ⟨c', next, rfl⟩ := Option.map_eq_some_iff.1 taken
    obtain ⟨mode, answer, -⟩ := Client.mainStep_keeps next
    exact inv.set there mode fun slave stage quiet => ⟨stage.mainStep slave next, answer.trans quiet⟩
  | sample i buf =>
    obtain ⟨c, there, taken⟩ := Option.bind_eq_some_iff.1 taken
    obtain ⟨c', next, rfl⟩ := Option.map_eq_some_iff.1 taken
    refine inv.set there (Client.sampleStep_mode next) fun slave stage quiet => ?_
    rw [stage.writer_plain.2] at next
    cases next
  | nonces i cipher =>
    obtain ⟨c, there, taken⟩ := Option.bind_eq_some_iff.1 taken
    split at taken
    · rename_i loop waiting
      cases taken
      exact inv.set there rfl fun slave stage quiet => absurd waiting (stage.writer_plain.1 loop)
    · cases taken
  | writer i result =>
    obtain ⟨c, there, taken⟩ := Option.bind_eq_some_iff.1 taken
    obtain ⟨c', next, rfl⟩ := Option.map_eq_some_iff.1 taken
    obtain ⟨cipher, loop, x, -, -, shape⟩ := Client.writerStep_writes next
    refine inv.set there (by rw [shape]) fun slave stage quiet => ⟨stage.writerStep next, ?_⟩
    rw [shape]
    exact quiet
  | command i answer =>
    obtain ⟨c, there, taken⟩ := Option.bind_eq_some_iff.1 taken
    split at taken
    · rename_i asked
      cases taken
      refine inv.set there rfl fun slave stage quiet => ?_
      cases answer <;> simp [Client.answers, slave] at asked
    · cases taken
  | control i result =>
    obtain ⟨c, there, taken⟩ := Option.bind_eq_some_iff.1 taken
    obtain ⟨c', next, rfl⟩ := Option.map_eq_some_iff.1 taken
    obtain ⟨x, y, -, -, -, answers, shape⟩ := Client.controlStep_writes next
    exact inv.set there (by rw [shape]) fun slave stage quiet => absurd quiet answers

end Admission

/-- **Slaves get the samples in the clear.** Whether or not there is a key and with every `--tcp-buffers`, in every
state of every run with any number of clients and any interleaving of the threads: the samples on a slave's socket are bytes that
the source has sent, as they are, in their order and none twice, and without a gap if the slave was
never overtaken; the other bytes are the magic packet or a first part of it. -/
theorem Admission.slaves_in_the_clear (key : Option Key) (tcpBuffers : Nat) (magic : Bytes 12) (capacity : Nat)
    (acts : List AdmitAct) : Always (Admission.step key tcpBuffers magic) (fun s => ∀ c ∈ s.clients, c.mode = .slave →
      (iqBytes c.out).Sublist s.tx.sent.flatten ∧ (c.lags = [] → iqBytes c.out <:+: s.tx.sent.flatten) ∧
        c.out.filter (·.1 ≠ .iq) <+: tagged .magic magic.toList) (Admission.start capacity) acts := by
  have first : SlavesInv magic (Admission.start capacity) := fun c member => absurd member List.not_mem_nil
  refine (always_of_along (fun s a s' inv (_ : True) taken => inv.step taken) first along_trivial).imp
    fun s inv c member slave => ?_
  have relays : c.Relays magic s.tx.sent.flatten := Client.RelayStage.relays (.inr ⟨slave, (inv c member slave).1⟩)
  exact ⟨relays.samples, relays.unbroken, relays.packet⟩

end

end RtlTcp
