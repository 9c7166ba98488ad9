import RtlTcp.Main.Handshake.Server

/-!
# Agreement of the two ends of a handshake

The proxy's part of the invariant, and `handshake_agrees`: in every run whose steps meet the
condition the two ends agree. `late_ack_disagrees` is a run of two ends with the same key in which
the acknowledgement comes too late.
-/

namespace RtlTcp.Handshake
set_option autoImplicit false
open ByteIo Transition

/-! ## Steps of the proxy -/

/-- With a key, a proxy that has not been answered goes on waiting. -/
theorem unanswered {pk sk : Option Key} (keyed : sk ≠ none) {down : SocketLog} (silent : ∀ b ∈ down, b.1 ≠ .ack)
    (n : Nat) : ¬AckFits pk sk (down.take n) := by
  intro fits
  unfold AckFits at fits
  split at fits
  · rename_i arrived
    rcases fits.2 with unkeyed | answered
    · exact keyed unkeyed
    · obtain ⟨b, later, front⟩ : ∃ b bs, down.take n = b :: bs := by
        cases first : down.take n with
        | nil => simp [first] at arrived
        | cons b bs => exact ⟨b, bs, rfl⟩
      have among : b ∈ down.take n := by rw [front]; exact List.mem_cons_self ..
      refine silent b (List.mem_of_mem_take among) (answered b ?_)
      rw [front]
      exact List.mem_cons_self ..
  · exact keyed fits

/-- What the proxy sends after the probe joins what is on the way. -/
theorem stage_sends {sk : Option Key} {s t : Handshake} {more : Wire UpOrigin} (stage : Stage sk s)
    (server : t.server = s.server) (up : t.up = s.up ++ more) (down : ∀ b ∈ t.down, b ∈ s.down)
    (sends : ∀ later, Wrote sk s.proxy.point later → Wrote sk t.proxy.point (later ++ more))
    (probed : ¬Unprobed s.proxy.point) (running : s.proxy.hasFailed = false)
    (heard : sk ≠ none → (∀ b ∈ s.down, b.1 ≠ .ack) → ¬Waits s.proxy.point) : Stage sk t := by
  unfold Stage at stage ⊢
  rw [server]
  cases point : s.server.point with
  | acking =>
    rw [point] at stage
    exact ⟨stage.1, up ▸ sends _ stage.2⟩
  | exchanging =>
    rw [point] at stage
    exact ⟨stage.1, stage.2.1, up ▸ sends _ stage.2.2⟩
  | replying nonce | storing my nonce =>
    rw [point] at stage
    refine ⟨stage.1, ?_⟩
    rw [up, ← List.append_assoc]
    exact sends _ stage.2
  | ended => trivial
  | reading =>
    rw [point] at stage
    have stage : AtHead sk s := stage
    cases stage with
    | unprobed _ waits => exact absurd waits probed
    | broken _ failed =>
      rw [running] at failed
      cases failed
    | unread later plain sent wrote silent waits =>
      refine .unread (later ++ more) (server ▸ plain) ?_ (sends later wrote) (fun b member => silent b (down b member))
        fun keyed => absurd (waits keyed).2 (heard keyed silent)
      rw [up, sent, List.append_assoc]
    | rejected magic _ keyed waits _ silent => exact absurd (by rw [waits]; trivial) (heard keyed silent)
    | encrypted own same key wrote =>
      refine .encrypted own (server ▸ same) key ?_
      rw [up, ← List.append_assoc]
      exact sends _ wrote
    | unencrypted plain unkeyed wrote => exact .unencrypted (server ▸ plain) unkeyed (up ▸ sends _ wrote)

/-- `connect_upstream` up to the probe. -/
theorem head_probes {sk : Option Key} {s : Handshake} (plain : s.server.thread.readCipher = none)
    (waits : Unprobed s.proxy.point) (nothing : s.up = []) (silent : ∀ b ∈ s.down, b.1 ≠ .ack) (pk : Option Key)
    (env : ConnectEnv) (n : Nat) (cut : ErrorKind) (partly : Nat) : AtHead sk (s.proxyStep pk env n cut partly) := by
  have silent' : ∀ b ∈ (s.proxyStep pk env n cut partly).down, b.1 ≠ .ack :=
    fun b member => silent b (mem_of_mem_remaining member)
  have quiet : (s.connecting n cut).output env partly = [] →
      Unprobed (s.proxyStep pk env n cut partly).proxy.point ∨ (s.proxyStep pk env n cut partly).proxy.hasFailed = true →
      AtHead sk (s.proxyStep pk env n cut partly) := by
    intro silent next
    have up : (s.proxyStep pk env n cut partly).up = [] := by simp only [proxyStep, nothing, silent, List.append_nil]
    rcases next with unprobed | failed
    · exact .unprobed plain unprobed up silent'
    · exact .broken plain failed (by rw [up]; decide)
  cases sender : s.proxy.point with
  | connecting =>
    apply quiet (by simp only [ConnectThread.output, connecting, sender])
    simp only [proxyStep, ConnectThread.step, connecting, sender]
    cases env.connected with
    | error e => exact .inr rfl
    | ok =>
      cases env.timeoutSet with
      | error e => exact .inr rfl
      | ok => exact .inl trivial
  | readingMagic =>
    apply quiet (by simp only [ConnectThread.output, connecting, sender])
    simp only [proxyStep, ConnectThread.step, connecting, sender]
    rcases readExact 12 (arriving s.down n cut) with ⟨e | magic, rest⟩
    · exact .inr rfl
    · exact .inl trivial
  | probing magic =>
    have up : (s.proxyStep pk env n cut partly).up = marked .probe (delivered probe env.probeSent partly) := by
      simp only [proxyStep, nothing, ConnectThread.output, connecting, sender, List.nil_append]
    have next : (s.proxyStep pk env n cut partly).proxy.point =
        ConnectThread.proceed env.probeSent .io (.awaitingAck magic) := by
      simp only [proxyStep, ConnectThread.step, connecting, sender]
    cases sent : env.probeSent with
    | ok =>
      rw [sent] at up next
      refine .unread [] plain (up.trans (List.append_nil _).symm) ?_ silent' fun _ => ⟨rfl, ?_⟩
      · rw [next]
        rfl
      · rw [next]
        trivial
    | error e =>
      rw [sent] at up next
      by_cases all : 5 ≤ partly
      · -- the whole probe was delivered and the write failed all the same
        refine .unread [] plain ?_ ?_ silent' fun _ => ⟨rfl, ?_⟩
        · rw [up, delivered, List.take_of_length_le all, List.append_nil]
        · rw [next]
          exact ⟨by simp, Nat.zero_le _, fun _ => rfl⟩
        · rw [next]
          trivial
      · refine .broken plain (by rw [ConnectThread.hasFailed, next]; rfl) ?_
        rw [up, length_marked, delivered, List.length_take]
        omega
  | _ => rw [sender] at waits; exact waits.elim

/-- **A step of `connect_upstream`** keeps the invariant. -/
theorem inv_proxy [ChaCha] {pk sk : Option Key} {s : Handshake} (inv : Inv sk s) (running : s.proxy.result = none)
    {env : ConnectEnv} {n : Nat} {cut : ErrorKind} {partly : Nat} (orderly : Orderly pk sk s (.proxy env n cut partly)) :
    Inv sk (s.proxyStep pk env n cut partly) := by
  refine ⟨?_, inv.frames, inv.nonces⟩
  have fits : ∀ magic, s.proxy.point = .awaitingAck magic → AckFits pk sk (s.down.take n) := by
    intro magic sender
    simpa only [Orderly, sender] using orderly
  have working : s.proxy.hasFailed = false := by
    unfold ConnectThread.hasFailed
    unfold ConnectThread.result at running
    split
    · rename_i e sender
      rw [sender] at running
      cases running
    · rfl
  by_cases unprobed : Unprobed s.proxy.point
  · -- before the probe there is nothing on the way, so the server is at the head of its loop
    have unwritten : ∀ {later}, ¬Wrote sk s.proxy.point later := by
      intro later wrote
      cases sender : s.proxy.point <;> rw [sender] at wrote unprobed <;> first | exact wrote | exact unprobed
    have stage := inv.stage
    unfold Stage at stage ⊢
    dsimp only [proxyStep]
    cases point : s.server.point with
    | acking => rw [point] at stage; exact absurd stage.2 unwritten
    | exchanging => rw [point] at stage; exact absurd stage.2.2 unwritten
    | replying | storing => rw [point] at stage; exact absurd stage.2 unwritten
    | ended => trivial
    | reading =>
      rw [point] at stage
      have stage : AtHead sk s := stage
      cases stage with
      | unprobed plain waits nothing silent => exact head_probes plain waits nothing silent pk env n cut partly
      | broken _ failed => rw [working] at failed; cases failed
      | rejected _ _ _ waits => rw [waits] at unprobed; exact unprobed.elim
      | unread _ _ _ wrote | encrypted _ _ _ wrote | unencrypted _ _ wrote => exact absurd wrote unwritten
  · refine stage_sends inv.stage rfl rfl (fun b member => mem_of_mem_remaining member) ?_ unprobed working ?_
    · intro later wrote
      have still : (s.connecting n cut).result = none := by
        cases sender : s.proxy.point <;> simp_all [ConnectThread.result, connecting]
      exact wrote_step (c := s.connecting n cut) rfl still fits wrote env partly
    · intro keyed silent waits
      cases sender : s.proxy.point with
      | awaitingAck magic => exact unanswered keyed silent n (fits magic sender)
      | failed e => simp [ConnectThread.hasFailed, sender] at working
      | _ => rw [sender] at waits; exact waits

/-- A forwarded command keeps the invariant. -/
theorem stage_commands {sk : Option Key} {s t : Handshake} (stage : Stage sk s) {magic : Bytes 12} {isChain : Bool}
    {encryptionKey : Option (Key × Nonce × Nonce)} (connected : s.proxy.point = .connected magic isChain encryptionKey)
    (proxy : t.proxy = s.proxy) (server : t.server = s.server) (down : t.down = s.down) {bytes : List UInt8}
    (up : t.up = s.up ++ marked .command bytes) : Stage sk t := by
  refine stage_sends stage server up (fun b member => down ▸ member) ?_ ?_ ?_ ?_
  · intro later wrote
    rw [proxy]
    exact wrote_command connected wrote bytes
  · rw [connected]
    exact id
  · rw [ConnectThread.hasFailed, connected]
  · rw [connected]
    exact fun _ _ => id

/-- Samples change nothing but what the proxy will read. -/
theorem stage_samples {sk : Option Key} {s : Handshake} (stage : Stage sk s) (bytes : List UInt8) :
    Stage sk { s with down := s.down ++ tagged .iq bytes } := by
  have silent' : (∀ b ∈ s.down, b.1 ≠ .ack) → ∀ b ∈ s.down ++ tagged .iq bytes, b.1 ≠ .ack := by
    intro silent b member
    rcases List.mem_append.1 member with old | new
    · exact silent b old
    · rw [origin_of_tagged new]
      decide
  unfold Stage at stage ⊢
  dsimp only
  cases point : s.server.point with
  | reading =>
    rw [point] at stage
    have stage : AtHead sk s := stage
    cases stage with
    | unprobed plain waits nothing silent => exact .unprobed plain waits nothing (silent' silent)
    | broken plain failed few => exact .broken plain failed few
    | unread later plain sent wrote silent waits => exact .unread later plain sent wrote (silent' silent) waits
    | rejected magic plain keyed waits nothing silent => exact .rejected magic plain keyed waits nothing (silent' silent)
    | encrypted own same key wrote => exact .encrypted own same key wrote
    | unencrypted plain unkeyed wrote => exact .unencrypted plain unkeyed wrote
  | _ => rwa [point] at stage

/-! ## Agreement -/

section
variable [ChaCha]

theorem step_inv {pk sk : Option Key} (s : Handshake) (a : Act) (t : Handshake) (inv : Inv sk s)
    (orderly : Orderly pk sk s a) (taken : step pk sk s a = some t) : Inv sk t := by
  cases a with
  | proxy env n cut partly =>
    simp only [step] at taken
    split at taken
    · rename_i running
      cases taken
      exact inv_proxy inv (Option.isNone_iff_eq_none.1 running) orderly
    · cases taken
  | command buf sent partly =>
    simp only [step] at taken
    split at taken
    · rename_i magic isChain encryptionKey connected
      cases taken
      exact ⟨stage_commands inv.stage connected rfl rfl rfl rfl, inv.frames, inv.nonces⟩
    · cases taken
  | server env n cut partly =>
    cases taken
    exact inv_server inv orderly
  | samples bytes =>
    cases taken
    exact ⟨stage_samples inv.stage bytes, inv.frames, inv.nonces⟩

omit [ChaCha] in
theorem greeting_silent (samples : List (List UInt8)) (packet : List UInt8) : ∀ b ∈ greeting samples packet, b.1 ≠ .ack := by
  intro b member
  induction samples generalizing packet with
  | nil => simp [origin_of_tagged (show b ∈ tagged .magic packet from member)]
  | cons before samples ih =>
    cases packet with
    | nil => cases member
    | cons c packet =>
      rcases List.mem_append.1 member with early | later
      · simp [origin_of_tagged early]
      · rcases List.mem_cons.1 later with rfl | rest
        · simp
        · exact ih packet rest

omit [ChaCha] in
theorem start_inv (sk : Option Key) (agcState : AgcState) (rateLimiter : RateLimiter) (nonces : Option (Nonce × Nonce))
    (samples : List (List UInt8)) : Inv sk (start agcState rateLimiter nonces samples) :=
  ⟨AtHead.unprobed rfl trivial rfl (greeting_silent samples _), nofun, nofun⟩

/-- **Handshake agreement.** Whatever the keys of the two ends, in every run in which the wait
for the acknowledgement ends as the keys need it, probe and nonce arrive whole, the server's
nonce is written and no command is taken for a second probe, the two ends agree throughout. -/
theorem handshake_agrees (pk sk : Option Key) (agcState : AgcState) (rateLimiter : RateLimiter)
    (nonces : Option (Nonce × Nonce)) (samples : List (List UInt8)) (acts : List Act)
    (orderly : Along (step pk sk) (Orderly pk sk) (start agcState rateLimiter nonces samples) acts) :
    Always (step pk sk) Agreed (start agcState rateLimiter nonces samples) acts :=
  (always_of_along step_inv (start_inv sk agcState rateLimiter nonces samples) orderly).imp fun _ inv => inv.agreed

end

/-- A server that has just accepted its first master. -/
def accepted : Handshake := start .new (.new commandRateLimitInterval 0 0) none []

/-- A step of `connect_upstream` in which every system call succeeds and `n` bytes arrive. -/
def connects (n : Nat) : Act := .proxy calmConnect n .timedOut 0

/-- A step of the control thread in which `n` bytes arrive. -/
def serves (turnNumber n : Nat) : Act := .server (MasterControl.calmEnv turnNumber) n .timedOut 0

/-- The handshake in time, and a command after it. -/
def inTime : List Act :=
  [connects 0, connects 12, connects 0, serves 0 5, serves 0 0, connects 5, connects 0, serves 0 12, serves 0 0, connects 12,
   serves 0 0, connects 0, .command ⟨[0x01, 0x05, 0xFD, 0x82, 0x20], rfl⟩ (.ok ()) 0, serves 1 5]

theorem handshake_in_time :
    letI := zeroChaCha
    (run (step (some zeroKey) (some zeroKey)) accepted inTime).map (fun t =>
        (identity t.cipher, identity t.server.thread.readCipher, t.frames.map Prod.snd)) =
        some (some (zeroKey, zeroNonce), some (zeroKey, zeroNonce), [cmdChainDetect, 0x01]) ∧
      Always (step (some zeroKey) (some zeroKey)) Agreed accepted inTime :=
  ⟨by decide +kernel, @handshake_agrees zeroChaCha (some zeroKey) (some zeroKey) _ _ none [] inTime (by decide +kernel)⟩

/-- The acknowledgement comes after 500 ms: the proxy forwards three commands, and then the server
reads the probe. -/
def tooLate : List Act :=
  [connects 0, connects 12, connects 0, connects 0, connects 0,
   .command ⟨[0x01, 0x05, 0xFD, 0x82, 0x20], rfl⟩ (.ok ()) 0, .command ⟨[0x02, 0x00, 0x1F, 0x40, 0x00], rfl⟩ (.ok ()) 0,
   .command ⟨[0x08, 0x00, 0x00, 0x00, 0x01], rfl⟩ (.ok ()) 0, serves 0 5, serves 0 0, serves 0 12, serves 0 0, serves 0 0]

/-- Both ends have the same key. The server takes twelve bytes of the commands as the nonce and
decrypts what follows; the proxy does not encrypt. -/
theorem late_ack_disagrees :
    letI := zeroChaCha
    (run (step (some zeroKey) (some zeroKey)) accepted tooLate).map (fun t =>
        (t.proxy.result.isSome, t.cipher.isSome, t.server.thread.readCipher.isSome, t.nonceBytes)) =
        some (true, false, true, List.replicate 12 .command) ∧
      ¬Always (step (some zeroKey) (some zeroKey)) Agreed accepted tooLate := by
  let _ := zeroChaCha
  have reached : (run (step (some zeroKey) (some zeroKey)) accepted tooLate).map (fun t =>
      (t.proxy.result.isSome, t.cipher.isSome, t.server.thread.readCipher.isSome, t.nonceBytes)) =
      some (true, false, true, List.replicate 12 .command) := by decide
  refine ⟨reached, fun agreed => ?_⟩
  obtain ⟨t, last, data⟩ := Option.map_eq_some_iff.1 reached
  simp only [Prod.mk.injEq] at data
  exact (agreed.last last).nonces .command (by rw [data.2.2.2]; decide) rfl

end RtlTcp.Handshake
