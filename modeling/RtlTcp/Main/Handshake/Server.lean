import RtlTcp.Main.Handshake.Stages

/-!
# The server's part of a handshake

What one step of the control thread does to the stages: at the head of its loop it reads the probe
or a command, and after the probe it answers, reads the nonce, sends its own and sets its ciphers.
-/

namespace RtlTcp.Handshake
set_option autoImplicit false
open ByteIo

theorem fits_append {frames : List (List UpOrigin × UInt8)} (fits : ∀ frame ∈ frames, FrameFits frame)
    {frame : List UpOrigin × UInt8} (new : FrameFits frame) : ∀ f ∈ frames ++ [frame], FrameFits f := by
  intro f member
  rcases List.mem_append.1 member with old | last
  · exact fits f old
  · rw [List.mem_singleton.1 last]
    exact new

/-- A frame that starts a row of commands. -/
theorem fits_of_commands {bytes : Wire UpOrigin} (only : Commands bytes) (opcode : UInt8) :
    FrameFits ((bytes.take 5).map Prod.fst, opcode) := by
  refine .inl fun origin member => ?_
  obtain ⟨b, among, rfl⟩ := List.mem_map.1 member
  exact only b (List.mem_of_mem_take among)

section
variable [ChaCha]

/-- What the control thread does at the head of its loop. -/
inductive ReadsCommand (s : Handshake) (env : Env) (n : Nat) (cut : ErrorKind) (t : Handshake) : Prop where
  | nothing (few : (s.up.take n).length < 5) (up : t.up = s.up.drop n) (frames : t.frames = s.frames)
      (point : t.server.point = .ended ∨
        t.server.point = .reading ∧ t.server.thread.readCipher = s.server.thread.readCipher)
  | frame (raw : Frame) (whole : 5 ≤ (s.up.take n).length) (bytes : raw.toList = (s.up.take 5).map Prod.snd)
      (up : t.up = s.up.drop 5) (next : s.nextFrame n cut = some (s.server.thread.decrypt raw).1)
      (frames : t.frames = s.frames ++ [((s.up.take 5).map Prod.fst, (s.server.thread.decrypt raw).1.cmd)])
      (point : t.server.point = .ended ∨ (t.server.point = .reading ∨ t.server.point = .acking ∧
          env.shouldExit = false ∧ (s.server.thread.rateLimiter.check env.now).1 = true ∧
          (s.server.thread.decrypt raw).1.cmd = cmdChainDetect) ∧
        t.server.thread.readCipher = (s.server.thread.decrypt raw).2.readCipher)

theorem serverStep_reading (sk : Option Key) {s : Handshake} (reading : s.server.point = .reading) (env : Env) (n : Nat)
    (cut : ErrorKind) (partly : Nat) :
    ReadsCommand s env n cut (s.serverStep sk env n cut partly) ∧
      (s.serverStep sk env n cut partly).down = s.down ∧
      (s.serverStep sk env n cut partly).nonceBytes = s.nonceBytes := by
  have step : (s.serving n cut).step sk env =
      ControlThread.readCommand sk { s.server.thread with stream := arriving s.up n cut } env := by
    simp only [ControlThread.step, serving, reading]
  have quiet : (s.serving n cut).output env partly = [] := by
    simp only [ControlThread.output, serving, reading]
  refine ⟨?_, ?_, ?_⟩
  · have reads := readExact_arriving s.up n 5 cut
    rcases taken : readExact 5 (arriving s.up n cut) with ⟨e | raw, rest⟩
    · rw [taken] at reads
      have noFrame : s.nextFrame n cut = none := by
        simp only [nextFrame, reading, commandHeaderSize, taken]
      obtain ⟨thread, point⟩ := ControlThread.readCommand_error sk env
        (s := { s.server.thread with stream := arriving s.up n cut }) taken
      cases reads with
      | short few left =>
        refine .nothing few ?_ ?_ ?_
        · simpa only [serverStep, step, thread] using left
        · simp only [serverStep, noFrame]
        · simp only [serverStep, step, thread]
          rcases point with point | point
          · exact .inr ⟨point, trivial⟩
          · exact .inl point
    · rw [taken] at reads
      have next : s.nextFrame n cut = some (s.server.thread.decrypt raw).1 := by
        simp only [nextFrame, reading, commandHeaderSize, taken]
      obtain ⟨stream, point⟩ := ControlThread.readCommand_frame sk env
        (s := { s.server.thread with stream := arriving s.up n cut }) taken
      rw [ControlThread.decrypt_stream] at point
      cases reads with
      | whole enough bytes left =>
        have size : s.up.length - (s.up.drop 5).length = 5 := by
          rw [List.length_take] at enough
          rw [List.length_drop]
          omega
        refine .frame raw enough bytes ?_ next ?_ ?_
        · simpa only [serverStep, step, stream] using left
        · simp only [serverStep, step, stream, next, left, size]
        · simpa only [serverStep, step] using point
  · simp only [serverStep, quiet, List.append_nil]
  · simp only [serverStep, reading]

/-- The control thread decrypts with the cipher it has. -/
theorem decrypt_readCipher {s : MasterControl} {raw : Frame} {own : Option ChaCha20} (cipher : s.readCipher = own) :
    (s.decrypt raw).2.readCipher = own.map (·.advance 5) := by
  unfold MasterControl.decrypt
  rw [cipher]
  cases own with
  | none => exact cipher
  | some own => rfl

/-! ## The head of the loop -/

omit [ChaCha] in
/-- A read that gets no frame leaves the stage as it is. -/
theorem head_without_frame {sk : Option Key} {s t : Handshake} {n : Nat} (stage : AtHead sk s)
    (few : (s.up.take n).length < 5) (up : t.up = s.up.drop n) (proxy : t.proxy = s.proxy) (down : t.down = s.down)
    (whole : ProbeWhole s.up n) (cipher : t.server.thread.readCipher = s.server.thread.readCipher) : AtHead sk t := by
  rw [List.length_take] at few
  cases stage with
  | unprobed plain waits nothing silent =>
    refine .unprobed (cipher.trans plain) (proxy ▸ waits) ?_ (down ▸ silent)
    rw [up, nothing, List.drop_nil]
  | broken plain failed few' =>
    refine .broken (cipher.trans plain) (proxy ▸ failed) ?_
    rw [up, List.length_drop]
    omega
  | unread later plain sent wrote silent waits =>
    have size : 5 ≤ s.up.length := by
      rw [sent, List.length_append]
      exact Nat.le_add_right 5 _
    obtain rfl : n = 0 := by
      rcases whole (by rw [sent]; rfl) with zero | five | short <;> omega
    exact .unread later (cipher.trans plain) (up.trans sent) (proxy ▸ wrote) (down ▸ silent) (proxy ▸ waits)
  | rejected magic plain keyed waits nothing silent =>
    refine .rejected magic (cipher.trans plain) keyed (proxy ▸ waits) ?_ (down ▸ silent)
    rw [up, nothing, List.drop_nil]
  | encrypted own same key wrote =>
    subst key
    refine .encrypted own (cipher.trans same) rfl ?_
    rw [proxy, up]
    exact (trails_nonce wrote).drop wrote n
  | unencrypted plain unkeyed wrote =>
    subst unkeyed
    refine .unencrypted (cipher.trans plain) rfl ?_
    rw [proxy, up]
    exact (trails_plain wrote).drop wrote n

/-- With a key, a command that the control thread handles is no probe. -/
theorem command_opcode {sk : Option Key} {s : Handshake} {env : Env} {n : Nat} {cut : ErrorKind} {buf : Frame}
    (known : sk = none ∨ s.takenForProbe env n cut = false) (keyed : sk ≠ none) (only : Commands s.up)
    (running : env.shouldExit = false) (allowed : (s.server.thread.rateLimiter.check env.now).1 = true)
    (next : s.nextFrame n cut = some buf) : buf.cmd ≠ cmdChainDetect := by
  intro probe
  rcases known with unkeyed | known
  · exact keyed unkeyed
  · have all : (s.up.take 5).all (fun b => b.1 = .command) = true := by
      simp only [List.all_eq_true, decide_eq_true_eq]
      exact fun b member => only b (List.mem_of_mem_take member)
    simp [takenForProbe, all, running, allowed, next, probe] at known

omit [ChaCha] in
/-- The probe is there to be read: the control thread answers it, or its rate limiter rejects it. -/
theorem head_after_probe {sk : Option Key} {s t : Handshake} {later : Wire UpOrigin}
    (wrote : Wrote sk s.proxy.point later) (silent : ∀ b ∈ s.down, b.1 ≠ .ack)
    (waits : sk ≠ none → later = [] ∧ Waits s.proxy.point) (proxy : t.proxy = s.proxy) (down : t.down = s.down)
    (up : t.up = later) (plain : t.server.thread.readCipher = none) : AtHead sk t := by
  cases sk with
  | none => exact .unencrypted plain rfl (by rw [proxy, up]; exact wrote)
  | some key =>
    obtain ⟨rfl, still⟩ := waits (Option.some_ne_none _)
    cases sender : s.proxy.point with
    | awaitingAck magic =>
      exact .rejected magic plain (Option.some_ne_none _) (by rw [proxy, sender]) up (down ▸ silent)
    | failed e => exact .broken plain (by rw [proxy, ConnectThread.hasFailed, sender]) (by rw [up]; decide)
    | _ => rw [sender] at still; exact still.elim

/-- A whole frame is the probe or commands, and takes the control thread to the next stage. -/
theorem stage_with_frame {sk : Option Key} {s t : Handshake} {env : Env} {n : Nat} {cut : ErrorKind} {raw : Frame}
    (stage : AtHead sk s) (whole : 5 ≤ (s.up.take n).length) (bytes : raw.toList = (s.up.take 5).map Prod.snd)
    (up : t.up = s.up.drop 5) (next : s.nextFrame n cut = some (s.server.thread.decrypt raw).1)
    (proxy : t.proxy = s.proxy) (down : t.down = s.down) (known : sk = none ∨ s.takenForProbe env n cut = false)
    (point : t.server.point = .ended ∨ (t.server.point = .reading ∨ t.server.point = .acking ∧
        env.shouldExit = false ∧ (s.server.thread.rateLimiter.check env.now).1 = true ∧
        (s.server.thread.decrypt raw).1.cmd = cmdChainDetect) ∧
      t.server.thread.readCipher = (s.server.thread.decrypt raw).2.readCipher) :
    FrameFits ((s.up.take 5).map Prod.fst, (s.server.thread.decrypt raw).1.cmd) ∧ Stage sk t := by
  rw [List.length_take] at whole
  cases stage with
  | unprobed _ _ nothing | rejected _ _ _ _ nothing =>
    rw [nothing] at whole
    simp at whole
  | broken _ _ few => omega
  | unread later plain sent wrote silent waits =>
    have front : s.up.take 5 = marked .probe probe := by
      rw [sent]
      exact List.take_left' rfl
    have rest : t.up = later := by
      rw [up, sent]
      exact List.drop_left' rfl
    have itself : (s.server.thread.decrypt raw).1 = ⟨probe, rfl⟩ := by
      rw [MasterControl.decrypt, plain]
      exact List.Vector.eq _ _ (by rw [bytes, front]; rfl)
    constructor
    · rw [front, itself]
      exact .inr ⟨rfl, rfl⟩
    · rcases point with point | ⟨point | ⟨point, -⟩, cipher⟩
      · rw [Stage, point]
        trivial
      · rw [Stage, point]
        exact head_after_probe wrote silent waits proxy down rest (cipher.trans (decrypt_readCipher plain))
      · rw [Stage, point, proxy, rest]
        exact ⟨cipher.trans (decrypt_readCipher plain), wrote⟩
  | encrypted own same key wrote =>
    subst key
    have only := (trails_nonce wrote).commands
    refine ⟨fits_of_commands only _, ?_⟩
    rcases point with point | ⟨point | ⟨point, running, allowed, probe⟩, cipher⟩
    · rw [Stage, point]
      trivial
    · rw [Stage, point]
      refine .encrypted (own.advance 5) (cipher.trans (decrypt_readCipher same)) rfl ?_
      rw [proxy, up]
      exact (trails_nonce wrote).drop wrote 5
    · exact absurd probe (command_opcode known (Option.some_ne_none _) only running allowed next)
  | unencrypted plain unkeyed wrote =>
    subst unkeyed
    refine ⟨fits_of_commands (trails_plain wrote).commands _, ?_⟩
    have later : Wrote none t.proxy.point t.up := by
      rw [proxy, up]
      exact (trails_plain wrote).drop wrote 5
    rcases point with point | ⟨point | ⟨point, -⟩, cipher⟩
    · rw [Stage, point]
      trivial
    · rw [Stage, point]
      exact .unencrypted (cipher.trans (decrypt_readCipher plain)) rfl later
    · rw [Stage, point]
      exact ⟨cipher.trans (decrypt_readCipher plain), later⟩

/-- At the head of its loop the control thread keeps the invariant. -/
theorem inv_reading {sk : Option Key} {s : Handshake} (inv : Inv sk s) (reading : s.server.point = .reading) {env : Env}
    {n : Nat} {cut : ErrorKind} (whole : ProbeWhole s.up n) (known : sk = none ∨ s.takenForProbe env n cut = false)
    (partly : Nat) : Inv sk (s.serverStep sk env n cut partly) := by
  have stage := inv.stage
  rw [Stage, reading] at stage
  obtain ⟨reads, down, nonces⟩ := serverStep_reading sk reading env n cut partly
  cases reads with
  | nothing few up frames point =>
    refine ⟨?_, frames ▸ inv.frames, nonces ▸ inv.nonces⟩
    rcases point with point | ⟨point, cipher⟩
    · rw [Stage, point]
      trivial
    · rw [Stage, point]
      exact head_without_frame stage few up rfl down whole cipher
  | frame raw five bytes up next frames point =>
    obtain ⟨fits, stage⟩ := stage_with_frame stage five bytes up next rfl down known point
    exact ⟨stage, frames ▸ fits_append inv.frames fits, nonces ▸ inv.nonces⟩

/-! ## After the probe -/

/-- Elsewhere than at the head of its loop the control thread reads no frame. -/
theorem serverStep_frames {s : Handshake} (elsewhere : s.server.point ≠ .reading) (sk : Option Key) (env : Env) (n : Nat)
    (cut : ErrorKind) (partly : Nat) : (s.serverStep sk env n cut partly).frames = s.frames := by
  have noFrame : s.nextFrame n cut = none := by
    unfold nextFrame
    split
    · contradiction
    · rfl
  simp only [serverStep, noFrame]

/-- Between its reads the control thread leaves what is on the way. -/
theorem serverStep_up {sk : Option Key} {s : Handshake} {env : Env} {n : Nat} {cut : ErrorKind}
    (writes : ((s.serving n cut).step sk env).thread.stream = arriving s.up n cut) (partly : Nat) :
    (s.serverStep sk env n cut partly).up = s.up := by
  simp only [serverStep, writes, remaining_arriving]

/-- Between its reads only the stage changes. -/
theorem inv_between {sk : Option Key} {s : Handshake} (inv : Inv sk s) (noFrame : s.server.point ≠ .reading)
    (noNonce : s.server.point ≠ .exchanging) {env : Env} {n : Nat} {cut : ErrorKind} {partly : Nat}
    (stage : Stage sk (s.serverStep sk env n cut partly)) : Inv sk (s.serverStep sk env n cut partly) := by
  have nonces : (s.serverStep sk env n cut partly).nonceBytes = s.nonceBytes := by
    unfold serverStep
    dsimp only
    split
    · contradiction
    · rfl
  exact ⟨stage, serverStep_frames noFrame sk env n cut partly ▸ inv.frames, nonces ▸ inv.nonces⟩

/-- The control thread reads the nonce. -/
theorem inv_exchanging {sk : Option Key} {s : Handshake} (inv : Inv sk s) (point : s.server.point = .exchanging) {n : Nat}
    (arrives : s.NonceWhole n) (env : Env) (cut : ErrorKind) (partly : Nat) :
    Inv sk (s.serverStep sk env n cut partly) := by
  obtain ⟨plain, keyed, wrote⟩ : s.server.thread.readCipher = none ∧ sk ≠ none ∧ Wrote sk s.proxy.point s.up := by
    have stage := inv.stage
    rwa [Stage, point] at stage
  have frames := serverStep_frames (by simp [point]) sk env n cut partly (s := s)
  have nonces : ∀ k, (s.serverStep sk env n cut partly).nonceBytes = s.nonceBytes ++ (s.up.take k).map Prod.fst →
      (∀ b ∈ s.up.take k, b.1 = .nonce) →
      ∀ origin ∈ (s.serverStep sk env n cut partly).nonceBytes, origin ≠ .command := by
    intro k log only origin member
    rw [log] at member
    rcases List.mem_append.1 member with old | new
    · exact inv.nonces origin old
    · obtain ⟨b, among, rfl⟩ := List.mem_map.1 new
      rw [only b among]
      decide
  have reads := readExact_arriving s.up n 12 cut
  rcases taken : readExact 12 (arriving s.up n cut) with ⟨e | peerNonce, rest⟩
  · have step : (s.serving n cut).step sk env = ⟨.reading, { s.server.thread with stream := rest }⟩ := by
      simp only [ControlThread.step, serving, point, taken]
    rw [taken] at reads
    cases reads with
    | short few left =>
      obtain ⟨failed, all⟩ : s.proxy.hasFailed = true ∧ s.up.length ≤ n := by
        rcases arrives with enough | gone
        · omega
        · exact gone
      rw [List.drop_eq_nil_of_le all] at left
      have small : s.up.length ≤ 12 := by
        rw [List.length_take, Nat.min_eq_right all] at few
        omega
      have next : (s.serverStep sk env n cut partly).server.point = .reading := by simp only [serverStep, step]
      refine ⟨?_, frames ▸ inv.frames, nonces s.up.length ?_ ?_⟩
      · rw [Stage, next]
        refine .broken ?_ failed ?_
        · simpa only [serverStep, step] using plain
        · simp only [serverStep, step, left]
          decide
      · simp only [serverStep, step, left, point, List.length_nil, Nat.sub_zero]
      · have only := wrote_nonce keyed wrote
        rw [List.take_of_length_le small] at only
        rwa [List.take_length]
  · have step : (s.serving n cut).step sk env = ⟨.replying peerNonce, { s.server.thread with stream := rest }⟩ := by
      simp only [ControlThread.step, serving, point, taken]
    rw [taken] at reads
    cases reads with
    | whole enough bytes left =>
      have only := wrote_nonce keyed wrote
      have size : s.up.length - (s.up.drop 12).length = 12 := by
        rw [List.length_take] at enough
        rw [List.length_drop]
        omega
      have front : marked .nonce peerNonce.toList ++ s.up.drop 12 = s.up := by
        rw [bytes, ← eq_marked only, List.take_append_drop]
      refine ⟨?_, frames ▸ inv.frames, nonces 12 ?_ only⟩
      · simp only [Stage, serverStep, step, left, front]
        exact ⟨keyed, wrote⟩
      · simp only [serverStep, step, left, point, size]

/-- The control thread acknowledges the probe. -/
theorem inv_acking {sk : Option Key} {s : Handshake} (inv : Inv sk s) (point : s.server.point = .acking) (env : Env)
    (n : Nat) (cut : ErrorKind) (partly : Nat) : Inv sk (s.serverStep sk env n cut partly) := by
  obtain ⟨plain, wrote⟩ : s.server.thread.readCipher = none ∧ Wrote sk s.proxy.point s.up := by
    have stage := inv.stage
    rwa [Stage, point] at stage
  apply inv_between inv (by simp [point]) (by simp [point])
  cases sk with
  | none =>
    have step : (s.serving n cut).step none env = ⟨.reading, { (s.serving n cut).thread with
        written := s.server.thread.written ++ [(chainDetectAck, env.ackSent)] }⟩ := by
      simp only [ControlThread.step, serving, point]
    have next : (s.serverStep none env n cut partly).server.point = .reading := by simp only [serverStep, step]
    rw [Stage, next]
    refine .unencrypted ?_ rfl ?_
    · simp only [serverStep, step]
      exact plain
    · rw [serverStep_up (by rw [step]; rfl)]
      exact wrote
  | some key =>
    have step : (s.serving n cut).step (some key) env = ⟨.exchanging, { (s.serving n cut).thread with
        written := s.server.thread.written ++ [(chainDetectAck, env.ackSent)] }⟩ := by
      simp only [ControlThread.step, serving, point]
    have next : (s.serverStep (some key) env n cut partly).server.point = .exchanging := by simp only [serverStep, step]
    rw [Stage, next, serverStep_up (by rw [step]; rfl)]
    refine ⟨?_, Option.some_ne_none _, wrote⟩
    simp only [serverStep, step]
    exact plain

/-- The control thread sends its nonce. -/
theorem inv_replying {sk : Option Key} {s : Handshake} (inv : Inv sk s) {nonce : Nonce}
    (point : s.server.point = .replying nonce) {env : Env} (sent : env.nonceSent = .ok ()) (n : Nat) (cut : ErrorKind)
    (partly : Nat) : Inv sk (s.serverStep sk env n cut partly) := by
  obtain ⟨keyed, wrote⟩ : sk ≠ none ∧ Wrote sk s.proxy.point (marked .nonce nonce.toList ++ s.up) := by
    have stage := inv.stage
    rwa [Stage, point] at stage
  apply inv_between inv (by simp [point]) (by simp [point])
  have step : (s.serving n cut).step sk env = ⟨.storing env.myNonce nonce, { (s.serving n cut).thread with
      written := s.server.thread.written ++ [(env.myNonce.toList, .ok ())] }⟩ := by
    simp only [ControlThread.step, serving, point, sent]
  have next : (s.serverStep sk env n cut partly).server.point = .storing env.myNonce nonce := by
    simp only [serverStep, step]
  rw [Stage, next, serverStep_up (by rw [step]; rfl)]
  exact ⟨keyed, wrote⟩

/-- The control thread sets its ciphers. -/
theorem inv_storing {sk : Option Key} {s : Handshake} (inv : Inv sk s) {my nonce : Nonce}
    (point : s.server.point = .storing my nonce) (env : Env) (n : Nat) (cut : ErrorKind) (partly : Nat) :
    Inv sk (s.serverStep sk env n cut partly) := by
  obtain ⟨keyed, wrote⟩ : sk ≠ none ∧ Wrote sk s.proxy.point (marked .nonce nonce.toList ++ s.up) := by
    have stage := inv.stage
    rwa [Stage, point] at stage
  apply inv_between inv (by simp [point]) (by simp [point])
  cases sk with
  | none => exact absurd rfl keyed
  | some key =>
    have step : (s.serving n cut).step (some key) env = ⟨.reading, { (s.serving n cut).thread with
        encryptionNonces := some (my, nonce)
        readCipher := some (.new key nonce)
        writeCipher := some (.new key my) }⟩ := by
      simp only [ControlThread.step, serving, point]
    have next : (s.serverStep (some key) env n cut partly).server.point = .reading := by simp only [serverStep, step]
    rw [Stage, next]
    refine .encrypted (.new key nonce) ?_ rfl ?_
    · simp only [serverStep, step]
    · rw [serverStep_up (by rw [step]; rfl)]
      exact wrote

/-- **A step of the control thread** keeps the invariant. -/
theorem inv_server {pk sk : Option Key} {s : Handshake} (inv : Inv sk s) {env : Env} {n : Nat} {cut : ErrorKind}
    {partly : Nat} (orderly : Orderly pk sk s (.server env n cut partly)) : Inv sk (s.serverStep sk env n cut partly) := by
  cases point : s.server.point with
  | reading =>
    simp only [Orderly, point] at orderly
    exact inv_reading inv point orderly.1 orderly.2 partly
  | acking => exact inv_acking inv point env n cut partly
  | exchanging =>
    simp only [Orderly, point] at orderly
    exact inv_exchanging inv point orderly env cut partly
  | replying nonce =>
    simp only [Orderly, point] at orderly
    cases sent : env.nonceSent with
    | error e => rw [sent] at orderly; cases orderly
    | ok => exact inv_replying inv point sent n cut partly
  | storing my nonce => exact inv_storing inv point env n cut partly
  | ended =>
    apply inv_between inv (by simp [point]) (by simp [point])
    have next : (s.serverStep sk env n cut partly).server.point = .ended := by
      simp only [serverStep, ControlThread.step, serving, point]
    rw [Stage, next]
    trivial

end

end RtlTcp.Handshake
