import RtlTcp.Lib.Transition
import RtlTcp.Lib.ByteIo
import RtlTcp.Lib.Broadcast

/-!
# `stream.rs`: fan-out to the clients

`write_client_loop` takes buffers from the broadcast channel and writes them to one client. A
loop stands at one of four points; `WriteClientLoop.step` is what it does next. `FanOut` is the
whole of it: the source that sends, any number of clients, each stepping on its own, so a list
of `Act`s is an interleaving.

`fan_out_fidelity` says what each client gets.
-/

namespace RtlTcp
set_option autoImplicit false
open ByteIo Transition Broadcast

/-- `DEFAULT_BROADCAST_CAPACITY` -/
def defaultBroadcastCapacity : Nat := 64

/-- `new_broadcast` -/
def newBroadcast (capacity : Nat) : Channel (List UInt8) := .new capacity

/-- The points of `write_client_loop` between its shared accesses. `writing rest` is inside
`write_all`, with `rest` still to be accepted. -/
inductive LoopPoint where
  | checkExit
  | tryRecv
  | writing (rest : List UInt8)
  | stopped
  deriving DecidableEq

/-- One `write_client_loop`: its receiver, its point, and what its stream has accepted. -/
structure WriteClientLoop where
  rx : Receiver (List UInt8)
  point : LoopPoint
  written : List UInt8
  deriving DecidableEq

namespace WriteClientLoop

/-- The loop on a new subscription. -/
def start (tx : Channel (List UInt8)) : WriteClientLoop := ⟨tx.subscribe, .checkExit, []⟩

/-- The next step of a loop. `result` is the answer of the stream's `write`, if this step makes
that call; a call that accepts nothing or fails stops the loop, unless it was interrupted. -/
def step (tx : Channel (List UInt8)) (shouldExit : Bool) (w : WriteClientLoop) (result : Except ErrorKind Nat) :
    WriteClientLoop :=
  match w.point with
  | .checkExit => { w with point := if shouldExit then .stopped else .tryRecv }
  | .tryRecv =>
    match w.rx.tryRecv tx with
    | (.ok buf, rx) => { w with rx := rx, point := .writing buf }
    | (.empty, rx) => { w with rx := rx, point := .checkExit }
    | (.closed, rx) => { w with rx := rx, point := .stopped }
    | (.lagged _, rx) => { w with rx := rx, point := .checkExit }
  | .writing [] => { w with point := .checkExit }
  | .writing (b :: bs) =>
    match result with
    | .ok 0 => { w with point := .stopped }
    | .ok (n + 1) => { w with point := .writing (bs.drop n), written := w.written ++ (b :: bs).take (n + 1) }
    | .error e => if e = .interrupted then w else { w with point := .stopped }
  | .stopped => w

/-- The part of the current buffer that is not written yet. -/
def unwritten (w : WriteClientLoop) : List UInt8 :=
  match w.point with
  | .writing rest => rest
  | _ => []

/-- The loop's output is what it received; a loop that has stopped may have cut the last
buffer short. -/
structure Faithful (sent : List (List UInt8)) (w : WriteClientLoop) : Prop where
  tracks : w.rx.Tracks sent
  output : w.written ++ w.unwritten <+: w.rx.values.flatten
  complete : w.point ≠ .stopped → w.written ++ w.unwritten = w.rx.values.flatten

theorem Faithful.of_complete {sent : List (List UInt8)} {w : WriteClientLoop} (tracks : w.rx.Tracks sent)
    (complete : w.written ++ w.unwritten = w.rx.values.flatten) : w.Faithful sent :=
  ⟨tracks, complete ▸ List.prefix_refl _, fun _ => complete⟩

theorem faithful_start (tx : Channel (List UInt8)) : (start tx).Faithful tx.sent :=
  .of_complete (Receiver.tracks_subscribe tx) rfl

theorem Faithful.send {tx : Channel (List UInt8)} {w : WriteClientLoop} (h : w.Faithful tx.sent) (buf : List UInt8) :
    w.Faithful (tx.send buf).sent :=
  ⟨h.tracks.send buf, h.output, h.complete⟩

/-- A loop that stops keeps what it has written. -/
theorem Faithful.stop {sent : List (List UInt8)} {w : WriteClientLoop} (h : w.Faithful sent) :
    Faithful sent { w with point := .stopped } where
  tracks := h.tracks
  output := by
    simp only [unwritten, List.append_nil]
    exact (List.prefix_append ..).trans h.output
  complete still := absurd rfl still

/-- The buffers a receiver has, after one more answer. -/
theorem values_tryRecv (tx : Channel (List UInt8)) (rx : Receiver (List UInt8)) :
    (rx.tryRecv tx).2.values = rx.values ++ match (rx.tryRecv tx).1 with | .ok buf => [buf] | _ => [] := by
  unfold Receiver.tryRecv
  split
  · simp [Receiver.values]
  · split
    · simp [Receiver.values]
    · cases tx.closed <;> simp

theorem Faithful.step {tx : Channel (List UInt8)} {w : WriteClientLoop} (h : w.Faithful tx.sent) (shouldExit : Bool)
    (result : Except ErrorKind Nat) : (w.step tx shouldExit result).Faithful tx.sent := by
  have complete := h.complete
  have tracks := h.tracks
  obtain ⟨rx, point, written⟩ := w
  cases point with
  | checkExit =>
    cases shouldExit with
    | false => exact .of_complete tracks (complete (by simp))
    | true => exact h.stop
  | tryRecv =>
    have same : written ++ [] = rx.values.flatten := complete (by simp)
    have tracks' := tracks.tryRecv
    have values := values_tryRecv tx rx
    simp only [WriteClientLoop.step]
    match taken : rx.tryRecv tx with
    | (.ok buf, rx') =>
      rw [taken] at tracks' values
      refine .of_complete tracks' ?_
      simp only [unwritten, values, List.flatten_append, ← same]
      simp
    | (.empty, rx') | (.lagged _, rx') =>
      rw [taken] at tracks' values
      refine .of_complete tracks' ?_
      simp only [unwritten, values, List.flatten_append, ← same]
      simp
    | (.closed, rx') =>
      rw [taken] at tracks' values
      refine Faithful.stop (w := ⟨rx', .tryRecv, written⟩) (.of_complete tracks' ?_)
      simp only [unwritten, values, List.flatten_append, ← same]
      simp
  | writing rest =>
    have same : written ++ rest = rx.values.flatten := complete (by simp)
    cases rest with
    | nil => exact .of_complete tracks same
    | cons b bs =>
      simp only [WriteClientLoop.step]
      split
      · exact h.stop
      · rename_i n
        refine .of_complete tracks ?_
        simp only [unwritten, List.append_assoc, ← same, List.take_succ_cons, List.cons_append, List.take_append_drop]
      · split
        · exact h
        · exact h.stop
  | stopped => exact h

end WriteClientLoop

/-! ## Any number of clients -/

/-- The channel, the exit flag, and the writer loops of the clients in order of subscription. -/
structure FanOut where
  tx : Channel (List UInt8)
  shouldExit : Bool
  clients : List WriteClientLoop
  deriving DecidableEq

/-- What can happen next: the source sends a buffer or drops its sender, the exit flag is set, a
client subscribes, or client `i` takes a step, in which its stream's `write` answers `result`. -/
inductive Act where
  | send (buf : List UInt8)
  | close
  | setExit
  | subscribe
  | client (i : Nat) (result : Except ErrorKind Nat)
  deriving DecidableEq

namespace FanOut

def new (capacity : Nat) : FanOut := ⟨newBroadcast capacity, false, []⟩

def step (s : FanOut) : Act → Option FanOut
  | .send buf => if s.tx.closed then none else some { s with tx := s.tx.send buf }
  | .close => some { s with tx := { s.tx with closed := true } }
  | .setExit => some { s with shouldExit := true }
  | .subscribe => if s.tx.closed then none else some { s with clients := s.clients ++ [.start s.tx] }
  | .client i result =>
    match s.clients[i]? with
    | some w => some { s with clients := s.clients.set i (w.step s.tx s.shouldExit result) }
    | none => none

/-- Every client is faithful to the buffers sent. -/
def Inv (s : FanOut) : Prop := ∀ w ∈ s.clients, w.Faithful s.tx.sent

theorem Inv.step {s s' : FanOut} {a : Act} (inv : s.Inv) (taken : s.step a = some s') : s'.Inv := by
  cases a with
  | send buf =>
    simp only [FanOut.step] at taken
    split at taken
    · cases taken
    · cases taken
      exact fun w member => (inv w member).send buf
  | close => cases taken; exact inv
  | setExit => cases taken; exact inv
  | subscribe =>
    simp only [FanOut.step] at taken
    split at taken
    · cases taken
    · cases taken
      intro w member
      rcases List.mem_append.1 member with old | new
      · exact inv w old
      · cases List.mem_singleton.1 new
        exact WriteClientLoop.faithful_start s.tx
  | client i result =>
    simp only [FanOut.step] at taken
    split at taken
    · rename_i w there
      cases taken
      intro w' member
      rcases List.mem_or_eq_of_mem_set member with old | rfl
      · exact inv w' old
      · exact (inv w (List.mem_of_getElem? there)).step s.shouldExit result
    · cases taken

theorem inv_new (capacity : Nat) : (new capacity).Inv := by
  intro w member
  cases member

/-! ## Independence -/

/-- The acts that client `i` can see: all but the other clients' own steps. -/
def seenBy (i : Nat) : Act → Bool
  | .client j _ => j == i
  | _ => true

/-- What the acts seen by client `i` depend on. -/
structure SameFor (i : Nat) (s t : FanOut) : Prop where
  tx : s.tx = t.tx
  shouldExit : s.shouldExit = t.shouldExit
  count : s.clients.length = t.clients.length
  client : s.clients[i]? = t.clients[i]?

/-- An act that the client sees does the same to it in both states. -/
theorem SameFor.seen {i : Nat} {s t s' : FanOut} {a : Act} (same : SameFor i s t) (seen : seenBy i a = true)
    (taken : s.step a = some s') : ∃ t', t.step a = some t' ∧ SameFor i s' t' := by
  obtain ⟨tx, shouldExit, clients⟩ := s
  obtain ⟨_, _, others⟩ := t
  obtain ⟨rfl, rfl, count, client⟩ := same
  dsimp only at count client
  cases a with
  | send buf =>
    simp only [FanOut.step] at taken ⊢
    split at taken
    · cases taken
    · rename_i opened
      cases taken
      exact ⟨_, if_neg opened, rfl, rfl, count, client⟩
  | close => cases taken; exact ⟨_, rfl, rfl, rfl, count, client⟩
  | setExit => cases taken; exact ⟨_, rfl, rfl, rfl, count, client⟩
  | subscribe =>
    simp only [FanOut.step] at taken ⊢
    split at taken
    · cases taken
    · rename_i opened
      cases taken
      refine ⟨_, if_neg opened, rfl, rfl, by simp [count], ?_⟩
      simp only [List.getElem?_append, count, client]
  | client j result =>
    have here : j = i := by simpa [seenBy] using seen
    subst here
    simp only [FanOut.step] at taken ⊢
    rw [← client]
    split at taken
    · cases taken
      refine ⟨_, rfl, rfl, rfl, by simp [count], ?_⟩
      simp [List.getElem?_set, count]
    · cases taken

/-- An act that it does not see leaves everything as it is for the client. -/
theorem SameFor.unseen {i : Nat} {s s' : FanOut} {a : Act} (unseen : seenBy i a = false)
    (taken : s.step a = some s') : SameFor i s' s := by
  cases a with
  | client j result =>
    have other : j ≠ i := by simpa [seenBy] using unseen
    simp only [FanOut.step] at taken
    split at taken
    · cases taken
      exact ⟨rfl, rfl, by simp, by simp [List.getElem?_set_ne other]⟩
    · cases taken
  | _ => simp [seenBy] at unseen

theorem SameFor.trans {i : Nat} {s t u : FanOut} (h : SameFor i s t) (h' : SameFor i t u) : SameFor i s u :=
  ⟨h.tx.trans h'.tx, h.shouldExit.trans h'.shouldExit, h.count.trans h'.count, h.client.trans h'.client⟩

/-- **Other clients' steps can be taken out of a run.** -/
theorem run_seenBy {i : Nat} {acts : List Act} {s s₀ t : FanOut} (same : SameFor i s s₀)
    (reached : run step s acts = some t) :
    ∃ t₀, run step s₀ (acts.filter (seenBy i)) = some t₀ ∧ SameFor i t t₀ := by
  induction acts generalizing s s₀ with
  | nil =>
    cases reached
    exact ⟨s₀, rfl, same⟩
  | cons a acts ih =>
    obtain ⟨s', taken, rest⟩ := run_cons_inv reached
    cases seen : seenBy i a with
    | true =>
      obtain ⟨s₀', taken₀, same'⟩ := same.seen seen taken
      rw [List.filter_cons_of_pos seen, run_cons taken₀]
      exact ih same' rest
    | false =>
      rw [List.filter_cons_of_neg (by simp [seen])]
      exact ih ((SameFor.unseen seen taken).trans same) rest

/-- **Fan-out fidelity**, for every capacity, any number of clients and every interleaving.
Each client's output is a prefix of the concatenation of sent buffers at strictly increasing
positions since its subscription, and it skipped as many positions as its lags add up to. What
client `i` writes does not change with the other clients' steps. Clients that never lagged have
received, and write in order, the same buffer at each position that both have covered. -/
theorem fan_out_fidelity (capacity : Nat) (acts : List Act) (s : FanOut)
    (reached : run step (new capacity) acts = some s) :
    (∀ w ∈ s.clients,
      w.written <+: (w.rx.positions.map fun p => s.tx.sent.getD p []).flatten ∧
      w.rx.positions.Pairwise (· < ·) ∧
      (∀ p ∈ w.rx.positions, w.rx.start ≤ p ∧ p < s.tx.sent.length) ∧
      w.rx.skipped.length = w.rx.lags.sum) ∧
    (∀ i acts' s', run step (new capacity) acts' = some s' →
      acts'.filter (seenBy i) = acts.filter (seenBy i) → s'.clients[i]? = s.clients[i]?) ∧
    ∀ w ∈ s.clients, ∀ w' ∈ s.clients, w.rx.lags = [] → w'.rx.lags = [] →
      (w.written <+: (s.tx.sent.drop w.rx.start).flatten ∧ w'.written <+: (s.tx.sent.drop w'.rx.start).flatten) ∧
      ∀ p, w.rx.start ≤ p → p < w.rx.next → w'.rx.start ≤ p → p < w'.rx.next →
        ∃ buf, (p, buf) ∈ w.rx.received ∧ (p, buf) ∈ w'.rx.received := by
  have inv : s.Inv := run_invariant (fun _ _ _ => Inv.step) (inv_new capacity) reached
  have segment : ∀ w ∈ s.clients, w.rx.lags = [] → w.written <+: (s.tx.sent.drop w.rx.start).flatten := by
    intro w member never
    have output := (List.prefix_append ..).trans (inv w member).output
    rw [(inv w member).tracks.values_contiguous never] at output
    refine output.trans ⟨((s.tx.sent.drop w.rx.start).drop (w.rx.next - w.rx.start)).flatten, ?_⟩
    rw [← List.flatten_append, List.take_append_drop]
  refine ⟨fun w member => ?_, fun i acts' s' reached' same => ?_, fun w member w' member' never never' => ?_⟩
  · obtain ⟨tracks, output, -⟩ := inv w member
    rw [tracks.values_eq []] at output
    refine ⟨(List.prefix_append ..).trans output, tracks.increasing, fun p here => ?_, tracks.length_skipped⟩
    have within := tracks.within p here
    exact ⟨within.1, Nat.lt_of_lt_of_le within.2 tracks.behind⟩
  · have start : SameFor i (new capacity) (new capacity) := ⟨rfl, rfl, rfl, rfl⟩
    obtain ⟨t, first, mine⟩ := run_seenBy start reached
    obtain ⟨t', second, theirs⟩ := run_seenBy start reached'
    rw [same, first] at second
    cases second
    exact theirs.client.trans mine.client.symm
  · refine ⟨⟨segment w member never, segment w' member' never'⟩, fun p since before since' before' => ?_⟩
    have got : ∀ v ∈ s.clients, v.rx.lags = [] → v.rx.start ≤ p → p < v.rx.next → ∃ buf, (p, buf) ∈ v.rx.received := by
      intro v there none since before
      have covered : p ∈ v.rx.positions := by
        rw [(inv v there).tracks.contiguous none, List.mem_range'_1]
        omega
      obtain ⟨⟨_, buf⟩, received, rfl⟩ := List.mem_map.1 covered
      exact ⟨buf, received⟩
    obtain ⟨buf, mine⟩ := got w member never since before
    obtain ⟨buf', theirs⟩ := got w' member' never' since' before'
    obtain rfl := (inv w member).tracks.agree (inv w' member').tracks mine theirs
    exact ⟨buf, mine, theirs⟩

/-- A client is overtaken by one buffer and then writes the next one in two portions; a second
client subscribes late. -/
def overtakenActs : List Act :=
  [.subscribe, .send [1, 2], .send [3, 4], .subscribe, .send [5, 6],
    .client 0 (.ok 0), .client 0 (.ok 0), .client 0 (.ok 0), .client 0 (.ok 0), .client 0 (.ok 1),
    .client 1 (.ok 0), .client 1 (.ok 0), .client 1 (.ok 2), .client 0 (.error .interrupted), .client 0 (.ok 1)]

theorem fan_out_overtaken :
    ∃ s, run step (new 2) overtakenActs = some s ∧
      s.clients.map (fun w => (w.written, w.rx.lags)) = [([3, 4], [1]), ([5, 6], [])] ∧
      ∀ w ∈ s.clients, w.rx.skipped.length = w.rx.lags.sum :=
  ⟨_, rfl, by decide, fun w member => ((fan_out_fidelity 2 overtakenActs _ rfl).1 w member).2.2.2⟩

end FanOut

end RtlTcp
