import RtlTcp.Stream

/-!
# `stream.rs`: how a client's writer goes on, and how it stops

`write_client_loop` polls the channel and looks at the exit flag once for each buffer. `catches_up`
says that a client whose socket accepts bytes gets all that the channel retains for it, within a number
of steps that is known in advance; `stops_in_time` says that once the flag is set it writes at
most one buffer more. Both hold whatever the other clients do in between.
-/

namespace RtlTcp
set_option autoImplicit false
open ByteIo Transition Broadcast

namespace WriteClientLoop

/-! ## What a client is owed -/

/-- What a client gets if nothing more is sent: the rest of its buffer, and the buffers that are retained. -/
def owed (tx : Channel (List UInt8)) (w : WriteClientLoop) : List UInt8 := w.unwritten ++ (w.rx.pending tx).flatten

/-- The steps from the head of the loop until nothing is owed: for every buffer the receive, a `write`
for each of its bytes, the end of `write_all` and the check of the flag; and two more for a lag. -/
def headWork (tx : Channel (List UInt8)) (rx : Receiver (List UInt8)) : Nat :=
  if rx.pending tx = [] then 0
  else 1 + (if rx.next < tx.oldest then 2 else 0) + ((rx.pending tx).map (·.length + 3)).sum

/-- The steps from any point of the loop until nothing is owed. -/
def work (tx : Channel (List UInt8)) (w : WriteClientLoop) : Nat :=
  match w.point with
  | .checkExit => headWork tx w.rx
  | .tryRecv => headWork tx w.rx - 1
  | .writing rest => rest.length + 1 + headWork tx w.rx
  | .stopped => 0

/-- The client will have written `target`. -/
structure Due (tx : Channel (List UInt8)) (target : List UInt8) (w : WriteClientLoop) : Prop where
  whole : w.written ++ w.owed tx = target
  done : w.point = .stopped → w.owed tx = []

theorem headWork_cons {tx : Channel (List UInt8)} {rx : Receiver (List UInt8)} {buf : List UInt8} {later : List (List UInt8)}
    (pending : rx.pending tx = buf :: later) (abreast : tx.oldest ≤ rx.next) :
    headWork tx rx = 1 + (buf.length + 3 + (later.map (·.length + 3)).sum) := by
  rw [headWork, pending, if_neg (List.cons_ne_nil _ _), if_neg (Nat.not_lt.2 abreast), Nat.add_zero, List.map_cons,
    List.sum_cons]

theorem headWork_nil {tx : Channel (List UInt8)} {rx : Receiver (List UInt8)} (pending : rx.pending tx = []) :
    headWork tx rx = 0 := by
  rw [headWork, if_pos pending]

/-- A client without work is owed nothing. -/
theorem Due.finished {tx : Channel (List UInt8)} {target : List UInt8} {w : WriteClientLoop} (due : w.Due tx target)
    (idle : w.work tx = 0) : w.written = target ∧ w.unwritten = [] := by
  have nothing : w.owed tx = [] := by
    obtain ⟨rx, point, written⟩ := w
    have head : headWork tx rx ≤ 1 → rx.pending tx = [] := by
      intro small
      cases pending : rx.pending tx with
      | nil => rfl
      | cons buf later =>
        rw [headWork, pending, if_neg (List.cons_ne_nil _ _), List.map_cons, List.sum_cons] at small
        omega
    cases point with
    | checkExit | tryRecv =>
      simp only [work] at idle
      simp [owed, unwritten, head (by omega)]
    | writing rest =>
      simp only [work] at idle
      omega
    | stopped => exact due.done rfl
  refine ⟨?_, (List.append_eq_nil_iff.1 nothing).1⟩
  rw [← due.whole, nothing, List.append_nil]

/-- A receive for which there is nothing. -/
theorem step_none {tx : Channel (List UInt8)} {rx : Receiver (List UInt8)} {written : List UInt8} {shouldExit : Bool}
    {result : Except ErrorKind Nat} (answer : rx.tryRecv tx = (if tx.closed then .closed else .empty, rx)) :
    step tx shouldExit ⟨rx, .tryRecv, written⟩ result = ⟨rx, if tx.closed then .stopped else .checkExit, written⟩ := by
  cases closed : tx.closed <;> simp [step, answer, closed]

/-- The answers of a socket that takes bytes: a `write` accepts some, or it was interrupted. -/
def Takes (result : Except ErrorKind Nat) : Prop := (∃ n, result = .ok (n + 1)) ∨ result = .error .interrupted

/-- **One step** keeps what the client will have written. -/
theorem Due.step {tx : Channel (List UInt8)} {target : List UInt8} {w : WriteClientLoop} (due : w.Due tx target)
    {result : Except ErrorKind Nat} (takes : Takes result) : (w.step tx false result).Due tx target := by
  obtain ⟨whole, done⟩ := due
  obtain ⟨rx, point, written⟩ := w
  cases point with
  | checkExit => exact ⟨whole, fun point => by cases point⟩
  | stopped => exact ⟨whole, done⟩
  | tryRecv =>
    simp only [owed, unwritten, List.nil_append] at whole
    obtain ⟨-, n, rx', answer, -, same⟩ | ⟨-, buf, rx', answer, -, first⟩ | ⟨idle, answer⟩ := rx.tryRecv_pending tx
    · refine ⟨?_, fun point => ?_⟩
      · simp only [WriteClientLoop.step, answer, owed, unwritten, same, List.nil_append]
        exact whole
      · simp [WriteClientLoop.step, answer] at point
    · refine ⟨?_, fun point => ?_⟩
      · simp only [WriteClientLoop.step, answer, owed, unwritten]
        rw [first, List.flatten_cons] at whole
        exact whole
      · simp [WriteClientLoop.step, answer] at point
    · rw [step_none answer]
      refine ⟨?_, fun _ => ?_⟩
      · cases tx.closed <;> exact whole
      · cases tx.closed <;> simp [owed, unwritten, idle]
  | writing rest =>
    cases rest with
    | nil => exact ⟨whole, fun point => by cases point⟩
    | cons b bs =>
      obtain ⟨n, rfl⟩ | rfl := takes
      · refine ⟨?_, fun point => by cases point⟩
        rw [← whole]
        simp only [WriteClientLoop.step, owed, unwritten, List.take_succ_cons, List.append_assoc, List.cons_append]
        rw [← List.append_assoc (bs.take n), List.take_append_drop]
      · exact ⟨whole, done⟩

/-- **One step** in which the socket accepts something brings the end nearer. -/
theorem work_step {tx : Channel (List UInt8)} {w : WriteClientLoop} {result : Except ErrorKind Nat} (takes : Takes result) :
    (w.step tx false result).work tx ≤ w.work tx - if result.isOk then 1 else 0 := by
  have one : (if result.isOk then 1 else 0) ≤ 1 := by split <;> omega
  obtain ⟨rx, point, written⟩ := w
  cases point with
  | checkExit =>
    simp only [WriteClientLoop.step, work, Bool.false_eq_true, if_false]
    omega
  | stopped => exact Nat.zero_le _
  | tryRecv =>
    obtain ⟨late, n, rx', answer, caught, same⟩ | ⟨abreast, buf, rx', answer, abreast', first⟩ | ⟨nothing, answer⟩ :=
      rx.tryRecv_pending tx
    · have head : headWork tx rx' = headWork tx rx - 2 := by
        rw [headWork, headWork, same, caught, if_pos late, if_neg (Nat.lt_irrefl _)]
        split <;> omega
      simp only [WriteClientLoop.step, answer, work, head]
      omega
    · simp only [WriteClientLoop.step, answer, work]
      rw [headWork_cons first abreast]
      rcases pending : rx'.pending tx with _ | ⟨next, later⟩
      · rw [headWork_nil pending]
        omega
      · rw [headWork_cons pending abreast', List.map_cons, List.sum_cons]
        omega
    · have idle := headWork_nil nothing
      rw [step_none answer]
      cases tx.closed <;> simp [work, idle]
  | writing rest =>
    cases rest with
    | nil =>
      simp only [WriteClientLoop.step, work]
      omega
    | cons b bs =>
      obtain ⟨n, rfl⟩ | rfl := takes
      · simp only [WriteClientLoop.step, work, List.length_drop, List.length_cons]
        omega
      · exact Nat.le_refl _

/-! ## After the exit flag -/

/-- The steps that are left once the flag is set, when no buffer is longer than `size`. -/
def stopWork (size : Nat) (w : WriteClientLoop) : Nat :=
  match w.point with
  | .checkExit => 1
  | .tryRecv => size + 3
  | .writing rest => rest.length + 2
  | .stopped => 0

/-- What a client may still write once the flag is set: the rest of its buffer, or the one that it is
about to receive. -/
def LastWords (tx : Channel (List UInt8)) (w : WriteClientLoop) (more : List UInt8) : Prop :=
  more <+: w.unwritten ∨ w.point = .tryRecv ∧ ∃ buf ∈ tx.sent, more <+: buf

/-- The rest of a buffer is the end of one that was sent. -/
def Holds (tx : Channel (List UInt8)) (w : WriteClientLoop) : Prop :=
  w.unwritten = [] ∨ ∃ buf ∈ tx.sent, w.unwritten <:+ buf

theorem tryRecv_sent {tx : Channel (List UInt8)} {rx rx' : Receiver (List UInt8)} {buf : List UInt8}
    (answer : rx.tryRecv tx = (.ok buf, rx')) : buf ∈ tx.sent := by
  unfold Receiver.tryRecv at answer
  split at answer
  · cases answer
  · split at answer
    · rename_i there
      cases answer
      exact List.mem_of_getElem? there
    · cases closed : tx.closed <;> simp [closed] at answer

theorem Holds.step {tx : Channel (List UInt8)} {w : WriteClientLoop} (holds : w.Holds tx) (shouldExit : Bool)
    (result : Except ErrorKind Nat) : (w.step tx shouldExit result).Holds tx := by
  obtain ⟨rx, point, written⟩ := w
  cases point with
  | checkExit => cases shouldExit <;> exact .inl rfl
  | stopped => exact holds
  | tryRecv =>
    simp only [WriteClientLoop.step]
    split
    · rename_i buf rx' answer
      exact .inr ⟨buf, tryRecv_sent answer, List.suffix_refl _⟩
    all_goals exact .inl rfl
  | writing rest =>
    cases rest with
    | nil => exact .inl rfl
    | cons b bs =>
      simp only [WriteClientLoop.step]
      split
      · exact .inl rfl
      · rename_i n
        obtain none | ⟨buf, sent, suffix⟩ := holds
        · cases none
        · refine .inr ⟨buf, sent, ?_⟩
          exact ((List.drop_suffix n bs).trans (List.suffix_cons b bs)).trans suffix
      · split
        · exact holds
        · exact .inl rfl

theorem LastWords.shorter {tx : Channel (List UInt8)} {w : WriteClientLoop} {more less : List UInt8}
    (last : w.LastWords tx more) (shorter : less <+: more) : w.LastWords tx less := by
  obtain rest | ⟨receiving, buf, sent, rest⟩ := last
  · exact .inl (shorter.trans rest)
  · exact .inr ⟨receiving, buf, sent, shorter.trans rest⟩

/-- How far a client has come since the flag was set, when it was at `w` then: it is still about to
receive, or it has its last words before it. -/
def Ending (tx : Channel (List UInt8)) (w w' : WriteClientLoop) : Prop :=
  ∃ front, w'.written = w.written ++ front ∧
    (w'.point = .tryRecv ∧ w.point = .tryRecv ∧ front = [] ∨
      w'.point ≠ .tryRecv ∧ w.LastWords tx (front ++ w'.unwritten))

theorem ending_refl (tx : Channel (List UInt8)) (w : WriteClientLoop) : w.Ending tx w := by
  refine ⟨[], (List.append_nil _).symm, ?_⟩
  by_cases receiving : w.point = .tryRecv
  · exact .inl ⟨receiving, receiving, rfl⟩
  · exact .inr ⟨receiving, .inl (List.prefix_refl _)⟩

theorem Ending.send {tx : Channel (List UInt8)} {w w' : WriteClientLoop} (ending : w.Ending tx w') (buf : List UInt8) :
    w.Ending (tx.send buf) w' := by
  obtain ⟨front, written, receiving | ⟨point, last⟩⟩ := ending
  · exact ⟨front, written, .inl receiving⟩
  · refine ⟨front, written, .inr ⟨point, ?_⟩⟩
    obtain rest | ⟨receiving, old, sent, rest⟩ := last
    · exact .inl rest
    · exact .inr ⟨receiving, old, List.mem_append_left _ sent, rest⟩

/-- A client that writes nothing more and is not about to receive. -/
theorem Ending.quiet {tx : Channel (List UInt8)} {w w' w'' : WriteClientLoop} (ending : w.Ending tx w')
    (written : w''.written = w'.written) (nothing : w''.unwritten = []) (point : w''.point ≠ .tryRecv) :
    w.Ending tx w'' := by
  obtain ⟨front, so, ⟨-, -, rfl⟩ | ⟨-, last⟩⟩ := ending
  · refine ⟨[], written.trans so, .inr ⟨point, .inl ?_⟩⟩
    rw [nothing]
    exact List.nil_prefix
  · refine ⟨front, written.trans so, .inr ⟨point, last.shorter ?_⟩⟩
    rw [nothing, List.append_nil]
    exact List.prefix_append ..

/-- **One step with the flag set.** -/
theorem Ending.step {tx : Channel (List UInt8)} {w w' : WriteClientLoop} (ending : w.Ending tx w')
    (result : Except ErrorKind Nat) : w.Ending tx (w'.step tx true result) := by
  obtain ⟨rx, point, written⟩ := w'
  cases point with
  | checkExit => exact ending.quiet rfl rfl (by simp [WriteClientLoop.step])
  | stopped => exact ending
  | tryRecv =>
    simp only [WriteClientLoop.step]
    split
    · rename_i buf rx' answer
      obtain ⟨front, so, ⟨-, receiving, rfl⟩ | ⟨other, -⟩⟩ := ending
      · exact ⟨[], so, .inr ⟨by simp, .inr ⟨receiving, buf, tryRecv_sent answer, List.prefix_refl _⟩⟩⟩
      · exact absurd rfl other
    all_goals exact ending.quiet rfl rfl (by simp)
  | writing rest =>
    cases rest with
    | nil => exact ending.quiet rfl rfl (by simp [WriteClientLoop.step])
    | cons b bs =>
      simp only [WriteClientLoop.step]
      split
      · exact ending.quiet rfl rfl (by simp)
      · rename_i n
        obtain ⟨front, so, ⟨wrong, -, -⟩ | ⟨-, last⟩⟩ := ending
        · cases wrong
        · have so : written = w.written ++ front := so
          refine ⟨front ++ (b :: bs).take (n + 1), by rw [so, List.append_assoc], .inr ⟨by simp, ?_⟩⟩
          have whole : front ++ (b :: bs).take (n + 1) ++ bs.drop n = front ++ (b :: bs) := by
            rw [List.append_assoc, List.take_succ_cons, List.cons_append, List.take_append_drop]
          simp only [unwritten, whole]
          exact last
      · split
        · exact ending
        · exact ending.quiet rfl rfl (by simp)

/-- **One step with the flag set** brings the end nearer unless a `write` was interrupted. -/
theorem stopWork_step {tx : Channel (List UInt8)} {w : WriteClientLoop} {size : Nat} (bound : ∀ buf ∈ tx.sent, buf.length ≤ size)
    (result : Except ErrorKind Nat) :
    (w.step tx true result).stopWork size ≤ w.stopWork size - if result ≠ .error .interrupted then 1 else 0 := by
  have one : (if result ≠ .error .interrupted then 1 else 0) ≤ 1 := by split <;> omega
  obtain ⟨rx, point, written⟩ := w
  cases point with
  | checkExit | stopped => exact Nat.zero_le _
  | tryRecv =>
    simp only [WriteClientLoop.step]
    split <;> simp only [stopWork]
    · rename_i buf rx' answer
      have := bound buf (tryRecv_sent answer)
      omega
    all_goals omega
  | writing rest =>
    cases rest with
    | nil =>
      simp only [WriteClientLoop.step, stopWork, List.length_nil]
      omega
    | cons b bs =>
      simp only [WriteClientLoop.step]
      split
      · exact Nat.zero_le _
      · simp only [stopWork, List.length_drop, List.length_cons]
        omega
      · split
        · rename_i e interrupted
          simp [interrupted]
        · exact Nat.zero_le _

end WriteClientLoop

/-! ## Between the steps of the others -/

namespace FanOut

/-- What an act does to client `i`: it is the client's own step, or the client stays as it is. -/
theorem client_moves {s t : FanOut} {a : Act} {i : Nat} {w : WriteClientLoop} (taken : s.step a = some t)
    (there : s.clients[i]? = some w) :
    (∃ result, a = .client i result ∧ t.tx = s.tx ∧ t.shouldExit = s.shouldExit ∧
        t.clients[i]? = some (w.step s.tx s.shouldExit result)) ∨
      ((∀ result, a ≠ .client i result) ∧ t.clients[i]? = some w) := by
  have bound := (List.getElem?_eq_some_iff.1 there).1
  cases a with
  | send buf =>
    simp only [step] at taken
    split at taken
    · cases taken
    · cases taken
      exact .inr ⟨by simp, there⟩
  | close | setExit =>
    cases taken
    exact .inr ⟨by simp, there⟩
  | subscribe =>
    simp only [step] at taken
    split at taken
    · cases taken
    · cases taken
      refine .inr ⟨by simp, ?_⟩
      rw [List.getElem?_append_left bound, there]
  | client j result =>
    simp only [step] at taken
    split at taken
    · rename_i v here
      cases taken
      by_cases same : j = i
      · subst same
        rw [there] at here
        cases here
        exact .inl ⟨result, rfl, rfl, rfl, List.getElem?_set_self bound⟩
      · refine .inr ⟨by simp [same], ?_⟩
        rw [List.getElem?_set_ne same, there]
    · cases taken

/-- The source is silent, the flag is not set, and the socket of client `i` takes bytes. -/
def Serves (i : Nat) : Act → Prop
  | .send _ | .setExit => False
  | .close | .subscribe => True
  | .client j result => j = i → WriteClientLoop.Takes result

/-- The steps of client `i` in which a `write` would accept something. -/
def advances (i : Nat) : Act → Bool
  | .client j result => j == i && result.isOk
  | _ => false

/-- The work of client `i`. -/
def workOf (i : Nat) (s : FanOut) : Nat := (s.clients[i]?.map (WriteClientLoop.work s.tx)).getD 0

/-- Client `i` will have written `target`. -/
def DueTo (i : Nat) (target : List UInt8) (s : FanOut) : Prop :=
  s.shouldExit = false ∧ ∃ w, s.clients[i]? = some w ∧ w.Due s.tx target

theorem workOf_eq {s : FanOut} {i : Nat} {w : WriteClientLoop} (there : s.clients[i]? = some w) :
    s.workOf i = w.work s.tx := by
  rw [workOf, there]
  rfl

/-- While the client is served, only the sender's end can change about the channel. -/
theorem serves_channel {s t : FanOut} {a : Act} {i : Nat} (serves : Serves i a) (taken : s.step a = some t) :
    t.shouldExit = s.shouldExit ∧ ∃ closed, t.tx = ⟨s.tx.capacity, s.tx.sent, closed⟩ := by
  cases a with
  | send | setExit => cases serves
  | close =>
    cases taken
    exact ⟨rfl, true, rfl⟩
  | subscribe =>
    simp only [step] at taken
    split at taken
    · cases taken
    · cases taken
      exact ⟨rfl, s.tx.closed, rfl⟩
  | client j result =>
    simp only [step] at taken
    split at taken
    · cases taken
      exact ⟨rfl, s.tx.closed, rfl⟩
    · cases taken

theorem dueTo_step {s t : FanOut} {a : Act} {i : Nat} {target : List UInt8} (due : s.DueTo i target) (serves : Serves i a)
    (taken : s.step a = some t) : t.DueTo i target ∧ t.workOf i ≤ s.workOf i - if advances i a then 1 else 0 := by
  obtain ⟨on, w, there, due⟩ := due
  obtain ⟨flag, closed, channel⟩ := serves_channel serves taken
  rw [workOf_eq there]
  rcases client_moves taken there with ⟨result, rfl, same, -, after⟩ | ⟨other, after⟩
  · rw [on] at after
    refine ⟨⟨flag.trans on, _, after, same ▸ due.step (serves rfl)⟩, ?_⟩
    rw [workOf_eq after, same]
    have less : (w.step s.tx false result).work s.tx ≤ w.work s.tx - if result.isOk then 1 else 0 :=
      WriteClientLoop.work_step (serves rfl)
    simpa [advances] using less
  · have still : advances i a = false := by
      cases a with
      | client j result =>
        have elsewhere : j ≠ i := fun same => other result (by rw [same])
        simp [advances, elsewhere]
      | _ => rfl
    refine ⟨⟨flag.trans on, w, after, ?_⟩, ?_⟩
    · rw [channel]
      exact ⟨due.whole, due.done⟩
    · rw [workOf_eq after, still, channel]
      exact Nat.le_refl _

/-- **A client catches up.** From any state in which the flag is not set and client `i` has not stopped:
when the source is silent and the client's socket takes bytes, then after as many of the client's steps
as its work says, whatever the other clients do in between, it has written the rest of its buffer and all
that the channel retains for it, in this order and nothing else. -/
theorem catches_up (s t : FanOut) (later : List Act) (i : Nat) (w : WriteClientLoop) (there : s.clients[i]? = some w)
    (running : w.point ≠ .stopped) (on : s.shouldExit = false) (served : ∀ a ∈ later, Serves i a)
    (reached : run step s later = some t) (enough : w.work s.tx ≤ later.countP (advances i)) :
    ∃ w', t.clients[i]? = some w' ∧ w'.unwritten = [] ∧
      w'.written = w.written ++ w.unwritten ++ (s.tx.sent.drop (max w.rx.next (s.tx.sent.length - s.tx.capacity))).flatten := by
  have start : s.DueTo i (w.written ++ w.owed s.tx) := ⟨on, w, there, rfl, fun stopped => absurd stopped running⟩
  obtain ⟨⟨-, w', there', due⟩, down⟩ := run_ranked (workOf i) (advances i)
    (fun _ _ _ due serves taken => (dueTo_step due serves taken).1)
    (fun _ _ _ due serves taken => (dueTo_step due serves taken).2) start (along_of_forall served) reached
  rw [workOf_eq there, workOf_eq there'] at down
  obtain ⟨written, nothing⟩ := due.finished (by omega)
  refine ⟨w', there', nothing, written.trans ?_⟩
  rw [WriteClientLoop.owed, ← List.append_assoc]
  rfl

/-- Two buffers are retained of three; the client writes the first of them in two portions. -/
theorem catches_up_with_two :
    ∃ s t w w', run step (new 2) [.subscribe, .send [1, 2], .send [3, 4], .send [5]] = some s ∧
      run step s (List.replicate 12 (.client 0 (.ok 1))) = some t ∧ s.clients[0]? = some w ∧ w.work s.tx = 12 ∧
      t.clients[0]? = some w' ∧ w'.written = [3, 4, 5] := by
  obtain ⟨w', there, -, written⟩ := catches_up
    ⟨⟨2, [[1, 2], [3, 4], [5]], false⟩, false, [.start (newBroadcast 2)]⟩ _ (List.replicate 12 (.client 0 (.ok 1))) 0 _ rfl
    (by decide) rfl (fun a member => by rw [(List.mem_replicate.1 member).2]; exact fun _ => .inl ⟨0, rfl⟩) rfl (by decide)
  exact ⟨_, _, _, w', rfl, rfl, rfl, by decide, there, written⟩

/-! ## The end of a client -/

/-- The steps of client `i`, but for the writes that were interrupted. -/
def moves (i : Nat) : Act → Bool
  | .client j result => j == i && decide (result ≠ .error .interrupted)
  | _ => false

/-- The rest of every client's buffer is the end of one that was sent. -/
def HoldsAll (s : FanOut) : Prop := ∀ (i : Nat) (w : WriteClientLoop), s.clients[i]? = some w → w.Holds s.tx

theorem holdsAll_step {s t : FanOut} {a : Act} (holds : s.HoldsAll) (taken : s.step a = some t) : t.HoldsAll := by
  cases a with
  | send buf =>
    simp only [step] at taken
    split at taken
    · cases taken
    · cases taken
      intro i w there
      obtain none | ⟨old, sent, suffix⟩ := holds i w there
      · exact .inl none
      · exact .inr ⟨old, List.mem_append_left _ sent, suffix⟩
  | close | setExit =>
    cases taken
    exact holds
  | subscribe =>
    simp only [step] at taken
    split at taken
    · cases taken
    · cases taken
      intro i w there
      rcases List.mem_append.1 (List.mem_of_getElem? there) with old | new
      · obtain ⟨j, there⟩ := List.mem_iff_getElem?.1 old
        exact holds j w there
      · cases List.mem_singleton.1 new
        exact .inl rfl
  | client j result =>
    simp only [step] at taken
    split at taken
    · rename_i v here
      cases taken
      intro i w there
      rcases List.mem_or_eq_of_mem_set (List.mem_of_getElem? there) with old | rfl
      · obtain ⟨k, there⟩ := List.mem_iff_getElem?.1 old
        exact holds k w there
      · exact (holds j v here).step s.shouldExit result
    · cases taken

/-- The steps that client `i` has left when no buffer is longer than `size`. -/
def stopWorkOf (size i : Nat) (s : FanOut) : Nat := (s.clients[i]?.map (WriteClientLoop.stopWork size)).getD 0

theorem stopWorkOf_eq {s : FanOut} {size i : Nat} {w : WriteClientLoop} (there : s.clients[i]? = some w) :
    s.stopWorkOf size i = w.stopWork size := by
  rw [stopWorkOf, there]
  rfl

/-- The flag is set, and client `i`, which was at `w` then, is on its way to its end. -/
structure Stopping (size i : Nat) (w : WriteClientLoop) (s : FanOut) : Prop where
  exit : s.shouldExit = true
  bound : ∀ buf ∈ s.tx.sent, buf.length ≤ size
  ending : ∃ w', s.clients[i]? = some w' ∧ w.Ending s.tx w'

/-- No buffer longer than `size` is sent. -/
def SendsUpTo (size : Nat) (a : Act) : Prop := ∀ buf, a = .send buf → buf.length ≤ size

/-- The flag stays set; what a step sends is the act's buffer. -/
theorem channel_moves {s t : FanOut} {a : Act} (taken : s.step a = some t) :
    (s.shouldExit = true → t.shouldExit = true) ∧
      ((∃ buf, a = .send buf ∧ t.tx = s.tx.send buf) ∨ t.tx.sent = s.tx.sent) := by
  cases a with
  | send buf =>
    simp only [step] at taken
    split at taken
    · cases taken
    · cases taken
      exact ⟨id, .inl ⟨buf, rfl, rfl⟩⟩
  | close =>
    cases taken
    exact ⟨id, .inr rfl⟩
  | setExit =>
    cases taken
    exact ⟨fun _ => rfl, .inr rfl⟩
  | subscribe =>
    simp only [step] at taken
    split at taken
    · cases taken
    · cases taken
      exact ⟨id, .inr rfl⟩
  | client j result =>
    simp only [step] at taken
    split at taken
    · cases taken
      exact ⟨id, .inr rfl⟩
    · cases taken

theorem stopping_step {s t : FanOut} {a : Act} {size i : Nat} {w : WriteClientLoop} (stopping : s.Stopping size i w)
    (sends : SendsUpTo size a) (taken : s.step a = some t) :
    t.Stopping size i w ∧ t.stopWorkOf size i ≤ s.stopWorkOf size i - if moves i a then 1 else 0 := by
  obtain ⟨exit, bound, w', there, ending⟩ := stopping
  obtain ⟨flag, channel⟩ := channel_moves taken
  have bound' : ∀ buf ∈ t.tx.sent, buf.length ≤ size := by
    intro buf member
    rcases channel with ⟨new, rfl, same⟩ | same
    · rw [same] at member
      rcases List.mem_append.1 member with old | last
      · exact bound buf old
      · rw [List.mem_singleton.1 last]
        exact sends new rfl
    · exact bound buf (same ▸ member)
  have grown : ∀ v, w.Ending s.tx v → w.Ending t.tx v := by
    intro v ending
    rcases channel with ⟨new, rfl, same⟩ | same
    · rw [same]
      exact ending.send new
    · unfold WriteClientLoop.Ending WriteClientLoop.LastWords
      rw [same]
      exact ending
  rw [stopWorkOf_eq there]
  rcases client_moves taken there with ⟨result, rfl, same, -, after⟩ | ⟨other, after⟩
  · rw [exit] at after
    refine ⟨⟨flag exit, bound', _, after, grown _ (ending.step result)⟩, ?_⟩
    rw [stopWorkOf_eq after]
    have less := WriteClientLoop.stopWork_step bound (w := w') result
    simpa [moves] using less
  · have still : moves i a = false := by
      cases a with
      | client j result =>
        have elsewhere : j ≠ i := fun same => other result (by rw [same])
        simp [moves, elsewhere]
      | _ => rfl
    refine ⟨⟨flag exit, bound', w', after, grown _ ending⟩, ?_⟩
    rw [stopWorkOf_eq after, still]
    exact Nat.le_refl _

/-- **A client stops in time.** In every run, from the moment the flag is set, and whatever is sent and
whatever the other clients do afterwards: client `i` writes at most the rest of its buffer, or one
buffer if it was about to receive; and it has stopped after as many steps as the longest buffer has bytes
and three more, the writes that were interrupted not counted. -/
theorem stops_in_time (capacity size : Nat) (acts later : List Act) (s t : FanOut) (i : Nat) (w : WriteClientLoop)
    (begun : run step (new capacity) acts = some s) (there : s.clients[i]? = some w) (exit : s.shouldExit = true)
    (bound : ∀ buf ∈ s.tx.sent, buf.length ≤ size) (sends : ∀ a ∈ later, SendsUpTo size a)
    (reached : run step s later = some t) :
    ∃ w' more, t.clients[i]? = some w' ∧ w'.written = w.written ++ more ∧
      (more <+: w.unwritten ∨ w.point = .tryRecv ∧ ∃ buf ∈ t.tx.sent, more <+: buf) ∧
      (size + 3 ≤ later.countP (moves i) → w'.point = .stopped) := by
  have holds : s.HoldsAll := run_invariant (fun _ _ _ => holdsAll_step) (fun i w there => by cases there) begun
  have first : s.stopWorkOf size i ≤ size + 3 := by
    rw [stopWorkOf_eq there]
    have holds := holds i w there
    obtain ⟨rx, point, written⟩ := w
    cases point with
    | writing rest =>
      have short : rest.length ≤ size := by
        obtain empty | ⟨buf, sent, suffix⟩ := holds
        · have empty : rest = [] := empty
          simp [empty]
        · exact Nat.le_trans suffix.length_le (bound buf sent)
      simp only [WriteClientLoop.stopWork]
      omega
    | checkExit | tryRecv | stopped =>
      simp only [WriteClientLoop.stopWork]
      omega
  have start : s.Stopping size i w := ⟨exit, bound, w, there, WriteClientLoop.ending_refl s.tx w⟩
  obtain ⟨⟨-, -, w', there', more, written, last⟩, down⟩ := run_ranked (stopWorkOf size i) (moves i)
    (fun _ _ _ inv sends taken => (stopping_step inv sends taken).1)
    (fun _ _ _ inv sends taken => (stopping_step inv sends taken).2) start (along_of_forall sends) reached
  refine ⟨w', more, there', written, ?_, fun enough => ?_⟩
  · obtain ⟨-, -, rfl⟩ | ⟨-, last⟩ := last
    · exact .inl List.nil_prefix
    · exact last.shorter (List.prefix_append ..)
  · rw [stopWorkOf_eq there'] at down
    have finished : w'.stopWork size = 0 := by omega
    obtain ⟨rx, point, sofar⟩ := w'
    cases point with
    | stopped => rfl
    | checkExit | tryRecv | writing => simp [WriteClientLoop.stopWork] at finished

/-- The flag is set when the client is about to receive: it still writes a buffer that is sent after that. -/
theorem stops_after_one_buffer :
    ∃ s t w', run step (new 2) [.subscribe, .client 0 (.ok 0), .setExit] = some s ∧
      run step s (.send [1, 2] :: .send [3, 4] :: List.replicate 5 (.client 0 (.ok 1))) = some t ∧
      t.clients[0]? = some w' ∧ w'.written = [1, 2] ∧ w'.point = .stopped := by
  obtain ⟨w', more, there, -, -, stopped⟩ := stops_in_time 2 2 [.subscribe, .client 0 (.ok 0), .setExit]
    (.send [1, 2] :: .send [3, 4] :: List.replicate 5 (.client 0 (.ok 1))) _ _ 0 _ rfl rfl rfl (fun _ member => by cases member)
    (fun a member buf same => by
      subst same
      simp only [List.mem_cons, List.mem_replicate, Act.send.injEq, reduceCtorEq, and_false, or_false] at member
      rcases member with rfl | rfl <;> decide) rfl
  exact ⟨_, _, w', rfl, rfl, there, Option.some.inj (there.symm.trans rfl) ▸ rfl, stopped (by decide)⟩

end FanOut

end RtlTcp
