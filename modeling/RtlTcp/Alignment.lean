import Mathlib.Algebra.GroupWithZero.Nat
import Mathlib.Data.List.Chain
import RtlTcp.Lib.Transition
import RtlTcp.Stream

/-!
# I/Q alignment of what the clients get

A sample is two bytes, I and Q, and nothing in the stream says which is which: a client has to
count from the start. The broadcast channel hands out whole buffers, so a client that joins late
or is overtaken begins at the border between two buffers. `iq_aligned` says that it begins at the
border between two samples if the buffers at these places are cut there, as USB buffers always
are and reads from an upstream socket are not.
-/

namespace RtlTcp
set_option autoImplicit false
open ByteIo Transition Broadcast

/-! ## Runs of consecutive numbers -/

/-- The maximal runs of consecutive numbers in a list. -/
def runs : List Nat → List (List Nat)
  | [] => []
  | x :: xs =>
    match runs xs with
    | [] => [[x]]
    | run :: later => if run.head? = some (x + 1) then (x :: run) :: later else [x] :: run :: later

/-- Every run starts at an even number, and every run but the last has even length. -/
def EvenRuns (l : List Nat) : Prop :=
  (∀ run ∈ runs l, ∀ x ∈ run.head?, x % 2 = 0) ∧ ∀ run ∈ (runs l).dropLast, run.length % 2 = 0

/-- The first number is even, and a number that does not follow its predecessor is even and comes
after an odd one. -/
def Aligned (l : List Nat) : Prop :=
  (∀ x ∈ l.head?, x % 2 = 0) ∧ l.IsChain fun x y => y = x + 1 ∨ x % 2 = 1 ∧ y % 2 = 0

theorem runs_cons (x : Nat) (xs : List Nat) : ∃ run later, runs (x :: xs) = (x :: run) :: later := by
  simp only [runs]
  split
  · exact ⟨[], [], rfl⟩
  · split
    · exact ⟨_, _, rfl⟩
    · exact ⟨[], _, rfl⟩

theorem runs_ne_nil {l run : List Nat} (member : run ∈ runs l) : run ≠ [] := by
  induction l with
  | nil => cases member
  | cons x xs ih =>
    simp only [runs] at member
    split at member
    · simp at member
      simp [member]
    · rename_i first later shape
      rw [shape] at ih
      split at member
      · rcases List.mem_cons.1 member with rfl | inside
        · exact List.cons_ne_nil _ _
        · exact ih (List.mem_cons_of_mem _ inside)
      · rcases List.mem_cons.1 member with rfl | inside
        · exact List.cons_ne_nil _ _
        · exact ih inside

/-- Along the chain, every run but the last ends before an even number, and every run but the
first starts at one. -/
theorem runs_of_chain {l : List Nat} (chain : l.IsChain fun x y => y = x + 1 ∨ x % 2 = 1 ∧ y % 2 = 0) :
    (∀ run ∈ (runs l).tail, ∀ x ∈ run.head?, x % 2 = 0) ∧
      ∀ run ∈ (runs l).dropLast, ∀ x ∈ run.head?, (x + run.length) % 2 = 0 := by
  induction l with
  | nil => exact ⟨by simp [runs], by simp [runs]⟩
  | cons x xs ih =>
    cases xs with
    | nil => exact ⟨by simp [runs], by simp [runs]⟩
    | cons y ys =>
      obtain ⟨next, rest⟩ := List.isChain_cons_cons.1 chain
      obtain ⟨starts, ends⟩ := ih rest
      obtain ⟨run, later, shape⟩ := runs_cons y ys
      rw [shape] at starts ends
      by_cases follows : y = x + 1
      · have joined : runs (x :: y :: ys) = (x :: y :: run) :: later := by
          rw [runs, shape]
          simp [follows]
        rw [joined]
        refine ⟨starts, fun r member => ?_⟩
        cases later with
        | nil => simp at member
        | cons second later =>
          rw [List.dropLast_cons_cons] at member ends
          rcases List.mem_cons.1 member with rfl | inside
          · have first := ends (y :: run) (List.mem_cons_self ..) y (by simp)
            simp only [List.head?_cons, Option.mem_def, Option.some.injEq, List.length_cons] at first ⊢
            omega
          · exact ends r (List.mem_cons_of_mem _ inside)
      · obtain ⟨odd, even⟩ := next.resolve_left follows
        have cut : runs (x :: y :: ys) = [x] :: (y :: run) :: later := by
          rw [runs, shape]
          simp [follows]
        rw [cut]
        refine ⟨fun r member => ?_, fun r member => ?_⟩
        · rcases List.mem_cons.1 member with rfl | inside
          · simpa using even
          · exact starts r inside
        · rw [List.dropLast_cons_cons] at member
          rcases List.mem_cons.1 member with rfl | inside
          · simp only [List.head?_cons, Option.mem_def, Option.some.injEq, List.length_singleton]
            omega
          · exact ends r inside

theorem Aligned.evenRuns {l : List Nat} (aligned : Aligned l) : EvenRuns l := by
  cases l with
  | nil => exact ⟨by simp [runs], by simp [runs]⟩
  | cons x xs =>
    obtain ⟨even, chain⟩ := aligned
    obtain ⟨starts, ends⟩ := runs_of_chain chain
    obtain ⟨run, later, shape⟩ := runs_cons x xs
    have heads : ∀ r ∈ runs (x :: xs), ∀ y ∈ r.head?, y % 2 = 0 := by
      rw [shape] at starts ⊢
      intro r member
      rcases List.mem_cons.1 member with rfl | inside
      · exact even
      · exact starts r inside
    refine ⟨heads, fun r member => ?_⟩
    have inside := List.dropLast_subset _ member
    obtain ⟨y, ys, rfl⟩ := List.exists_cons_of_ne_nil (runs_ne_nil inside)
    have start := heads _ inside y (by simp)
    have stop := ends _ member y (by simp)
    omega

theorem Aligned.take {l : List Nat} (aligned : Aligned l) (n : Nat) : Aligned (l.take n) := by
  refine ⟨fun x first => aligned.1 x ?_, aligned.2.take n⟩
  cases n with
  | zero => simp at first
  | succ n =>
    cases l with
    | nil => simp at first
    | cons y ys => simpa using first

/-- Where one number may come next, a run that starts with it may. -/
theorem Aligned.extend {l : List Nat} {e : Nat} (aligned : Aligned (l ++ [e])) (n : Nat) :
    Aligned (l ++ List.range' e (n + 1)) := by
  obtain ⟨even, chain⟩ := aligned
  obtain ⟨before, -, link⟩ := List.isChain_append.1 chain
  refine ⟨?_, List.isChain_append.2 ⟨before, ?_, ?_⟩⟩
  · rwa [List.range'_succ, List.head?_append, List.head?_cons, ← List.head?_singleton, ← List.head?_append]
  · exact (List.isChain_range' e (n + 1) 1).imp fun _ _ => .inl
  · rwa [List.range'_succ]

/-- From an even place one may go on at another even place. -/
theorem Aligned.skip {l : List Nat} {e e' : Nat} (aligned : Aligned (l ++ [e])) (even : e % 2 = 0) (even' : e' % 2 = 0) :
    Aligned (l ++ [e']) := by
  obtain ⟨first, chain⟩ := aligned
  obtain ⟨before, -, link⟩ := List.isChain_append.1 chain
  refine ⟨fun x head => ?_, List.isChain_append.2 ⟨before, List.isChain_singleton _, fun x last y here => ?_⟩⟩
  · cases l with
    | nil =>
      cases head
      exact even'
    | cons y ys => exact first x head
  · cases here
    rcases link x last e rfl with follows | ⟨odd, -⟩
    · exact .inr ⟨by omega, even'⟩
    · exact .inr ⟨odd, even'⟩

/-! ## The bytes of the clients -/

/-- Where the buffer at a position starts in the source's stream of bytes. -/
def offset (sent : List (List UInt8)) (p : Nat) : Nat := ((sent.take p).map List.length).sum

namespace WriteClientLoop

/-- The source offsets of the bytes of the buffers that a client's loop has received. -/
def received (sent : List (List UInt8)) (w : WriteClientLoop) : List Nat :=
  w.rx.positions.flatMap fun p => List.range' (offset sent p) (sent.getD p []).length

/-- The source offsets of the bytes that the client has got. -/
def offsets (sent : List (List UInt8)) (w : WriteClientLoop) : List Nat := (w.received sent).take w.written.length

end WriteClientLoop

theorem offset_succ {sent : List (List UInt8)} {p : Nat} {buf : List UInt8} (there : sent[p]? = some buf) :
    offset sent (p + 1) = offset sent p + buf.length := by
  simp [offset, List.take_add_one, there]

theorem offset_send {sent : List (List UInt8)} {p : Nat} (old : p ≤ sent.length) (buf : List UInt8) :
    offset (sent ++ [buf]) p = offset sent p := by
  rw [offset, List.take_append_of_le_length old, offset]

/-- The bytes of a buffer are the source's bytes from its offset on. -/
theorem source_bytes {sent : List (List UInt8)} {p : Nat} {buf : List UInt8} (there : sent[p]? = some buf) :
    (List.range' (offset sent p) buf.length).map (fun i => sent.flatten.getD i 0) = buf := by
  have start : offset sent p = (sent.take p).flatten.length := by rw [offset, List.length_flatten]
  have split : sent.flatten = (sent.take p).flatten ++ (buf ++ (sent.drop (p + 1)).flatten) := by
    obtain ⟨inside, here⟩ := List.getElem?_eq_some_iff.1 there
    conv => lhs; rw [← List.take_append_drop p sent, List.drop_eq_getElem_cons inside, here]
    simp
  refine List.ext_getElem? fun i => ?_
  by_cases inside : i < buf.length
  · rw [List.getElem?_map, List.getElem?_range' inside, Option.map_some, start, split, List.getD_eq_getElem?_getD,
      Nat.one_mul, List.getElem?_append_right (Nat.le_add_right ..), Nat.add_sub_cancel_left,
      List.getElem?_append_left inside, List.getElem?_eq_getElem inside]
    rfl
  · rw [List.getElem?_eq_none (by simpa using inside), List.getElem?_eq_none (by omega)]

namespace WriteClientLoop

/-- The client has got the source's bytes at its offsets. -/
theorem Faithful.written_offsets {sent : List (List UInt8)} {w : WriteClientLoop} (h : w.Faithful sent) :
    w.written = (w.offsets sent).map fun i => sent.flatten.getD i 0 := by
  have all : (w.received sent).map (fun i => sent.flatten.getD i 0) = w.rx.values.flatten := by
    rw [received, List.map_flatMap, h.tracks.values_eq [], ← List.flatMap_def]
    refine List.flatMap_congr fun p member => ?_
    obtain ⟨⟨_, buf⟩, inside, rfl⟩ := List.mem_map.1 member
    have there := h.tracks.exact _ inside
    rw [List.getD_eq_getElem?_getD, there]
    exact source_bytes there
  have front := (List.prefix_append ..).trans h.output
  rw [← all] at front
  rw [offsets, List.map_take]
  exact List.prefix_iff_eq_take.1 front

/-- The offsets of what was received and of what comes next are aligned. -/
def InStep (sent : List (List UInt8)) (w : WriteClientLoop) : Prop :=
  Aligned (w.received sent ++ [offset sent w.rx.next])

theorem InStep.evenRuns {sent : List (List UInt8)} {w : WriteClientLoop} (h : w.InStep sent) :
    EvenRuns (w.offsets sent) := by
  have front : w.offsets sent = (w.received sent ++ [offset sent w.rx.next]).take
      (min w.written.length (w.received sent).length) := by
    rw [List.take_append_of_le_length (Nat.min_le_right ..), offsets, ← List.take_take, List.take_length]
  rw [front]
  exact (h.take _).evenRuns

/-- A send changes nothing for a client. -/
theorem InStep.send {sent : List (List UInt8)} {w : WriteClientLoop} (tracks : w.rx.Tracks sent) (h : w.InStep sent)
    (buf : List UInt8) : w.InStep (sent ++ [buf]) := by
  have same : w.received (sent ++ [buf]) = w.received sent := by
    refine List.flatMap_congr fun p member => ?_
    have inside : p < sent.length := Nat.lt_of_lt_of_le (tracks.within p member).2 tracks.behind
    rw [offset_send (Nat.le_of_lt inside), List.getD_eq_getElem?_getD, List.getElem?_append_left inside,
      ← List.getD_eq_getElem?_getD]
  rw [InStep, same, offset_send tracks.behind]
  exact h

/-- What a step does to a client's receiver: nothing, or it is a `try_recv`. -/
theorem step_rx (tx : Channel (List UInt8)) (shouldExit : Bool) (w : WriteClientLoop) (result : Except ErrorKind Nat) :
    (w.step tx shouldExit result).rx = w.rx ∨
      w.point = .tryRecv ∧ (w.step tx shouldExit result).rx = (w.rx.tryRecv tx).2 := by
  obtain ⟨rx, point, written⟩ := w
  cases point with
  | checkExit => exact .inl rfl
  | tryRecv =>
    refine .inr ⟨rfl, ?_⟩
    simp only [step]
    split <;> simp_all
  | writing rest =>
    refine .inl ?_
    cases rest with
    | nil => rfl
    | cons b bs =>
      simp only [step]
      split
      · rfl
      · rfl
      · split <;> rfl
  | stopped => exact .inl rfl

/-- A step keeps a client aligned unless it is overtaken at the wrong place. -/
theorem InStep.step {tx : Channel (List UInt8)} {w : WriteClientLoop} (h : w.InStep tx.sent)
    (cuts : w.point = .tryRecv → w.rx.next < tx.oldest →
      offset tx.sent w.rx.next % 2 = 0 ∧ offset tx.sent tx.oldest % 2 = 0)
    (shouldExit : Bool) (result : Except ErrorKind Nat) : (w.step tx shouldExit result).InStep tx.sent := by
  unfold InStep received at h ⊢
  rcases step_rx tx shouldExit w result with same | ⟨asks, rx⟩
  · rw [same]
    exact h
  · rw [rx]
    unfold Receiver.tryRecv
    split
    · rename_i overtaken
      obtain ⟨here, there⟩ := cuts asks overtaken
      exact h.skip here there
    · split
      · rename_i buf there
        have longer := h.extend buf.length
        rw [← List.range'_append_1, ← List.append_assoc] at longer
        simp only [Receiver.positions, List.map_append, List.map_singleton, List.flatMap_append, List.flatMap_singleton,
          offset_succ there, List.getD_eq_getElem?_getD, there, Option.getD_some]
        exact longer
      · exact h

end WriteClientLoop

/-! ## Whole runs -/

namespace FanOut

/-- Every client has got the source's bytes at its offsets, and these are cut between samples. -/
def IqAligned (s : FanOut) : Prop :=
  ∀ w ∈ s.clients, w.written = (w.offsets s.tx.sent).map (fun i => s.tx.sent.flatten.getD i 0) ∧
    EvenRuns (w.offsets s.tx.sent)

/-- A client subscribes between two samples, and a client that is overtaken goes from a place
between two samples to another one. -/
def CutsBetweenSamples (s : FanOut) : Act → Prop
  | .subscribe => offset s.tx.sent s.tx.sent.length % 2 = 0
  | .client i _ => ∀ w ∈ s.clients[i]?, w.point = .tryRecv → w.rx.next < s.tx.oldest →
      offset s.tx.sent w.rx.next % 2 = 0 ∧ offset s.tx.sent s.tx.oldest % 2 = 0
  | _ => True

/-- The source sends whole samples, as `read_async` does. -/
def SendsSamples (_ : FanOut) : Act → Prop
  | .send buf => buf.length % 2 = 0
  | _ => True

/-- Every client is faithful and in step. -/
def AlignInv (s : FanOut) : Prop := s.Inv ∧ ∀ w ∈ s.clients, w.InStep s.tx.sent

theorem AlignInv.step {s t : FanOut} {a : Act} (inv : s.AlignInv) (cuts : s.CutsBetweenSamples a)
    (taken : s.step a = some t) : t.AlignInv := by
  refine ⟨inv.1.step taken, ?_⟩
  obtain ⟨faithful, inStep⟩ := inv
  cases a with
  | send buf =>
    simp only [FanOut.step] at taken
    split at taken
    · cases taken
    · cases taken
      exact fun w member => (inStep w member).send (faithful w member).tracks buf
  | close => cases taken; exact inStep
  | setExit => cases taken; exact inStep
  | subscribe =>
    simp only [FanOut.step] at taken
    split at taken
    · cases taken
    · cases taken
      intro w member
      rcases List.mem_append.1 member with old | new
      · exact inStep w old
      · cases List.mem_singleton.1 new
        exact ⟨fun x head => by cases head; exact cuts, List.isChain_singleton _⟩
  | client i result =>
    simp only [FanOut.step] at taken
    split at taken
    · rename_i w there
      cases taken
      intro w' member
      rcases List.mem_or_eq_of_mem_set member with old | rfl
      · exact inStep w' old
      · exact (inStep w (List.mem_of_getElem? there)).step (cuts w there) s.shouldExit result
    · cases taken

theorem alignInv_new (capacity : Nat) : (new capacity).AlignInv :=
  ⟨inv_new capacity, fun w member => by cases member⟩

/-- Whole samples put every border between two samples. -/
theorem offset_even {sent : List (List UInt8)} (samples : ∀ buf ∈ sent, buf.length % 2 = 0) (p : Nat) :
    offset sent p % 2 = 0 := by
  induction sent generalizing p with
  | nil => simp [offset]
  | cons buf sent ih =>
    cases p with
    | zero => simp [offset]
    | succ p =>
      have first := samples buf (List.mem_cons_self ..)
      have rest := ih (fun b member => samples b (List.mem_cons_of_mem _ member)) p
      simp only [offset, List.take_succ_cons, List.map_cons, List.sum_cons] at rest ⊢
      omega

/-- Whole samples stay whole samples. -/
theorem step_samples {s t : FanOut} {a : Act} (samples : ∀ buf ∈ s.tx.sent, buf.length % 2 = 0)
    (sends : s.SendsSamples a) (taken : s.step a = some t) : ∀ buf ∈ t.tx.sent, buf.length % 2 = 0 := by
  cases a with
  | send buf =>
    simp only [FanOut.step] at taken
    split at taken
    · cases taken
    · cases taken
      intro b member
      rcases List.mem_append.1 member with old | new
      · exact samples b old
      · rw [List.mem_singleton.1 new]
        exact sends
  | close => cases taken; exact samples
  | setExit => cases taken; exact samples
  | subscribe =>
    simp only [FanOut.step] at taken
    split at taken
    · cases taken
    · cases taken
      exact samples
  | client i result =>
    simp only [FanOut.step] at taken
    split at taken
    · cases taken
      exact samples
    · cases taken

theorem cuts_of_samples {s : FanOut} (samples : ∀ buf ∈ s.tx.sent, buf.length % 2 = 0) (a : Act) :
    s.CutsBetweenSamples a := by
  cases a with
  | subscribe => exact offset_even samples _
  | client i result => exact fun w _ _ _ => ⟨offset_even samples _, offset_even samples _⟩
  | _ => trivial

/-- **I/Q alignment**, for every capacity, any number of clients and every interleaving. In every
run whose clients subscribe between two samples and are overtaken only from and to places between
two samples, every state has each client's bytes in runs of the source's bytes that start at an
even offset and, but for the last, have even length. So it is in every run whose source sends
whole samples, whenever clients subscribe and however they lag. -/
theorem iq_aligned (capacity : Nat) (acts : List Act) :
    (Along step CutsBetweenSamples (new capacity) acts → Always step IqAligned (new capacity) acts) ∧
      (Along step SendsSamples (new capacity) acts → Always step IqAligned (new capacity) acts) := by
  constructor
  · intro cuts
    refine (always_of_along (I := AlignInv) ?_ (alignInv_new capacity) cuts).imp fun s inv w member => ?_
    · exact fun s a t inv cut taken => inv.step cut taken
    · exact ⟨(inv.1 w member).written_offsets, (inv.2 w member).evenRuns⟩
  · intro samples
    refine (always_of_along (I := fun s => s.AlignInv ∧ ∀ buf ∈ s.tx.sent, buf.length % 2 = 0) ?_
      ⟨alignInv_new capacity, fun buf member => by cases member⟩ samples).imp fun s inv w member => ?_
    · rintro s a t ⟨inv, whole⟩ sends taken
      exact ⟨inv.step (cuts_of_samples whole a) taken, step_samples whole sends taken⟩
    · exact ⟨(inv.1.1 w member).written_offsets, (inv.1.2 w member).evenRuns⟩

/-- Three reads of an upstream socket, the first of them a single byte; a client joins after it and
writes the second one. -/
def oddRead : List Act :=
  [.send [1], .subscribe, .send [2, 3], .send [4], .client 0 (.ok 0), .client 0 (.ok 0), .client 0 (.ok 2)]

/-- The client starts with a Q. -/
theorem odd_read_swaps_iq :
    (run step (new defaultBroadcastCapacity) oddRead).map (fun t => t.clients.map fun w => (w.written, w.offsets t.tx.sent)) =
        some [([2, 3], [1, 2])] ∧
      ¬Always step IqAligned (new defaultBroadcastCapacity) oddRead := by
  have sent : (run step (new defaultBroadcastCapacity) oddRead).map (fun t =>
      t.clients.map fun w => (w.written, w.offsets t.tx.sent)) = some [([2, 3], [1, 2])] := by decide
  refine ⟨sent, fun aligned => ?_⟩
  obtain ⟨t, reached, data⟩ := Option.map_eq_some_iff.1 sent
  obtain ⟨w, among, got⟩ := List.mem_map.1 (data ▸ List.mem_singleton.2 rfl)
  obtain ⟨-, offsets⟩ := Prod.mk.inj got
  have even := (aligned.last reached w among).2.1
  rw [offsets] at even
  revert even
  decide

instance (s : FanOut) (a : Act) : Decidable (s.CutsBetweenSamples a) :=
  match a with
  | .subscribe => inferInstanceAs (Decidable (offset s.tx.sent s.tx.sent.length % 2 = 0))
  | .client i _ => inferInstanceAs (Decidable (∀ w ∈ s.clients[i]?, w.point = .tryRecv → w.rx.next < s.tx.oldest →
      offset s.tx.sent w.rx.next % 2 = 0 ∧ offset s.tx.sent s.tx.oldest % 2 = 0))
  | .send _ | .close | .setExit => isTrue trivial

/-- Reads of two, one and one bytes: the client joins after the first, and is overtaken by the
other two, which together are a sample. -/
def evenCuts : List Act :=
  [.send [1, 2], .subscribe, .send [3], .send [4], .send [5, 6], .client 0 (.ok 0), .client 0 (.ok 0),
   .client 0 (.ok 0), .client 0 (.ok 0), .client 0 (.ok 2)]

theorem even_cuts_aligned :
    (run step (new 1) evenCuts).map (fun t => t.clients.map fun w => (w.written, w.rx.lags)) = some [([5, 6], [2])] ∧
      Always step IqAligned (new 1) evenCuts :=
  ⟨by decide, (iq_aligned 1 evenCuts).1 (by decide)⟩

end FanOut

end RtlTcp
