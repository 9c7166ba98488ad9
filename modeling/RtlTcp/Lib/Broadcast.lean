import Mathlib.Algebra.GroupWithZero.Nat
import Mathlib.Data.List.Basic

/-!
# A broadcast channel with bounded retention

Every value sent gets the next position and the channel retains the last `capacity` of them.
A receiver is a cursor: it receives the value at its position, or learns by how many positions
it was overtaken and goes on at the oldest retained one. `Receiver.Tracks` ties what a receiver
has seen to the values sent; sends, subscriptions and receives keep it.
-/

namespace Broadcast
set_option autoImplicit false

variable {α : Type}

structure Channel (α : Type) where
  capacity : Nat
  sent : List α
  closed : Bool
  deriving DecidableEq

def Channel.new (capacity : Nat) : Channel α := ⟨capacity, [], false⟩

/-- The position of the oldest value that is still retained. -/
def Channel.oldest (c : Channel α) : Nat := c.sent.length - c.capacity

def Channel.send (c : Channel α) (value : α) : Channel α := { c with sent := c.sent ++ [value] }

/-- The answers of `try_recv`. -/
inductive Recv (α : Type) where
  | ok (value : α)
  | lagged (n : Nat)
  | empty
  | closed
  deriving DecidableEq

/-- A receiver: where it subscribed, its cursor, and the history of its answers. -/
structure Receiver (α : Type) where
  start : Nat
  next : Nat
  received : List (Nat × α)
  lags : List Nat
  deriving DecidableEq

/-- `Sender::subscribe` -/
def Channel.subscribe (c : Channel α) : Receiver α := ⟨c.sent.length, c.sent.length, [], []⟩

/-- `Receiver::try_recv` -/
def Receiver.tryRecv (c : Channel α) (r : Receiver α) : Recv α × Receiver α :=
  if r.next < c.oldest then
    (.lagged (c.oldest - r.next), { r with next := c.oldest, lags := r.lags ++ [c.oldest - r.next] })
  else
    match c.sent[r.next]? with
    | some value => (.ok value, { r with next := r.next + 1, received := r.received ++ [(r.next, value)] })
    | none => (if c.closed then .closed else .empty, r)

/-- A receiver that has caught up gets the next value. -/
theorem Receiver.tryRecv_send {c : Channel α} {r : Receiver α} (caught : r.next = c.sent.length) (room : 0 < c.capacity)
    (value : α) :
    r.tryRecv (c.send value) =
      (.ok value, { r with next := r.next + 1, received := r.received ++ [(r.next, value)] }) := by
  have kept : ¬r.next < (c.send value).oldest := by
    simp only [Channel.oldest, Channel.send, List.length_append, List.length_singleton]
    omega
  have there : (c.send value).sent[r.next]? = some value := by
    rw [caught, Channel.send, List.getElem?_concat_length]
  simp only [tryRecv, if_neg kept, there]

namespace Receiver

/-- The values that a receiver still gets if nothing more is sent. -/
def pending (c : Channel α) (r : Receiver α) : List α := c.sent.drop (max r.next c.oldest)

/-- **What an answer does to the values to come.** A receiver that was overtaken only learns of it; one
that was not gets the first of them; and one for which there is none is told so. -/
theorem tryRecv_pending (c : Channel α) (r : Receiver α) :
    (r.next < c.oldest ∧ ∃ n r', r.tryRecv c = (.lagged n, r') ∧ r'.next = c.oldest ∧ r'.pending c = r.pending c) ∨
      (c.oldest ≤ r.next ∧ ∃ value r', r.tryRecv c = (.ok value, r') ∧ c.oldest ≤ r'.next ∧
        r.pending c = value :: r'.pending c) ∨
      (r.pending c = [] ∧ r.tryRecv c = (if c.closed then .closed else .empty, r)) := by
  rcases Nat.lt_or_ge r.next c.oldest with overtaken | abreast
  · refine .inl ⟨overtaken, c.oldest - r.next, _, by rw [tryRecv, if_pos overtaken], rfl, ?_⟩
    simp only [pending, Nat.max_self, Nat.max_eq_right (Nat.le_of_lt overtaken)]
  · have here : max r.next c.oldest = r.next := Nat.max_eq_left abreast
    have kept : ¬r.next < c.oldest := Nat.not_lt.2 abreast
    cases there : c.sent[r.next]? with
    | some value =>
      refine .inr (.inl ⟨abreast, value, _, by simp only [tryRecv, if_neg kept, there]; rfl, ?_, ?_⟩)
      · exact Nat.le_succ_of_le abreast
      · obtain ⟨inside, rfl⟩ := List.getElem?_eq_some_iff.1 there
        simp only [pending, here, Nat.max_eq_left (Nat.le_succ_of_le abreast)]
        exact List.drop_eq_getElem_cons inside
    | none =>
      refine .inr (.inr ⟨?_, by simp only [tryRecv, if_neg kept, there]⟩)
      rw [pending, here, List.drop_eq_nil_iff]
      exact List.getElem?_eq_none_iff.1 there

/-- The positions whose values the receiver got. -/
def positions (r : Receiver α) : List Nat := r.received.map Prod.fst

/-- The values it got, in order. -/
def values (r : Receiver α) : List α := r.received.map Prod.snd

/-- The positions since the subscription that it did not get. -/
def skipped (r : Receiver α) : List Nat :=
  (List.range' r.start (r.next - r.start)).filter (· ∉ r.positions)

/-- What a receiver has seen of the values sent so far. -/
structure Tracks (sent : List α) (r : Receiver α) : Prop where
  begun : r.start ≤ r.next
  behind : r.next ≤ sent.length
  exact : ∀ p ∈ r.received, sent[p.1]? = some p.2
  increasing : r.positions.Pairwise (· < ·)
  within : ∀ p ∈ r.positions, r.start ≤ p ∧ p < r.next
  counted : r.positions.length + r.lags.sum = r.next - r.start

theorem tracks_subscribe (c : Channel α) : c.subscribe.Tracks c.sent where
  begun := Nat.le_refl _
  behind := Nat.le_refl _
  exact := by simp [Channel.subscribe]
  increasing := by simp [Channel.subscribe, positions]
  within := by simp [Channel.subscribe, positions]
  counted := by simp [Channel.subscribe, positions]

/-- A send changes nothing for the values that were there. -/
theorem Tracks.send {c : Channel α} {r : Receiver α} (h : r.Tracks c.sent) (value : α) : r.Tracks (c.send value).sent where
  begun := h.begun
  behind := by have := h.behind; simp only [Channel.send, List.length_append]; omega
  exact p member := by
    have here := h.exact p member
    have inside := (List.getElem?_eq_some_iff.1 here).1
    rw [Channel.send, List.getElem?_append_left inside, here]
  increasing := h.increasing
  within := h.within
  counted := h.counted

theorem Tracks.tryRecv {c : Channel α} {r : Receiver α} (h : r.Tracks c.sent) : (r.tryRecv c).2.Tracks c.sent := by
  have begun := h.begun
  have counted := h.counted
  unfold Receiver.tryRecv
  split
  · rename_i overtaken
    have back : c.oldest ≤ c.sent.length := Nat.sub_le ..
    refine ⟨?_, back, h.exact, h.increasing, fun p member => ?_, ?_⟩
    · show r.start ≤ c.oldest
      omega
    · have here := h.within p member
      exact ⟨here.1, Nat.lt_trans here.2 overtaken⟩
    · simp only [positions, List.sum_append, List.sum_singleton] at counted ⊢
      omega
  · split
    · rename_i value there
      have inside := (List.getElem?_eq_some_iff.1 there).1
      have positions' : ({ r with next := r.next + 1, received := r.received ++ [(r.next, value)] } : Receiver α).positions
          = r.positions ++ [r.next] := by simp [positions]
      refine ⟨Nat.le_succ_of_le begun, inside, fun p member => ?_, ?_, fun p member => ?_, ?_⟩
      · rcases List.mem_append.1 member with old | new
        · exact h.exact p old
        · cases List.mem_singleton.1 new
          exact there
      · rw [positions', List.pairwise_append]
        refine ⟨h.increasing, List.pairwise_singleton .., fun p member q last => ?_⟩
        rw [List.mem_singleton.1 last]
        exact (h.within p member).2
      · rw [positions'] at member
        rcases List.mem_append.1 member with old | new
        · have here := h.within p old
          exact ⟨here.1, Nat.lt_succ_of_lt here.2⟩
        · rw [List.mem_singleton.1 new]
          exact ⟨begun, Nat.lt_succ_self _⟩
      · rw [positions', List.length_append, List.length_singleton]
        show r.positions.length + 1 + r.lags.sum = r.next + 1 - r.start
        omega
    · exact h

theorem Tracks.filter_positions {sent : List α} {r : Receiver α} (h : r.Tracks sent) :
    (List.range' r.start (r.next - r.start)).filter (· ∈ r.positions) = r.positions := by
  have sorted : (List.range' r.start (r.next - r.start)).Pairwise (· < ·) := List.pairwise_lt_range' ..
  refine List.Perm.eq_of_pairwise (fun a b _ _ lt lt' => absurd lt (Nat.lt_asymm lt')) (sorted.filter _) h.increasing ?_
  refine (List.perm_ext_iff_of_nodup ?_ ?_).2 fun p => ?_
  · exact (sorted.filter _).imp Nat.ne_of_lt
  · exact h.increasing.imp Nat.ne_of_lt
  · simp only [List.mem_filter, List.mem_range'_1, decide_eq_true_eq, and_iff_right_iff_imp]
    intro member
    have here := h.within p member
    omega

/-- The positions skipped are as many as the lags say. -/
theorem Tracks.length_skipped {sent : List α} {r : Receiver α} (h : r.Tracks sent) :
    r.skipped.length = r.lags.sum := by
  have split := List.length_eq_length_filter_add (l := List.range' r.start (r.next - r.start)) (· ∈ r.positions)
  have counted := h.counted
  rw [h.filter_positions, List.length_range'] at split
  simp only [skipped, decide_not]
  omega

/-- The values are those sent at the positions. -/
theorem Tracks.values_eq {sent : List α} {r : Receiver α} (h : r.Tracks sent) (default : α) :
    r.values = r.positions.map fun p => sent.getD p default := by
  rw [values, positions, List.map_map]
  refine List.map_congr_left fun p member => ?_
  rw [Function.comp_apply, List.getD_eq_getElem?_getD, h.exact p member, Option.getD_some]

/-- Values at increasing positions are a subsequence. -/
theorem sublist_of_positions {sent : List α} {received : List (Nat × α)} {k : Nat}
    (increasing : (received.map Prod.fst).Pairwise (· < ·)) (there : ∀ p ∈ received, k ≤ p.1 ∧ sent[p.1]? = some p.2) :
    (received.map Prod.snd).Sublist (sent.drop k) := by
  induction received generalizing k with
  | nil => exact List.nil_sublist _
  | cons first later ih =>
    obtain ⟨p, value⟩ := first
    obtain ⟨after, ordered⟩ := List.pairwise_cons.1 increasing
    obtain ⟨since, here⟩ := there (p, value) List.mem_cons_self
    have rest : (later.map Prod.snd).Sublist (sent.drop (p + 1)) := by
      refine ih ordered fun q member => ⟨?_, (there q (List.mem_cons_of_mem _ member)).2⟩
      exact after q.1 (List.mem_map_of_mem member)
    obtain ⟨inside, same⟩ := List.getElem?_eq_some_iff.1 here
    have whole : (value :: later.map Prod.snd).Sublist (sent.drop p) := by
      rw [List.drop_eq_getElem_cons inside, same]
      exact rest.cons_cons _
    exact whole.trans (List.drop_sublist_drop_left sent since)

/-- What a receiver got is a subsequence of the values sent. -/
theorem Tracks.values_sublist {sent : List α} {r : Receiver α} (h : r.Tracks sent) : r.values.Sublist sent :=
  sublist_of_positions (k := 0) h.increasing fun p member => ⟨Nat.zero_le _, h.exact p member⟩

/-- A receiver that was never overtaken got every position since its subscription. -/
theorem Tracks.contiguous {sent : List α} {r : Receiver α} (h : r.Tracks sent) (never : r.lags = []) :
    r.positions = List.range' r.start (r.next - r.start) := by
  have complete : r.skipped = [] := List.eq_nil_of_length_eq_zero (by rw [h.length_skipped, never]; rfl)
  rw [skipped, List.filter_eq_nil_iff] at complete
  rw [← h.filter_positions, List.filter_eq_self]
  intro p member
  simpa using complete p member

/-- Two receivers got the same value at a position that both got. -/
theorem Tracks.agree {sent : List α} {r r' : Receiver α} (h : r.Tracks sent) (h' : r'.Tracks sent) {p : Nat}
    {value value' : α} (mine : (p, value) ∈ r.received) (theirs : (p, value') ∈ r'.received) : value = value' :=
  Option.some.inj ((h.exact _ mine).symm.trans (h'.exact _ theirs))

/-- What it got is a segment of the values sent. -/
theorem Tracks.values_contiguous {sent : List α} {r : Receiver α} (h : r.Tracks sent) (never : r.lags = []) :
    r.values = (sent.drop r.start).take (r.next - r.start) := by
  have behind := h.behind
  have begun := h.begun
  refine List.ext_getElem? fun i => ?_
  by_cases inside : i < r.next - r.start
  · have within : r.start + i < sent.length := by omega
    rw [h.values_eq (sent.get ⟨r.start + i, within⟩), h.contiguous never, List.getElem?_map, List.getElem?_range' inside,
      List.getElem?_take_of_lt inside, List.getElem?_drop, List.getElem?_eq_getElem within]
    simp [List.getD_eq_getElem?_getD, List.getElem?_eq_getElem within]
  · have size : r.values.length = r.next - r.start := by
      have counted := h.counted
      rw [never] at counted
      simpa [values, positions] using counted
    rw [List.getElem?_eq_none (by omega), List.getElem?_eq_none (by rw [List.length_take]; omega)]

end Receiver

end Broadcast
