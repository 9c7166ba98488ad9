import RtlTcp.Lib.Greedy
import RtlTcp.Control

/-!
# `control.rs`: the rate limiter over a run

One limiter and the clock readings of its calls, in the order of the calls. Behind `check` is a
greedy choice: `checks_eq` says that the limiter takes the readings that `Greedy` takes.
-/

namespace RtlTcp
set_option autoImplicit false

namespace RateLimiter

/-- One `check` for each reading of the clock: the answers, and the limiter afterwards. -/
def checks (r : RateLimiter) : List Nat → List Bool × RateLimiter
  | [] => ([], r)
  | now :: later => ((r.check now).1 :: ((r.check now).2.checks later).1, ((r.check now).2.checks later).2)

/-- The readings of the calls that were accepted. -/
def accepted (r : RateLimiter) (readings : List Nat) : List Nat :=
  ((readings.zip (r.checks readings).1).filter (·.2)).map (·.1)

/-- At least the least interval after the last command. -/
def due (minInterval last now : Nat) : Bool := decide (last + minInterval ≤ now)

/-- A call is accepted when it is due; on a clock that steps back, nothing is. -/
theorem check_eq {r : RateLimiter} (positive : 0 < r.minInterval) (now : Nat) :
    r.check now =
      if due r.minInterval r.lastCommand now then (true, { r with lastCommand := now }) else (false, r) := by
  have same : r.minInterval ≤ now - r.lastCommand ↔ r.lastCommand + r.minInterval ≤ now := by omega
  simp only [check, due, decide_eq_true_eq, same]

theorem check_rejects {r : RateLimiter} (positive : 0 < r.minInterval) (now : Nat) :
    (r.check now).1 = false ↔ now < r.lastCommand + r.minInterval := by
  rw [check_eq positive]
  by_cases here : r.lastCommand + r.minInterval ≤ now
  · simp [due, here]
  · simp [due, here, Nat.lt_of_not_le here]

theorem accepted_cons (r : RateLimiter) (now : Nat) (later : List Nat) :
    r.accepted (now :: later) =
      (if (r.check now).1 then [now] else []) ++ (r.check now).2.accepted later := by
  simp only [accepted, checks, List.zip_cons_cons, List.filter_cons]
  split <;> rfl

/-- **The limiter is a greedy choice**, and its last command is the last reading it has taken. -/
theorem checks_eq {r : RateLimiter} (positive : 0 < r.minInterval) (readings : List Nat) :
    (r.checks readings).1 = Greedy.choose (due r.minInterval) r.lastCommand readings ∧
      r.accepted readings = Greedy.taken (due r.minInterval) r.lastCommand readings ∧
      (r.checks readings).2 = { r with lastCommand := (r.accepted readings).getLastD r.lastCommand } := by
  induction readings generalizing r with
  | nil => exact ⟨rfl, rfl, rfl⟩
  | cons now later ih =>
    rw [accepted_cons]
    simp only [checks, check_eq positive, Greedy.choose, Greedy.taken]
    split
    · obtain ⟨choices, takes, state⟩ := ih (r := { r with lastCommand := now }) positive
      refine ⟨congrArg _ choices, congrArg _ takes, state.trans ?_⟩
      exact congrArg (fun last => { r with lastCommand := last }) List.getLastD_cons.symm
    · obtain ⟨choices, takes, state⟩ := ih positive
      exact ⟨congrArg _ choices, takes, state⟩

end RateLimiter

/-- **The rate limiter is exact.** For every least interval above zero and every sequence of clock
readings, on a clock that may step back: a call is rejected exactly when its reading is less than
the interval after the last command, which is the last accepted reading; accepted readings increase
by at least the interval; a closed window of length `T` holds at most `T / minInterval + 1` of them;
and without some of the rejected calls the others are decided as before. -/
theorem rate_limiter_exact (r : RateLimiter) (positive : 0 < r.minInterval) :
    (∀ before now, let r' := (r.checks before).2
      r'.minInterval = r.minInterval ∧ r'.lastCommand = (r.accepted before).getLastD r.lastCommand ∧
        ((r'.check now).1 = false ↔ now < r'.lastCommand + r.minInterval)) ∧
    (∀ readings, (r.accepted readings).Pairwise fun a b => a < b ∧ r.minInterval ≤ b - a) ∧
    (∀ readings lo T,
      ((r.accepted readings).filter fun t => lo ≤ t ∧ t ≤ lo + T).length ≤ T / r.minInterval + 1) ∧
    ∀ calls : List (Nat × Bool), let decided := calls.zip (r.checks (calls.map (·.1))).1
      (∀ p ∈ decided, p.1.2 = true → p.2 = false) →
        (r.checks ((calls.filter (!·.2)).map (·.1))).1 = (decided.filter (!·.1.2)).map (·.2) := by
  have apart : ∀ readings, (r.accepted readings).Pairwise fun a b => a + r.minInterval ≤ b := by
    intro readings
    rw [(RateLimiter.checks_eq positive readings).2.1]
    have pairs := Greedy.pairwise_taken (RateLimiter.due r.minInterval) (fun a b c first second => by
      simp only [RateLimiter.due, decide_eq_true_eq] at first second ⊢
      omega) r.lastCommand readings
    refine (List.pairwise_cons.1 pairs).2.imp fun {a b} far => ?_
    simpa only [RateLimiter.due, decide_eq_true_eq] using far
  refine ⟨fun before now => ?_, fun readings => ?_, fun readings lo T => ?_, fun calls => ?_⟩
  · obtain ⟨-, -, state⟩ := RateLimiter.checks_eq positive before
    dsimp only
    rw [state]
    refine ⟨rfl, rfl, ?_⟩
    exact RateLimiter.check_rejects (r := { r with lastCommand := (r.accepted before).getLastD r.lastCommand }) positive now
  · exact (apart readings).imp fun {a b} far => by omega
  · refine Greedy.length_le_of_apart positive lo ((apart readings).filter _) fun t member => ?_
    simpa using (List.mem_filter.1 member).2
  · dsimp only
    rw [(RateLimiter.checks_eq positive _).1, (RateLimiter.checks_eq positive _).1]
    exact Greedy.choose_unmarked r.lastCommand calls

/-- The limiter of the control threads, on a clock that steps back once. -/
theorem rate_limiter_on_backward_clock :
    let r := RateLimiter.new commandRateLimitInterval 100000000 100000000
    r.accepted [100000000, 20000000, 120000000, 160000000] = [100000000, 160000000] ∧
      ((r.accepted [100000000, 20000000, 120000000, 160000000]).filter fun t =>
        100000000 ≤ t ∧ t ≤ 100000000 + 60000000).length ≤ 60000000 / commandRateLimitInterval + 1 := by
  refine ⟨by decide, ?_⟩
  exact (rate_limiter_exact (.new commandRateLimitInterval 100000000 100000000) (by decide)).2.2.1
    [100000000, 20000000, 120000000, 160000000] 100000000 60000000

end RtlTcp
