/-!
# Runs of a labelled transition function

A system is a partial function `step` from a state and a label to the next state; a
label that is not enabled has no next state. Threads, their interleavings and the
environment's choices are all in the labels, so a schedule is a list of them.
`Always` says that a property holds in every state a run passes through, and `Along`
that every step of the run is taken in a state that allows it. The rules below derive
the first from the second and from what one step preserves. A thread that runs on its own
is a `loop`: a body that goes on or leaves, fed with what the environment answers in each turn.
-/

namespace Transition
set_option autoImplicit false

variable {σ α : Type} (step : σ → α → Option σ)

/-- The state after the labels of a run, provided each of them is enabled. -/
def run : σ → List α → Option σ
  | s, [] => some s
  | s, a :: as =>
    match step s a with
    | some s' => run s' as
    | none => none

/-- `P` holds in every state the run passes through, the first one included. -/
def Always (P : σ → Prop) : σ → List α → Prop
  | s, [] => P s
  | s, a :: as => P s ∧ ∀ s', step s a = some s' → Always P s' as

/-- Every step the run takes is taken in a state where `ok` allows its label. -/
def Along (ok : σ → α → Prop) : σ → List α → Prop
  | _, [] => True
  | s, a :: as => ∀ s', step s a = some s' → ok s a ∧ Along ok s' as

instance decidableAlong (ok : σ → α → Prop) [∀ s a, Decidable (ok s a)] : ∀ s as, Decidable (Along step ok s as)
  | _, [] => isTrue trivial
  | s, a :: as =>
    match taken : step s a with
    | none => isTrue fun s' h => by rw [taken] at h; cases h
    | some s' =>
      match decidableAlong ok s' as with
      | isTrue later =>
        if here : ok s a then isTrue fun s'' h => by rw [taken] at h; cases h; exact ⟨here, later⟩
        else isFalse fun along => here (along s' taken).1
      | isFalse later => isFalse fun along => later (along s' taken).2

variable {step}

theorem run_cons {s s' : σ} {a : α} {as : List α} (h : step s a = some s') :
    run step s (a :: as) = run step s' as := by
  simp only [run, h]

/-- A run that starts with `a` takes that step first. -/
theorem run_cons_inv {s t : σ} {a : α} {as : List α} (h : run step s (a :: as) = some t) :
    ∃ s', step s a = some s' ∧ run step s' as = some t := by
  simp only [run] at h
  split at h
  · exact ⟨_, ‹_›, h⟩
  · cases h

/-- A run goes on where it has arrived. -/
theorem run_append {s t : σ} {as bs : List α} (reached : run step s as = some t) :
    run step s (as ++ bs) = run step t bs := by
  induction as generalizing s with
  | nil =>
    cases reached
    rfl
  | cons a as ih =>
    obtain ⟨s', taken, rest⟩ := run_cons_inv reached
    rw [List.cons_append, run_cons taken, ih rest]

/-- **Invariants of conditional runs.** What holds at the start and is kept by every
allowed step holds in every state of a run all of whose steps are allowed. -/
theorem always_of_along {I : σ → Prop} {ok : σ → α → Prop}
    (keep : ∀ s a s', I s → ok s a → step s a = some s' → I s') :
    ∀ {as : List α} {s : σ}, I s → Along step ok s as → Always step I s as := by
  intro as
  induction as with
  | nil => intro s start _; exact start
  | cons a as ih =>
    intro s start along
    refine ⟨start, fun s' taken => ?_⟩
    obtain ⟨allowed, rest⟩ := along s' taken
    exact ih (keep s a s' start allowed taken) rest

/-- A run without conditions. -/
theorem along_trivial {s : σ} {as : List α} : Along step (fun _ _ => True) s as := by
  induction as generalizing s with
  | nil => trivial
  | cons a as ih => exact fun s' _ => ⟨trivial, ih⟩

/-- Two conditions that agree on the steps that can be taken allow the same runs. -/
theorem along_congr {ok ok' : σ → α → Prop} (same : ∀ s a s', step s a = some s' → (ok s a ↔ ok' s a)) :
    ∀ {as : List α} {s : σ}, Along step ok s as ↔ Along step ok' s as := by
  intro as
  induction as with
  | nil => intro s; exact Iff.rfl
  | cons a as ih =>
    intro s
    exact forall_congr' fun s' => forall_congr' fun taken => and_congr (same s a s' taken) ih

theorem Always.head {P : σ → Prop} {s : σ} {as : List α} (h : Always step P s as) : P s := by
  cases as with
  | nil => exact h
  | cons a as => exact h.1

theorem Always.imp {P Q : σ → Prop} (imp : ∀ s, P s → Q s) :
    ∀ {as : List α} {s : σ}, Always step P s as → Always step Q s as := by
  intro as
  induction as with
  | nil => intro s h; exact imp s h
  | cons a as ih => intro s h; exact ⟨imp s h.1, fun s' taken => ih (h.2 s' taken)⟩

/-- The last state of a run has what every state of it has. -/
theorem Always.last {P : σ → Prop} :
    ∀ {as : List α} {s t : σ}, Always step P s as → run step s as = some t → P t := by
  intro as
  induction as with
  | nil => intro s t h reached; cases reached; exact h
  | cons a as ih =>
    intro s t h reached
    obtain ⟨s', taken, rest⟩ := run_cons_inv reached
    exact ih (h.2 s' taken) rest

/-- The invariant rule for the last state of an unconditional run. -/
theorem run_invariant {I : σ → Prop}
    (keep : ∀ s a s', I s → step s a = some s' → I s') {as : List α} {s t : σ}
    (start : I s) (reached : run step s as = some t) : I t :=
  (always_of_along (fun s a s' inv (_ : True) => keep s a s' inv) start along_trivial).last reached

/-- The invariant rule for the last state of a run all of whose steps are allowed. -/
theorem run_along {I : σ → Prop} {ok : σ → α → Prop}
    (keep : ∀ s a s', I s → ok s a → step s a = some s' → I s') {as : List α} {s t : σ}
    (start : I s) (along : Along step ok s as) (reached : run step s as = some t) : I t :=
  (always_of_along keep start along).last reached

/-- A condition on the labels alone. -/
theorem along_of_forall {p : α → Prop} {as : List α} (all : ∀ a ∈ as, p a) {s : σ} :
    Along step (fun _ a => p a) s as := by
  induction as generalizing s with
  | nil => trivial
  | cons a as ih =>
    exact fun s' _ => ⟨all a List.mem_cons_self, ih fun b member => all b (List.mem_cons_of_mem _ member)⟩

/-- **Ranks.** When, under an invariant, no allowed step raises the rank and every step that `ticks`
lowers it, then a run brings the rank down by the number of such steps. -/
theorem run_ranked {I : σ → Prop} {ok : σ → α → Prop} (rank : σ → Nat) (ticks : α → Bool)
    (keep : ∀ s a s', I s → ok s a → step s a = some s' → I s')
    (lower : ∀ s a s', I s → ok s a → step s a = some s' → rank s' ≤ rank s - if ticks a then 1 else 0) :
    ∀ {as : List α} {s t : σ}, I s → Along step ok s as → run step s as = some t →
      I t ∧ rank t ≤ rank s - as.countP ticks := by
  intro as
  induction as with
  | nil =>
    intro s t start _ reached
    cases reached
    exact ⟨start, Nat.le_refl _⟩
  | cons a as ih =>
    intro s t start along reached
    obtain ⟨s', taken, rest⟩ := run_cons_inv reached
    obtain ⟨allowed, along'⟩ := along s' taken
    obtain ⟨last, down⟩ := ih (keep s a s' start allowed taken) along' rest
    have first := lower s a s' start allowed taken
    refine ⟨last, ?_⟩
    rw [List.countP_cons]
    omega

/-- **Exact conditions.** When, under an invariant, a step keeps `P` exactly when `ok`
allows it, a run keeps `P` throughout exactly when `ok` allows all of its steps. -/
theorem always_iff_along {I P : σ → Prop} {ok : σ → α → Prop}
    (keep : ∀ s a s', I s → step s a = some s' → I s')
    (exact_step : ∀ s a s', I s → P s → step s a = some s' → (P s' ↔ ok s a)) :
    ∀ {as : List α} {s : σ}, I s → P s → (Always step P s as ↔ Along step ok s as) := by
  intro as
  induction as with
  | nil => intro s _ holds; exact ⟨fun _ => trivial, fun _ => holds⟩
  | cons a as ih =>
    intro s inv holds
    constructor
    · rintro ⟨-, later⟩ s' taken
      have next := (later s' taken).head
      have inv' := keep s a s' inv taken
      exact ⟨(exact_step s a s' inv holds taken).1 next, (ih inv' next).1 (later s' taken)⟩
    · intro along
      refine ⟨holds, fun s' taken => ?_⟩
      obtain ⟨allowed, rest⟩ := along s' taken
      have next := (exact_step s a s' inv holds taken).2 allowed
      exact (ih (keep s a s' inv taken) next).2 rest

/-! ## Loops -/

/-- How a loop body ends: with the next iteration, or by leaving the loop. -/
inductive Flow where
  | again
  | leave
  deriving DecidableEq, Repr

variable {ε : Type} (body : σ → ε → Flow × σ)

/-- The state of a loop after its body has met the given answers of the environment. -/
def loop : σ → List ε → σ
  | s, [] => s
  | s, e :: es =>
    match body s e with
    | (.again, s') => loop s' es
    | (.leave, s') => s'

/-- The number of turns after which a loop is left, if it is. -/
def leftAfter : σ → List ε → Option Nat
  | _, [] => none
  | s, e :: es =>
    match body s e with
    | (.again, s') => (leftAfter s' es).map (· + 1)
    | (.leave, _) => some 1

/-- In every turn the loop takes, the environment's answer is one that `ok` allows. -/
def Throughout (ok : σ → ε → Prop) : σ → List ε → Prop
  | _, [] => True
  | s, e :: es => ok s e ∧ ∀ s', body s e = (.again, s') → Throughout ok s' es

variable {body}

theorem loop_again {s s' : σ} {e : ε} {es : List ε} (h : body s e = (.again, s')) :
    loop body s (e :: es) = loop body s' es := by
  simp only [loop, h]

theorem loop_leave {s s' : σ} {e : ε} {es : List ε} (h : body s e = (.leave, s')) :
    loop body s (e :: es) = s' := by
  simp only [loop, h]

theorem leftAfter_again {s s' : σ} {e : ε} {es : List ε} (h : body s e = (.again, s')) :
    leftAfter body s (e :: es) = (leftAfter body s' es).map (· + 1) := by
  simp only [leftAfter, h]

theorem leftAfter_leave {s s' : σ} {e : ε} {es : List ε} (h : body s e = (.leave, s')) :
    leftAfter body s (e :: es) = some 1 := by
  simp only [leftAfter, h]

/-- What every iteration keeps, the loop keeps. -/
theorem loop_invariant {I : σ → Prop} (keep : ∀ s e, I s → I (body s e).2) :
    ∀ {es : List ε} {s : σ}, I s → I (loop body s es) := by
  intro es
  induction es with
  | nil => intro s start; exact start
  | cons e es ih =>
    intro s start
    have next := keep s e start
    simp only [loop]
    split
    · rename_i s' taken
      rw [taken] at next
      exact ih next
    · rename_i s' taken
      rwa [taken] at next

/-- **Lockstep.** A map that carries each turn of one loop to the turn of another carries its
runs to runs, and both are left after the same number of turns. -/
theorem loop_lockstep {τ : Type} {other : τ → ε → Flow × τ} {f : σ → τ}
    (same : ∀ s e, other (f s) e = ((body s e).1, f (body s e).2)) :
    ∀ {es : List ε} {s : σ},
      loop other (f s) es = f (loop body s es) ∧ leftAfter other (f s) es = leftAfter body s es := by
  intro es
  induction es with
  | nil => intro s; exact ⟨rfl, rfl⟩
  | cons e es ih =>
    intro s
    have turn := same s e
    match taken : body s e with
    | (.again, s') =>
      rw [taken] at turn
      obtain ⟨state, left⟩ := ih (s := s')
      simp only [loop, leftAfter, turn, taken]
      exact ⟨state, congrArg _ left⟩
    | (.leave, s') =>
      rw [taken] at turn
      simp only [loop, leftAfter, turn, taken, and_self]

end Transition
