import Mathlib.Logic.Function.Basic

/-!
# Handing fresh tokens over through one shared slot

Each party issues fresh tokens, stores one of them in a slot that all parties share, and takes
a token from the slot once. The slot is never emptied, so a party can find the token of another
one in it. `Own` is what the parties want: everybody has taken a token that it issued itself,
and no two have taken the same. `own_step_iff` says which step can break it.
-/

namespace SharedSlot
set_option autoImplicit false

/-- One party: the tokens it issued, the one it is about to store, the one it has taken. -/
structure Party (τ : Type) where
  issued : List τ
  pending : Option τ
  taken : Option τ

variable {τ : Type}

/-- A party that has done none of it yet. -/
def Party.new : Party τ := ⟨[], none, none⟩

/-- All parties, one for each number, and what they share. -/
structure State (τ : Type) where
  parties : Nat → Party τ
  slot : Option τ
  storedBy : Option Nat
  generated : List τ

/-- What can happen: nothing, a token is issued or generated in vain, stored, or taken. -/
inductive Event (τ : Type) where
  | nothing
  | issue (i : Nat) (t : τ)
  | waste (t : τ)
  | store (i : Nat) (t : τ)
  | take (i : Nat) (t : τ)

/-- `s` with another party in place of the `i`-th. -/
def State.update (s : State τ) (i : Nat) (p : Party τ) : State τ :=
  { s with parties := Function.update s.parties i p }

/-- One step of the parties. -/
inductive Step (s : State τ) : Event τ → State τ → Prop where
  | nothing : Step s .nothing s
  | issue (i : Nat) (t : τ) (fresh : t ∉ s.generated) :
      Step s (.issue i t) { s.update i ⟨(s.parties i).issued ++ [t], some t, (s.parties i).taken⟩ with
        generated := s.generated ++ [t] }
  | waste (t : τ) : Step s (.waste t) { s with generated := s.generated ++ [t] }
  | store (i : Nat) (t : τ) (pending : (s.parties i).pending = some t) :
      Step s (.store i t) { s.update i ⟨(s.parties i).issued, none, (s.parties i).taken⟩ with
        slot := some t
        storedBy := some i }
  | take (i : Nat) (t : τ) (slot : s.slot = some t) :
      Step s (.take i t) (s.update i ⟨(s.parties i).issued, (s.parties i).pending, some t⟩)

/-- Tokens are issued once, by one party, and the slot holds a token of the party that stored it. -/
structure Inv (s : State τ) : Prop where
  known : ∀ i, ∀ t ∈ (s.parties i).issued, t ∈ s.generated
  apart : ∀ i j t, t ∈ (s.parties i).issued → t ∈ (s.parties j).issued → i = j
  pending : ∀ i t, (s.parties i).pending = some t → t ∈ (s.parties i).issued
  stored : ∀ t, s.slot = some t → ∃ i, s.storedBy = some i ∧ t ∈ (s.parties i).issued

/-- Everybody has taken a token of its own, and no two the same. -/
structure Own (s : State τ) : Prop where
  own : ∀ i t, (s.parties i).taken = some t → t ∈ (s.parties i).issued
  distinct : ∀ i j t, (s.parties i).taken = some t → (s.parties j).taken = some t → i = j

/-- A party takes from the slot what it stored itself. -/
def Allowed (s : State τ) : Event τ → Prop
  | .take i _ => s.storedBy = some i
  | _ => True

/-- A step changes the issued tokens of at most one party, by appending a fresh one. -/
theorem Step.issued {s s' : State τ} {e : Event τ} (h : Step s e s') (j : Nat) :
    (s'.parties j).issued = (s.parties j).issued ∨
      ∃ t, e = .issue j t ∧ t ∉ s.generated ∧ (s'.parties j).issued = (s.parties j).issued ++ [t] := by
  cases h with
  | nothing => exact .inl rfl
  | waste t => exact .inl rfl
  | issue i t fresh =>
    by_cases here : j = i
    · subst here
      exact .inr ⟨t, rfl, fresh, by simp [State.update]⟩
    · exact .inl (by simp [State.update, Function.update_of_ne here])
  | store i t pending =>
    by_cases here : j = i
    · subst here
      exact .inl (by simp [State.update])
    · exact .inl (by simp [State.update, Function.update_of_ne here])
  | take i t slot =>
    by_cases here : j = i
    · subst here
      exact .inl (by simp [State.update])
    · exact .inl (by simp [State.update, Function.update_of_ne here])

/-- What was issued stays issued. -/
theorem Step.issued_mono {s s' : State τ} {e : Event τ} (h : Step s e s') {j : Nat} {t : τ}
    (old : t ∈ (s.parties j).issued) : t ∈ (s'.parties j).issued := by
  rcases h.issued j with same | ⟨t', -, -, more⟩
  · rwa [same]
  · rw [more]
    exact List.mem_append_left _ old

theorem Step.generated_mono {s s' : State τ} {e : Event τ} (h : Step s e s') {t : τ}
    (old : t ∈ s.generated) : t ∈ s'.generated := by
  cases h <;> first | exact old | exact List.mem_append_left _ old

theorem Inv.step {s s' : State τ} {e : Event τ} (inv : Inv s) (h : Step s e s') : Inv s' where
  known j t member := by
    rcases h.issued j with same | ⟨t', rfl, fresh, more⟩
    · rw [same] at member
      exact h.generated_mono (inv.known j t member)
    · rw [more] at member
      cases h
      rcases List.mem_append.1 member with old | new
      · exact List.mem_append_left _ (inv.known j t old)
      · exact List.mem_append_right _ new
  apart i j t mine theirs := by
    rcases h.issued i with same | ⟨t', issued, fresh, more⟩ <;> rcases h.issued j with same' | ⟨t'', issued', fresh', more'⟩
    · rw [same] at mine
      rw [same'] at theirs
      exact inv.apart i j t mine theirs
    · rw [same] at mine
      rw [more'] at theirs
      rcases List.mem_append.1 theirs with old | new
      · exact inv.apart i j t mine old
      · rw [List.mem_singleton.1 new] at mine
        exact absurd (inv.known i _ mine) fresh'
    · rw [more] at mine
      rw [same'] at theirs
      rcases List.mem_append.1 mine with old | new
      · exact inv.apart i j t old theirs
      · rw [List.mem_singleton.1 new] at theirs
        exact absurd (inv.known j _ theirs) fresh
    · rw [issued] at issued'
      cases issued'
      rfl
  pending j t pending := by
    cases h with
    | nothing => exact inv.pending j t pending
    | waste t' => exact inv.pending j t pending
    | issue i t' fresh =>
      by_cases here : j = i
      · subst here
        simp only [State.update, Function.update_self, Option.some.injEq] at pending ⊢
        simp [pending]
      · simp only [State.update, Function.update_of_ne here] at pending ⊢
        exact inv.pending j t pending
    | store i t' held =>
      by_cases here : j = i
      · subst here
        simp [State.update] at pending
      · simp only [State.update, Function.update_of_ne here] at pending ⊢
        exact inv.pending j t pending
    | take i t' slot =>
      by_cases here : j = i
      · subst here
        simp only [State.update, Function.update_self] at pending ⊢
        exact inv.pending j t pending
      · simp only [State.update, Function.update_of_ne here] at pending ⊢
        exact inv.pending j t pending
  stored t slot := by
    have kept : s'.slot = s.slot → s'.storedBy = s.storedBy → ∃ i, s'.storedBy = some i ∧ t ∈ (s'.parties i).issued := by
      intro same owner
      rw [same] at slot
      obtain ⟨i, stored, issued⟩ := inv.stored t slot
      exact ⟨i, owner.trans stored, h.issued_mono issued⟩
    cases h with
    | nothing => exact kept rfl rfl
    | waste t' => exact kept rfl rfl
    | issue i t' fresh => exact kept rfl rfl
    | take i t' there => exact kept rfl rfl
    | store i t' held =>
      cases slot
      exact ⟨i, rfl, by simpa [State.update] using inv.pending i t held⟩

/-- Only taking changes what is taken. -/
theorem Step.taken {s s' : State τ} {e : Event τ} (h : Step s e s') (j : Nat) :
    (s'.parties j).taken = (s.parties j).taken ∨
      ∃ t, e = .take j t ∧ s.slot = some t ∧ (s'.parties j).taken = some t := by
  cases h with
  | nothing => exact .inl rfl
  | waste t => exact .inl rfl
  | issue i t fresh =>
    by_cases here : j = i
    · subst here
      exact .inl (by simp [State.update])
    · exact .inl (by simp [State.update, Function.update_of_ne here])
  | store i t pending =>
    by_cases here : j = i
    · subst here
      exact .inl (by simp [State.update])
    · exact .inl (by simp [State.update, Function.update_of_ne here])
  | take i t slot =>
    by_cases here : j = i
    · subst here
      exact .inr ⟨t, rfl, slot, by simp [State.update]⟩
    · exact .inl (by simp [State.update, Function.update_of_ne here])

/-- **The slot keeps the tokens apart exactly when a party takes only what it stored.** -/
theorem own_step_iff {s s' : State τ} {e : Event τ} (inv : Inv s) (own : Own s) (h : Step s e s') :
    Own s' ↔ Allowed s e := by
  constructor
  · intro own'
    cases h with
    | take i t slot =>
      obtain ⟨j, stored, issued⟩ := inv.stored t slot
      have mine : t ∈ ((s.update i ⟨(s.parties i).issued, (s.parties i).pending, some t⟩).parties i).issued :=
        own'.own i t (by simp [State.update])
      simp only [State.update, Function.update_self] at mine
      rw [inv.apart i j t mine issued]
      exact stored
    | _ => trivial
  · intro allowed
    -- a token taken in this step was issued by the party that takes it
    have mine : ∀ i t, (s'.parties i).taken = some t → t ∈ (s.parties i).issued := by
      intro i t taken
      rcases h.taken i with same | ⟨t', rfl, slot, new⟩
      · exact own.own i t (same ▸ taken)
      · rw [new] at taken
        cases taken
        obtain ⟨j, stored, issued⟩ := inv.stored t slot
        have here : s.storedBy = some i := allowed
        rw [here] at stored
        cases stored
        exact issued
    exact ⟨fun i t taken => h.issued_mono (mine i t taken),
      fun i j t taken taken' => inv.apart i j t (mine i t taken) (mine j t taken')⟩

end SharedSlot
