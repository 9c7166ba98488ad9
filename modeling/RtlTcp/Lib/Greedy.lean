import Mathlib.Data.List.Pairwise
import Mathlib.Order.Basic

/-!
# Greedy choice

A stream of items, each of which is taken when it is far enough after the last one that was taken
and skipped otherwise. What `far` means is left open: the items that are taken are far from one
another, and an item that is skipped leaves no trace. For numbers under a least distance, a window
holds no more of the taken ones than fit into it.
-/

namespace Greedy
set_option autoImplicit false

variable {α : Type} (far : α → α → Bool)

/-- For each item, whether it is taken. -/
def choose (last : α) : List α → List Bool
  | [] => []
  | x :: xs => if far last x then true :: choose x xs else false :: choose last xs

/-- The items that are taken. -/
def taken (last : α) : List α → List α
  | [] => []
  | x :: xs => if far last x then x :: taken x xs else taken last xs

variable {far}

/-- Whatever was taken is far after all that was taken before it. -/
theorem pairwise_taken (far : α → α → Bool)
    (trans : ∀ a b c, far a b = true → far b c = true → far a c = true) (last : α) (xs : List α) :
    (last :: taken far last xs).Pairwise fun a b => far a b = true := by
  induction xs generalizing last with
  | nil => simp [taken]
  | cons x xs ih =>
    unfold taken
    split
    · rename_i here
      refine List.pairwise_cons.2 ⟨fun y member => ?_, ih x⟩
      rcases List.mem_cons.1 member with rfl | later
      · exact here
      · exact trans last x y here ((List.pairwise_cons.1 (ih x)).1 y later)
    · exact ih last

/-- **Skipped items leave no trace.** Items are marked, and only skipped ones are: without the
marked ones, the others are chosen as before. -/
theorem choose_unmarked (last : α) (items : List (α × Bool))
    (skipped : ∀ p ∈ items.zip (choose far last (items.map (·.1))), p.1.2 = true → p.2 = false) :
    choose far last ((items.filter (!·.2)).map (·.1)) =
      ((items.zip (choose far last (items.map (·.1)))).filter (!·.1.2)).map (·.2) := by
  induction items generalizing last with
  | nil => rfl
  | cons item items ih =>
    obtain ⟨x, marked⟩ := item
    rw [List.map_cons, choose] at skipped ⊢
    by_cases here : far last x = true
    · rw [if_pos here, List.zip_cons_cons] at skipped ⊢
      have rest := ih x fun p member => skipped p (List.mem_cons_of_mem _ member)
      cases marked with
      | true => exact absurd (skipped _ (List.mem_cons_self ..) rfl) (by simp)
      | false => simp [choose, here, rest]
    · rw [if_neg here, List.zip_cons_cons] at skipped ⊢
      have rest := ih last fun p member => skipped p (List.mem_cons_of_mem _ member)
      cases marked with
      | true => simpa using rest
      | false => simp [choose, here, rest]

/-- Numbers at least `gap` apart take up room. -/
theorem length_mul_le {gap hi x : Nat} {xs : List Nat} (apart : (x :: xs).Pairwise fun a b => a + gap ≤ b)
    (below : ∀ y ∈ x :: xs, y ≤ hi) : x + xs.length * gap ≤ hi := by
  induction xs generalizing x with
  | nil => simpa using below
  | cons y xs ih =>
    obtain ⟨first, rest⟩ := List.pairwise_cons.1 apart
    have next := first y (List.mem_cons_self ..)
    have later := ih rest fun z member => below z (List.mem_cons_of_mem _ member)
    rw [List.length_cons, Nat.succ_mul]
    omega

/-- A closed window of length `size` holds at most `size / gap + 1` numbers that are at least `gap`
apart. -/
theorem length_le_of_apart {gap size : Nat} (positive : 0 < gap) (lo : Nat) {xs : List Nat}
    (apart : xs.Pairwise fun a b => a + gap ≤ b) (inside : ∀ x ∈ xs, lo ≤ x ∧ x ≤ lo + size) :
    xs.length ≤ size / gap + 1 := by
  cases xs with
  | nil => exact Nat.zero_le _
  | cons x xs =>
    have room := length_mul_le apart fun y member => (inside y member).2
    have start := (inside x (List.mem_cons_self ..)).1
    have fits : xs.length ≤ size / gap := (Nat.le_div_iff_mul_le positive).2 (by omega)
    exact Nat.succ_le_succ fits

/-- Groups of numbers, each at least `gap` apart inside its group, and the groups in order: they take
up the room of all but one number of each group. -/
theorem length_mul_le_of_groups {gap lo hi : Nat} (start : lo ≤ hi) {groups : List (List Nat)}
    (apart : ∀ g ∈ groups, g.Pairwise fun a b => a + gap ≤ b) (ordered : groups.flatten.Pairwise (· ≤ ·))
    (inside : ∀ x ∈ groups.flatten, lo ≤ x ∧ x ≤ hi) : lo + groups.flatten.length * gap ≤ hi + groups.length * gap := by
  induction groups generalizing lo with
  | nil => simpa using start
  | cons g groups ih =>
    rw [List.flatten_cons] at ordered inside
    obtain ⟨-, rest, across⟩ := List.pairwise_append.1 ordered
    have apart' : ∀ g' ∈ groups, g'.Pairwise fun a b => a + gap ≤ b := fun g' member =>
      apart g' (List.mem_cons_of_mem _ member)
    have later : ∀ x ∈ groups.flatten, lo ≤ x ∧ x ≤ hi := fun x member => inside x (List.mem_append_right _ member)
    rw [List.flatten_cons, List.length_append, List.length_cons, Nat.add_mul, Nat.succ_mul]
    cases g with
    | nil =>
      have room := ih start apart' rest later
      simp only [List.length_nil, Nat.zero_mul, Nat.zero_add]
      omega
    | cons x xs =>
      -- the next groups come after the last number of this one
      let last := (x :: xs).getLast (List.cons_ne_nil x xs)
      have member : last ∈ x :: xs := List.getLast_mem _
      have within := inside last (List.mem_append_left _ member)
      have first := (inside x (List.mem_append_left _ (List.mem_cons_self ..))).1
      have sorted := apart (x :: xs) (List.mem_cons_self ..)
      have own : x + xs.length * gap ≤ last := by
        refine length_mul_le sorted fun y here => ?_
        have increasing : (x :: xs).Pairwise (· ≤ ·) := sorted.imp fun far => Nat.le_of_add_right_le far
        exact increasing.rel_getLast here
      have room := ih within.2 apart' rest fun y here => ⟨across last member y here, (later y here).2⟩
      rw [List.length_cons, Nat.succ_mul]
      omega

/-- A closed window of length `size` holds at most `size / gap` of them, and one more for each group. -/
theorem length_le_of_groups {gap size : Nat} (lo : Nat) (positive : 0 < gap) {groups : List (List Nat)}
    (apart : ∀ g ∈ groups, g.Pairwise fun a b => a + gap ≤ b) (ordered : groups.flatten.Pairwise (· ≤ ·))
    (inside : ∀ x ∈ groups.flatten, lo ≤ x ∧ x ≤ lo + size) : groups.flatten.length ≤ size / gap + groups.length := by
  have room := length_mul_le_of_groups (Nat.le_add_right lo size) apart ordered inside
  have fits : groups.flatten.length - groups.length ≤ size / gap := by
    refine (Nat.le_div_iff_mul_le positive).2 ?_
    rw [Nat.sub_mul]
    omega
  omega

end Greedy
