import Mathlib.Data.List.Basic

/-!
# Items that pass along a line

A line is a list of stages, each with the items that wait in it. A source puts its items at the end of
the stage it belongs to; items leave a stage at its front, and those that are not dropped on the way go
to the end of the stage before it. Whatever the order of these steps, the items of one source stay in
their order, and none is there twice.
-/

namespace Pipeline
set_option autoImplicit false

variable {ι α : Type}

/-- The items that wait in each stage, with their sources. -/
abbrev Line (ι α : Type) := List (List (ι × α))

/-- Items leave the front of a stage, and some of them go to the end of the stage before it. -/
inductive Passes : Line ι α → Line ι α → Prop where
  | pass (ahead : Line ι α) (stage gone rest kept : List (ι × α)) (behind : Line ι α) (sub : kept.Sublist gone) :
    Passes (ahead ++ stage :: (gone ++ rest) :: behind) (ahead ++ (stage ++ kept) :: rest :: behind)

/-- Source `i` puts `items` at the end of its stage. -/
inductive Enters (place : ι → Nat) (i : ι) (items : List α) : Line ι α → Line ι α → Prop where
  | enter (ahead : Line ι α) (stage : List (ι × α)) (behind : Line ι α) (here : ahead.length = place i) :
    Enters place i items (ahead ++ stage :: behind) (ahead ++ (stage ++ items.map (i, ·)) :: behind)

/-- Nothing is in a stage that comes after that of its source; the stages are counted from `k`. -/
def Ahead (place : ι → Nat) : (k : Nat) → Line ι α → Prop
  | _, [] => True
  | k, stage :: line => (∀ item ∈ stage, k ≤ place item.1) ∧ Ahead place (k + 1) line

section
variable {place : ι → Nat}

theorem ahead_append {k : Nat} {line more : Line ι α} :
    Ahead place k (line ++ more) ↔ Ahead place k line ∧ Ahead place (k + line.length) more := by
  induction line generalizing k with
  | nil => simp [Ahead]
  | cons stage line ih =>
    simp only [List.cons_append, Ahead, ih, and_assoc, List.length_cons]
    rw [show k + 1 + line.length = k + (line.length + 1) by omega]

theorem Passes.ahead {line line' : Line ι α} (passes : Passes line line') (h : Ahead place 0 line) : Ahead place 0 line' := by
  obtain ⟨front, stage, gone, rest, kept, behind, sub⟩ := passes
  rw [ahead_append] at h ⊢
  obtain ⟨first, here, next, later⟩ := h
  refine ⟨first, fun item member => ?_, fun item member => next item (List.mem_append_right _ member), later⟩
  rcases List.mem_append.1 member with old | moved
  · exact here item old
  · have := next item (List.mem_append_left _ (sub.subset moved))
    omega

theorem Enters.ahead {i : ι} {items : List α} {line line' : Line ι α} (enters : Enters place i items line line')
    (h : Ahead place 0 line) : Ahead place 0 line' := by
  obtain ⟨front, stage, behind, here⟩ := enters
  rw [ahead_append] at h ⊢
  refine ⟨h.1, fun item member => ?_, h.2.2⟩
  rcases List.mem_append.1 member with old | fresh
  · exact h.2.1 item old
  · obtain ⟨x, -, rfl⟩ := List.mem_map.1 fresh
    rw [← here]
    omega

/-- Nothing is lost but what is dropped, and nothing overtakes. -/
theorem Passes.flatten {line line' : Line ι α} (passes : Passes line line') : line'.flatten.Sublist line.flatten := by
  obtain ⟨front, stage, gone, rest, kept, behind, sub⟩ := passes
  simp only [List.flatten_append, List.flatten_cons, List.append_assoc]
  exact ((sub.append_right _).append_left _).append_left _

end

section
variable [DecidableEq ι] {place : ι → Nat}

/-- What comes from source `i`. -/
def fromSource (i : ι) (items : List (ι × α)) : List α := (items.filter (·.1 = i)).map Prod.snd

theorem fromSource_append (i : ι) (items more : List (ι × α)) :
    fromSource i (items ++ more) = fromSource i items ++ fromSource i more := by
  simp [fromSource]

theorem fromSource_same (i : ι) (items : List α) : fromSource i (items.map (i, ·)) = items := by
  induction items with
  | nil => rfl
  | cons x items ih =>
    simp only [fromSource, List.map_cons, List.filter_cons, decide_true, if_true] at ih ⊢
    rw [ih]

theorem fromSource_other {i j : ι} (other : j ≠ i) (items : List α) : fromSource i (items.map (j, ·)) = [] := by
  induction items with
  | nil => rfl
  | cons x items ih =>
    simp only [fromSource, List.map_cons, List.filter_cons, other, decide_false] at ih ⊢
    exact ih

theorem fromSource_sublist {items more : List (ι × α)} (sub : items.Sublist more) (i : ι) :
    (fromSource i items).Sublist (fromSource i more) :=
  (sub.filter _).map _

theorem fromSource_nil {i : ι} {k : Nat} {line : Line ι α} (h : Ahead place k line) (before : place i < k) :
    fromSource i line.flatten = [] := by
  induction line generalizing k with
  | nil => rfl
  | cons stage line ih =>
    have others : fromSource i stage = [] := by
      simp only [fromSource, List.map_eq_nil_iff, List.filter_eq_nil_iff, decide_eq_true_eq]
      intro item member same
      have := h.1 item member
      rw [same] at this
      omega
    rw [List.flatten_cons, fromSource_append, others, ih h.2 (by omega), List.append_nil]

/-- The items on the line are in the order in which their source has put them there. -/
structure InOrder (place : ι → Nat) (entered : ι → List α) (line : Line ι α) : Prop where
  ahead : Ahead place 0 line
  order : ∀ i, (fromSource i line.flatten).Sublist (entered i)

/-- At the start nothing is on the line. -/
theorem inOrder_empty {line : Line ι α} (empty : ∀ stage ∈ line, stage = []) : InOrder place (fun _ => []) line where
  ahead := by
    suffices ∀ k, Ahead place k line from this 0
    induction line with
    | nil => exact fun _ => trivial
    | cons stage line ih =>
      intro k
      refine ⟨fun item member => ?_, ih (fun stage among => empty stage (List.mem_cons_of_mem _ among)) (k + 1)⟩
      rw [empty stage List.mem_cons_self] at member
      cases member
  order i := by
    rw [List.flatten_eq_nil_iff.2 empty]
    exact List.Sublist.refl _

theorem InOrder.passes {entered : ι → List α} {line line' : Line ι α} (h : InOrder place entered line)
    (passes : Passes line line') : InOrder place entered line' :=
  ⟨passes.ahead h.ahead, fun i => (fromSource_sublist passes.flatten i).trans (h.order i)⟩

theorem InOrder.enters {i : ι} {items : List α} {entered entered' : ι → List α} {line line' : Line ι α}
    (h : InOrder place entered line) (enters : Enters place i items line line') (here : entered' i = entered i ++ items)
    (others : ∀ j, j ≠ i → entered' j = entered j) : InOrder place entered' line' := by
  refine ⟨enters.ahead h.ahead, fun j => ?_⟩
  obtain ⟨front, stage, behind, first⟩ := enters
  have order := h.order j
  have later := (ahead_append.1 h.ahead).2.2
  simp only [List.flatten_append, List.flatten_cons, fromSource_append, List.append_assoc] at order ⊢
  by_cases same : j = i
  · subst same
    -- behind its stage there is nothing from this source
    rw [fromSource_nil later (by omega)] at order ⊢
    rw [here, fromSource_same, List.append_nil]
    rw [List.append_nil] at order
    rw [← List.append_assoc]
    exact order.append_right _
  · rw [others j same, fromSource_other (Ne.symm same), List.nil_append]
    exact order

end

/-! ## Items that are made of symbols -/

section
variable {β : Type} {enc : α → List β}

/-- The symbols of the items in a stage. -/
def content (enc : α → List β) (stage : List (ι × α)) : List β := stage.flatMap fun item => enc item.2

@[simp] theorem content_append (stage more : List (ι × α)) :
    content enc (stage ++ more) = content enc stage ++ content enc more := by
  simp [content]

/-- When the symbols `gone` leave a stage and `kept` is what is not dropped of them, no item is torn. -/
def Splits (ι : Type) (enc : α → List β) (gone rest kept : List β) : Prop :=
  ∀ stage : List (ι × α), content enc stage = gone ++ rest →
    ∃ first later left, stage = first ++ later ∧ content enc first = gone ∧ content enc later = rest ∧
      left.Sublist first ∧ content enc left = kept

theorem Splits.passes {line : Line ι α} {ahead : List (List β)} {stage gone rest kept : List β} {behind : List (List β)}
    (splits : Splits ι enc gone rest kept) (shows : line.map (content enc) = ahead ++ stage :: (gone ++ rest) :: behind) :
    ∃ line', Passes line line' ∧ line'.map (content enc) = ahead ++ (stage ++ kept) :: rest :: behind := by
  obtain ⟨front, tail, rfl, rfl, shown⟩ := List.map_eq_append_iff.1 shows
  obtain ⟨here, tail', rfl, rfl, shown'⟩ := List.map_eq_cons_iff.1 shown
  obtain ⟨next, later, rfl, split, rfl⟩ := List.map_eq_cons_iff.1 shown'
  obtain ⟨first, second, left, rfl, rfl, rfl, sub, rfl⟩ := splits next split
  exact ⟨_, .pass front here first second left later sub, by simp⟩

theorem enters_of_content (place : ι → Nat) {line : Line ι α} {ahead : List (List β)} {stage : List β} {behind : List (List β)}
    {i : ι} (items : List α) (shows : line.map (content enc) = ahead ++ stage :: behind) (first : ahead.length = place i) :
    ∃ line', Enters place i items line line' ∧ line'.map (content enc) = ahead ++ (stage ++ items.flatMap enc) :: behind := by
  obtain ⟨front, tail, rfl, rfl, shown⟩ := List.map_eq_append_iff.1 shows
  obtain ⟨here, later, rfl, rfl, rfl⟩ := List.map_eq_cons_iff.1 shown
  rw [List.length_map] at first
  refine ⟨_, .enter front here later first, ?_⟩
  simp [content, List.flatMap_map]

/-- A stage that is cleared tears nothing. -/
theorem splits_all (symbols : List β) : Splits ι enc symbols [] [] := by
  intro stage shown
  exact ⟨stage, [], [], (List.append_nil _).symm, by rw [shown, List.append_nil], rfl, List.nil_sublist _, rfl⟩

theorem content_symbols (stage : List (ι × β)) : content (fun b => [b]) stage = stage.map Prod.snd :=
  List.map_eq_flatMap.symm

/-- An item that is one symbol is never torn. -/
theorem splits_symbols {gone rest kept : List β} (sub : kept.Sublist gone) : Splits ι (fun b => [b]) gone rest kept := by
  intro stage shown
  simp only [content_symbols] at shown ⊢
  obtain ⟨first, later, rfl, rfl, rfl⟩ := List.map_eq_append_iff.1 shown
  obtain ⟨left, among, rfl⟩ := List.sublist_map_iff.1 sub
  exact ⟨first, later, left, rfl, rfl, rfl, among, rfl⟩

/-- Items of the same size are not torn when whole ones leave and are kept or dropped. -/
theorem splits_blocks {n : Nat} (size : ∀ a, (enc a).length = n) (positive : 0 < n) {gone rest kept : List β}
    (leaves : gone = [] ∨ gone.length = n) (keeps : kept = [] ∨ kept = gone) : Splits ι enc gone rest kept := by
  intro stage shown
  have split : ∃ first later, stage = first ++ later ∧ content enc first = gone ∧ content enc later = rest := by
    rcases leaves with rfl | whole
    · exact ⟨[], stage, rfl, rfl, shown⟩
    · cases stage with
      | nil =>
        have := congrArg List.length shown
        simp only [content, List.flatMap_nil, List.length_nil, List.length_append] at this
        omega
      | cons item later =>
        have same : enc item.2 ++ content enc later = gone ++ rest := shown
        obtain ⟨rfl, rfl⟩ := List.append_inj same ((size item.2).trans whole.symm)
        exact ⟨[item], later, rfl, by simp [content], rfl⟩
  obtain ⟨first, later, rfl, rfl, rfl⟩ := split
  rcases keeps with rfl | rfl
  · exact ⟨first, later, [], rfl, rfl, rfl, List.nil_sublist _, rfl⟩
  · exact ⟨first, later, first, rfl, rfl, rfl, List.Sublist.refl _, rfl⟩

end

end Pipeline
