import Mathlib.Data.List.MinMax

/-!
# Histories

What happened in the runs of a system, the oldest first, and which of it was allowed when it happened.
A rule says what is allowed after a given past, so it speaks of orders and of numbers of occurrences.

Results:
* `legal_append_singleton`: a history grows by what its rule allows;
* `Legal.countP_le_one`: what a rule allows only once happens at most once;
* `earliestMaximal_of_argmax`: the first of the greatest values.
-/

namespace Astria.Lib

/-! ## Legal histories -/

section

variable {α : Type} {allowed : List α → α → Prop} {history later : List α}

/-- Everything that happened was allowed after what had happened before. -/
def Legal (allowed : List α → α → Prop) (history : List α) : Prop :=
  ∀ before a after, history = before ++ a :: after → allowed before a

theorem legal_nil : Legal allowed [] := by
  intro before a after h
  simp at h

theorem legal_append_singleton {a : α} :
    Legal allowed (history ++ [a]) ↔ Legal allowed history ∧ allowed history a := by
  constructor
  · intro h
    refine ⟨?_, h history a [] rfl⟩
    rintro before b after rfl
    exact h before b (after ++ [a]) (by simp)
  · rintro ⟨h, ha⟩ before b after heq
    rcases List.eq_nil_or_concat after with rfl | ⟨rest, c, rfl⟩
    · obtain ⟨rfl, rfl⟩ := List.append_singleton_inj.mp heq
      exact ha
    · rw [List.concat_eq_append, ← List.cons_append, ← List.append_assoc] at heq
      exact h before b rest (List.append_singleton_inj.mp heq).1

theorem Legal.append_singleton (h : Legal allowed history) {a : α} (ha : allowed history a) :
    Legal allowed (history ++ [a]) :=
  legal_append_singleton.mpr ⟨h, ha⟩

/-- A history is read occurrence by occurrence. -/
theorem filterMap_append_singleton {β : Type} (f : α → Option β) (a : α) :
    (history ++ [a]).filterMap f = history.filterMap f ++ (f a).toList := by
  rw [List.filterMap_append]
  cases h : f a <;> simp [h]

/-- What is allowed only if it did not happen before happens at most once. -/
theorem Legal.countP_le_one (h : Legal allowed history) {p : α → Bool}
    (once : ∀ before a, allowed before a → p a = true → before.countP p = 0) :
    history.countP p ≤ 1 := by
  induction history using List.reverseRecOn with
  | nil => simp
  | append_singleton before a ih =>
    obtain ⟨hbefore, ha⟩ := legal_append_singleton.mp h
    rw [List.countP_append, List.countP_singleton]
    split_ifs with hp
    · rw [once before a ha hp]
    · exact ih hbefore

end

/-! ## The first of the greatest values -/

section

variable {α β : Type} [LinearOrder β] {f : α → β} {a : α} {l : List α}

/-- `f` is smaller before this value of the list, and not greater after it. -/
def EarliestMaximal (f : α → β) (a : α) (l : List α) : Prop :=
  ∃ before after, l = before ++ a :: after ∧ (∀ b ∈ before, f b < f a) ∧ ∀ b ∈ after, f b ≤ f a

theorem earliestMaximal_of_argmax (h : l.argmax f = some a) : EarliestMaximal f a l := by
  induction l using List.reverseRecOn generalizing a with
  | nil => simp at h
  | append_singleton l b ih =>
    rw [List.argmax_concat] at h
    cases hl : l.argmax f with
    | none =>
      rw [hl] at h
      obtain rfl := Option.some.inj h
      obtain rfl := List.argmax_eq_none.mp hl
      exact ⟨[], [], rfl, by simp, by simp⟩
    | some c =>
      rw [hl] at h
      dsimp only at h
      split_ifs at h with hlt
      · obtain rfl := Option.some.inj h
        refine ⟨l, [], rfl, fun d hd => ?_, by simp⟩
        exact lt_of_le_of_lt (List.le_of_mem_argmax hd hl) hlt
      · obtain rfl := Option.some.inj h
        obtain ⟨before, after, rfl, hbefore, hafter⟩ := ih hl
        refine ⟨before, after ++ [b], by simp, hbefore, fun d hd => ?_⟩
        rcases List.mem_append.mp hd with hd | hd
        · exact hafter d hd
        · rw [List.mem_singleton.mp hd]
          exact not_lt.mp hlt

end

end Astria.Lib
