import Mathlib.Logic.Basic

/-!
# Lists that a separator ends

The lexicographic order of lists that begin with a piece and go on with a separator, next to the order
of the pieces alone.  The two orders differ where one piece goes on from the other with an element below
the separator: the longer piece is the greater one, but what it goes on with is less than the separator
that follows the shorter one.

Results:
* `append_sep_inj`: where the separator first occurs;
* `compare_append_sep_iff`: two pieces that are both followed by the separator;
* `compare_sep_right_iff`: only the second piece is followed by it;
* `compare_sep_congr`: what comes after the separator does not matter to a list without it.
-/

namespace Astria.Lib

open Std

variable {α : Type} [Ord α]

section

variable [LawfulEqOrd α]

theorem compare_ne_eq {a b : α} (h : a ≠ b) : compare a b ≠ .eq :=
  fun heq => h (LawfulEqOrd.eq_of_compare heq)

theorem compare_cons_self (a : α) (l m : List α) : compare (a :: l) (a :: m) = compare l m := by
  rw [List.compare_cons_cons, compare_self, Ordering.eq_then]

theorem compare_cons_of_ne {a b : α} (h : a ≠ b) (l m : List α) :
    compare (a :: l) (b :: m) = compare a b := by
  have hne := compare_ne_eq h
  rw [List.compare_cons_cons]
  cases hab : compare a b with
  | lt => rfl
  | eq => exact absurd hab hne
  | gt => rfl

theorem compare_append_left (l m n : List α) : compare (l ++ m) (l ++ n) = compare m n := by
  induction l with
  | nil => rfl
  | cons a l ih => rw [List.cons_append, List.cons_append, compare_cons_self, ih]

end

/-! ## Separators -/

variable {sep : α}

omit [Ord α] in
/-- The first piece ends at the first separator. -/
theorem append_sep_inj {p q t u : List α} (hp : sep ∉ p) (hq : sep ∉ q) :
    p ++ sep :: t = q ++ sep :: u ↔ p = q ∧ t = u := by
  constructor
  · intro h
    induction p generalizing q with
    | nil =>
      cases q with
      | nil => exact ⟨rfl, (List.cons.inj h).2⟩
      | cons b q => exact absurd (List.mem_cons.mpr (.inl (List.cons.inj h).1)) hq
    | cons a p ih =>
      cases q with
      | nil => exact absurd (List.mem_cons.mpr (.inl (List.cons.inj h).1.symm)) hp
      | cons b q =>
        obtain ⟨rfl, htail⟩ := List.cons.inj h
        rw [List.mem_cons, not_or] at hp hq
        obtain ⟨rfl, rfl⟩ := ih hp.2 hq.2 htail
        exact ⟨rfl, rfl⟩
  · rintro ⟨rfl, rfl⟩
    rfl

/-- The second list goes on from the first with an element below the separator. -/
def Overtakes (sep : α) : List α → List α → Prop
  | _, [] => False
  | [], c :: _ => compare c sep = .lt
  | a :: p, b :: q => a = b ∧ Overtakes sep p q

instance decidableOvertakes [DecidableEq α] (sep : α) : ∀ p q, Decidable (Overtakes sep p q)
  | [], [] => isFalse id
  | _ :: _, [] => isFalse id
  | [], c :: _ => inferInstanceAs (Decidable (compare c sep = .lt))
  | a :: p, b :: q =>
    have := decidableOvertakes sep p q
    inferInstanceAs (Decidable (a = b ∧ Overtakes sep p q))

theorem overtakes_iff {p q : List α} :
    Overtakes sep p q ↔ ∃ c r, q = p ++ c :: r ∧ compare c sep = .lt := by
  induction p generalizing q with
  | nil =>
    cases q with
    | nil => simp [Overtakes]
    | cons b q => simp [Overtakes]
  | cons a p ih =>
    cases q with
    | nil => simp [Overtakes]
    | cons b q =>
      rw [Overtakes, ih]
      constructor
      · rintro ⟨rfl, c, r, rfl, hc⟩
        exact ⟨c, r, rfl, hc⟩
      · rintro ⟨c, r, heq, hc⟩
        obtain ⟨rfl, rfl⟩ := List.cons.inj heq
        exact ⟨rfl, c, r, rfl, hc⟩

/-- The order of two pieces is that of the lists that begin with them. -/
def Apart (sep : α) (p q : List α) : Prop := ¬ Overtakes sep p q ∧ ¬ Overtakes sep q p

instance [DecidableEq α] (sep : α) (p q : List α) : Decidable (Apart sep p q) := instDecidableAnd

variable [LawfulEqOrd α] [OrientedOrd α]

/-- An element that is not below the separator is above it. -/
theorem not_compare_lt_iff {c : α} (h : c ≠ sep) : ¬ compare c sep = .lt ↔ compare sep c = .lt := by
  have hne := compare_ne_eq h
  have hswap : compare c sep = .gt ↔ compare sep c = .lt := OrientedCmp.gt_iff_lt
  rw [← hswap]
  cases hc : compare c sep with
  | lt => simp
  | eq => exact absurd hc hne
  | gt => simp

theorem compare_append_sep_iff {p q : List α} (hp : sep ∉ p) (hq : sep ∉ q) (hne : p ≠ q)
    (s t : List α) :
    compare (p ++ sep :: s) (q ++ sep :: t) = compare p q ↔ Apart sep p q := by
  unfold Apart
  induction p generalizing q with
  | nil =>
    cases q with
    | nil => exact absurd rfl hne
    | cons b q =>
      have hb : b ≠ sep := fun h => hq (by simp [h])
      rw [List.nil_append, List.cons_append, compare_cons_of_ne hb.symm, List.compare_nil_cons,
        ← not_compare_lt_iff hb]
      simp [Overtakes]
  | cons a p ih =>
    cases q with
    | nil =>
      have ha : a ≠ sep := fun h => hp (by simp [h])
      rw [List.nil_append, List.cons_append, compare_cons_of_ne ha, List.compare_cons_nil,
        OrientedCmp.gt_iff_lt, ← not_compare_lt_iff ha]
      simp [Overtakes]
    | cons b q =>
      rw [List.cons_append, List.cons_append]
      by_cases hab : a = b
      · subst hab
        rw [compare_cons_self, compare_cons_self,
          ih (fun h => hp (by simp [h])) (fun h => hq (by simp [h])) (fun h => hne (by rw [h]))]
        simp [Overtakes]
      · rw [compare_cons_of_ne hab, compare_cons_of_ne hab]
        simp [Overtakes, hab, Ne.symm hab]

theorem compare_sep_right_iff {p q : List α} (hp : sep ∉ p) (hne : p ≠ q) (t : List α) :
    compare p (q ++ sep :: t) = compare p q ↔ ¬ Overtakes sep q p := by
  induction p generalizing q with
  | nil =>
    cases q with
    | nil => exact absurd rfl hne
    | cons b q => simp [Overtakes]
  | cons a p ih =>
    cases q with
    | nil =>
      have ha : a ≠ sep := fun h => hp (by simp [h])
      rw [List.nil_append, compare_cons_of_ne ha, List.compare_cons_nil, OrientedCmp.gt_iff_lt,
        ← not_compare_lt_iff ha]
      simp [Overtakes]
    | cons b q =>
      rw [List.cons_append]
      by_cases hab : a = b
      · subst hab
        rw [compare_cons_self, compare_cons_self,
          ih (fun h => hp (by simp [h])) (fun h => hne (by rw [h]))]
        simp [Overtakes]
      · rw [compare_cons_of_ne hab, compare_cons_of_ne hab]
        simp [Overtakes, Ne.symm hab]

omit [OrientedOrd α] in
theorem compare_sep_congr {p : List α} (hp : sep ∉ p) (q t t' : List α) :
    compare p (q ++ sep :: t) = compare p (q ++ sep :: t') := by
  induction p generalizing q with
  | nil => cases q <;> simp
  | cons a p ih =>
    cases q with
    | nil =>
      have ha : a ≠ sep := fun h => hp (by simp [h])
      rw [List.nil_append, List.nil_append, compare_cons_of_ne ha, compare_cons_of_ne ha]
    | cons b q =>
      rw [List.cons_append, List.cons_append, List.compare_cons_cons, List.compare_cons_cons,
        ih (fun h => hp (by simp [h]))]

/-- A piece that the other one does not go on from below the separator compares alike with and without
its separator. -/
theorem compare_append_sep_left {p q : List α} (hp : sep ∉ p) (hq : sep ∉ q) (hne : p ≠ q)
    (h : ¬ Overtakes sep p q) (s t t' : List α) :
    compare (p ++ sep :: s) (q ++ sep :: t) = compare p (q ++ sep :: t') := by
  induction p generalizing q with
  | nil =>
    cases q with
    | nil => exact absurd rfl hne
    | cons b q =>
      have hb : b ≠ sep := fun h => hq (by simp [h])
      rw [List.nil_append, List.cons_append, compare_cons_of_ne hb.symm, List.cons_append,
        List.compare_nil_cons]
      exact (not_compare_lt_iff hb).mp h
  | cons a p ih =>
    cases q with
    | nil =>
      have ha : a ≠ sep := fun h => hp (by simp [h])
      rw [List.nil_append, List.nil_append, List.cons_append, compare_cons_of_ne ha,
        compare_cons_of_ne ha]
    | cons b q =>
      rw [List.cons_append, List.cons_append, List.cons_append]
      by_cases hab : a = b
      · subst hab
        rw [compare_cons_self, compare_cons_self]
        exact ih (fun h => hp (by simp [h])) (fun h => hq (by simp [h])) (fun h => hne (by rw [h]))
          (fun ho => h ⟨rfl, ho⟩)
      · rw [compare_cons_of_ne hab, compare_cons_of_ne hab]

end Astria.Lib
