import Mathlib.Data.List.Nodup
import Mathlib.Data.List.Range
import Mathlib.Logic.Function.Basic

/-!
# Numbered sequences

Every key has a counter, and an element of a sequence carries its key and a number.  The sequence is
numbered by the counters if the elements of each key carry the numbers from 0 up to its counter, in order.

Results:
* `Numbered.append`: an element with the number at its counter goes on with the sequence;
* `Numbered.nodup`: no key and number occur twice.
-/

namespace Astria.Lib

section

variable {α κ : Type} [DecidableEq κ] {key : α → κ} {number : α → ℕ} {next next' : κ → ℕ}
  {l : List α}

/-- The elements of each key carry the numbers below its counter, each once and in order. -/
def Numbered (key : α → κ) (number : α → ℕ) (next : κ → ℕ) (l : List α) : Prop :=
  ∀ k, (l.filter fun a => key a = k).map number = List.range (next k)

namespace Numbered

theorem nil : Numbered key number (fun _ => 0) [] := fun _ => rfl

/-- The next element of a key carries the number at its counter, which it counts up. -/
theorem append (h : Numbered key number next l) {a : α} (ha : next (key a) = number a)
    (hnext : next' = Function.update next (key a) (number a + 1)) :
    Numbered key number next' (l ++ [a]) := by
  intro k
  rw [List.filter_append, List.map_append, h k, hnext]
  by_cases hk : key a = k
  · subst hk
    rw [Function.update_self, List.range_succ, ha]
    simp
  · rw [Function.update_of_ne (Ne.symm hk)]
    simp [hk]

/-- Two elements of a sequence differ in their key or in their number. -/
theorem nodup (h : Numbered key number next l) : (l.map fun a => (key a, number a)).Nodup := by
  rw [List.nodup_iff_sublist]
  rintro ⟨k, n⟩ htwice
  obtain ⟨l', hl', hpairs⟩ := List.sublist_map_iff.mp htwice
  have hkey : ∀ a ∈ l', key a = k := by
    intro a ha
    have hmem : (key a, number a) ∈ [(k, n), (k, n)] := hpairs ▸ List.mem_map_of_mem ha
    simp at hmem
    exact hmem.1
  have hnumbers : l'.map number = [n, n] := by
    have hsnd := congrArg (List.map Prod.snd) hpairs
    rw [List.map_map] at hsnd
    exact hsnd.symm
  have hfilter : l'.filter (fun a => key a = k) = l' :=
    List.filter_eq_self.mpr fun a ha => decide_eq_true (hkey a ha)
  have hrange : [n, n].Sublist (List.range (next k)) := by
    rw [← h k, ← hnumbers, ← hfilter]
    exact (hl'.filter _).map number
  exact List.nodup_iff_sublist.mp List.nodup_range n hrange

end Numbered

end

end Astria.Lib
