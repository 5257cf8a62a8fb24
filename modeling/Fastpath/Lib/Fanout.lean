import Mathlib.Data.List.Nodup
import Mathlib.Logic.Function.Basic

/-!
# Going through a list of places

A loop that goes through a list of places and changes what is at each of them,
looking at nothing else, has done the change once at every place of the list and
nothing anywhere else, as long as no place is in the list twice.
-/

namespace Fastpath.Lib

variable {ι β : Type} [DecidableEq ι]

/-- `change` done at one place. -/
def changeAt (change : β → β) (p : ι → β) (i : ι) : ι → β := Function.update p i (change (p i))

theorem changeAt_apply (change : β → β) (p : ι → β) (i j : ι) :
    changeAt change p i j = if j = i then change (p j) else p j := by
  rw [changeAt, Function.update_apply]
  split
  · next h => rw [h]
  · rfl

theorem foldl_changeAt (change : β → β) {l : List ι} (hl : l.Nodup) (p : ι → β) (j : ι) :
    l.foldl (changeAt change) p j = if j ∈ l then change (p j) else p j := by
  induction l generalizing p with
  | nil => rfl
  | cons i l ih =>
      obtain ⟨hi, hl⟩ := List.nodup_cons.mp hl
      rw [List.foldl_cons, ih hl, changeAt_apply]
      by_cases hj : j = i
      · subst hj
        rw [if_neg hi, if_pos rfl, if_pos List.mem_cons_self]
      · simp only [List.mem_cons, hj, if_false, false_or]

end Fastpath.Lib
