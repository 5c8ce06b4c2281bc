import BDTun.Lib.Machine
import Mathlib.Logic.Function.Basic

/-!
# Families of machines that run side by side

`family ι M` has a copy of `M` for each index; an action names the copy it is for.

* `Path.member`: what one copy goes through in a run of the family is a run of `M`.
-/

namespace Machine

variable {ι σ α ρ : Type} [DecidableEq ι]

def family (ι : Type) [DecidableEq ι] (M : Machine σ α ρ) : Machine (ι → σ) (ι × α) ρ where
  enabled s a := M.enabled (s a.1) a.2
  next s a := (Function.update s a.1 (M.next (s a.1) a.2).1, (M.next (s a.1) a.2).2)

/-- What a history of the family has for one copy. -/
def member (i : ι) (tr : List ((ι × α) × ρ)) : List (α × ρ) :=
  tr.filterMap fun e => if e.1.1 = i then some (e.1.2, e.2) else none

theorem member_append (i : ι) (tr more : List ((ι × α) × ρ)) :
    member i (tr ++ more) = member i tr ++ member i more :=
  List.filterMap_append

theorem member_self (i : ι) (a : α) (r : ρ) : member i [((i, a), r)] = [(a, r)] := by
  simp [member]

theorem member_other {i j : ι} (h : j ≠ i) (a : α) (r : ρ) : member i [((j, a), r)] = [] := by
  simp [member, h]

/-- **Projection.**  If the policy of the family is, for copy `i`, within `Q`, then the part of a
path that is copy `i`'s is a path of one machine. -/
theorem Path.member {M : Machine σ α ρ} {P : Policy (ι × α) ρ} {Q : Policy α ρ} {i : ι}
    (hP : ∀ tr a, P tr (i, a) → Q (Machine.member i tr) a) {tr₀ tr : List ((ι × α) × ρ)}
    {s₀ s : ι → σ} (h : Path (family ι M) P tr₀ s₀ tr s) :
    Path M Q (Machine.member i tr₀) (s₀ i) (Machine.member i tr) (s i) := by
  induction h with
  | refl => exact .refl
  | @step tr s a _ hp he ih =>
    obtain ⟨j, a⟩ := a
    rw [member_append]
    by_cases hj : j = i
    · subst hj
      have hq := hP _ _ hp
      rw [member_append] at hq
      have hstep := Path.step a ih hq he
      rw [member_self]
      simpa [family] using hstep
    · rw [member_other hj, List.append_nil]
      simpa [family, Function.update_of_ne (Ne.symm hj)] using ih

end Machine
