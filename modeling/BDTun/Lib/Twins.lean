import Mathlib.Data.List.Basic

/-!
# Two executions of one program, side by side

A paired input `b` is `left b` in the first execution and `right b` in the second;
`view` is what the outside sees of an answer.  `track` keeps account of how far the
states may differ.

* `views_eq_iff`: if a relation of the states, by the account, says exactly when one
  step shows the same in both and is kept by the step, then whole executions show the
  same exactly when each of their steps does.
-/

namespace Twins

variable {σ α ρ ω β κ : Type} (next : σ → α → σ × ρ) (view : ρ → ω)

/-- What the outside sees of an execution, step by step. -/
def views : σ → List α → List ω
  | _, [] => []
  | s, a :: as => view (next s a).2 :: views (next s a).1 as

variable (left right : β → α) (track : σ → κ → β → κ)

/-- `C` holds of every step, in the state of the first execution and with the account up to it. -/
def Along (C : κ → β → Prop) : σ → κ → List β → Prop
  | _, _, [] => True
  | s, k, b :: bs => C k b ∧ Along C (next s (left b)).1 (track s k b) bs

variable {next view left right track}

/-- **Exactly when two executions show the same.** -/
theorem views_eq_iff {C : κ → β → Prop} (R : κ → σ → σ → Prop)
    (hview : ∀ k s t b, R k s t →
      (view (next s (left b)).2 = view (next t (right b)).2 ↔ C k b))
    (hkeep : ∀ k s t b, R k s t →
      R (track s k b) (next s (left b)).1 (next t (right b)).1)
    {k : κ} {s t : σ} (h : R k s t) (bs : List β) :
    views next view s (bs.map left) = views next view t (bs.map right) ↔
      Along next left track C s k bs := by
  induction bs generalizing k s t with
  | nil => exact iff_of_true rfl trivial
  | cons b bs ih =>
    have hrest := ih (hkeep k s t b h)
    simp only [List.map_cons, views, List.cons.injEq, Along, hview k s t b h, hrest]

end Twins
