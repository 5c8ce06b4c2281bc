import Mathlib.Data.List.Induction

/-!
# Machines, their runs, and rules for proving things of every run

A machine answers actions.  `Path M P tr₀ s₀ tr s`: started in `s₀` after the
history `tr₀`, the machine can go through the actions and answers `tr` to `s`;
the policy `P` says which action its users may take after what they have seen.

* `Path.invariant`, `Run.keeps`: one step kept ⇒ every run keeps.
* `Path.trans`, `Path.split`, `Path.functional`: runs compose, and a run is
  determined by its history; `Path.taken`: where a step of it was taken.
* `Path.simulate`: a machine whose every step is a path of another refines it.
* `Run.allStates_iff`, `Run.allStates_of`: what holds all along a run, step by step.
* `Path.climbs`: bounded response.
* `gathered_snoc`: what the steps of a run add up to.
* `path_exec`, `allSteps_exec`: a list of actions that is allowed, and what its steps meet,
  checked by evaluation.
-/

/-- A deterministic machine with answers. -/
structure Machine (σ α ρ : Type) where
  enabled : σ → α → Prop
  next : σ → α → σ × ρ

namespace Machine

variable {σ α ρ τ β θ : Type}

/-- What the users of a machine do, judged by the history they have seen. -/
abbrev Policy (α ρ : Type) := List (α × ρ) → α → Prop

inductive Path (M : Machine σ α ρ) (P : Policy α ρ) (tr₀ : List (α × ρ)) (s₀ : σ) :
    List (α × ρ) → σ → Prop
  | refl : Path M P tr₀ s₀ [] s₀
  | step {tr : List (α × ρ)} {s : σ} (a : α) : Path M P tr₀ s₀ tr s → P (tr₀ ++ tr) a →
      M.enabled s a → Path M P tr₀ s₀ (tr ++ [(a, (M.next s a).2)]) (M.next s a).1

/-- A run: a path from the start `s₀` with nothing seen yet. -/
abbrev Run (M : Machine σ α ρ) (P : Policy α ρ) (s₀ : σ) := Path M P [] s₀

variable {M : Machine σ α ρ} {P Q : Policy α ρ} {tr₀ tr tr₁ tr₂ : List (α × ρ)} {s₀ s s₁ s₂ : σ}

/-- **Invariants.**  What holds at the start and is kept by every step holds after every path. -/
theorem Path.invariant (I : List (α × ρ) → σ → Prop) (h₀ : I tr₀ s₀)
    (hstep : ∀ tr s a, I tr s → P tr a → M.enabled s a →
      I (tr ++ [(a, (M.next s a).2)]) (M.next s a).1)
    (h : Path M P tr₀ s₀ tr s) : I (tr₀ ++ tr) s := by
  induction h with
  | refl => simpa using h₀
  | step a _ hp he ih =>
    rw [← List.append_assoc]
    exact hstep _ _ a ih hp he

/-- The same for runs, where a step may use what is known of every run. -/
theorem Run.keeps (I : List (α × ρ) → σ → Prop) (h₀ : I [] s₀)
    (hstep : ∀ tr s a, Run M P s₀ tr s → I tr s → P tr a → M.enabled s a →
      I (tr ++ [(a, (M.next s a).2)]) (M.next s a).1)
    (h : Run M P s₀ tr s) : I tr s := by
  induction h with
  | refl => exact h₀
  | step a h hp he ih => exact hstep _ _ a h ih hp he

theorem Path.weaken (hPQ : ∀ tr a, P tr a → Q tr a) (h : Path M P tr₀ s₀ tr s) :
    Path M Q tr₀ s₀ tr s := by
  induction h with
  | refl => exact .refl
  | step a _ hp he ih => exact .step a ih (hPQ _ _ hp) he

theorem Path.trans (h₁ : Path M P tr₀ s₀ tr₁ s₁) (h₂ : Path M P (tr₀ ++ tr₁) s₁ tr₂ s₂) :
    Path M P tr₀ s₀ (tr₁ ++ tr₂) s₂ := by
  induction h₂ with
  | refl => simpa using h₁
  | step a _ hp he ih =>
    rw [← List.append_assoc]
    exact .step a ih (by rwa [List.append_assoc] at hp) he

/-- The last step of a non-empty path. -/
theorem Path.last {e : α × ρ} (h : Path M P tr₀ s₀ (tr ++ [e]) s) :
    ∃ s', Path M P tr₀ s₀ tr s' ∧ P (tr₀ ++ tr) e.1 ∧ M.enabled s' e.1 ∧
      e.2 = (M.next s' e.1).2 ∧ s = (M.next s' e.1).1 := by
  generalize htr : tr ++ [e] = tr' at h
  cases h with
  | refl => simp at htr
  | step a h hp he =>
    obtain ⟨rfl, rfl⟩ := List.append_inj' htr rfl |>.imp id List.singleton_inj.mp
    exact ⟨_, h, hp, he, rfl, rfl⟩

/-- A path splits where its history does. -/
theorem Path.split (h : Path M P tr₀ s₀ (tr₁ ++ tr₂) s) :
    ∃ s₁, Path M P tr₀ s₀ tr₁ s₁ ∧ Path M P (tr₀ ++ tr₁) s₁ tr₂ s := by
  induction tr₂ using List.reverseRecOn generalizing s with
  | nil => exact ⟨s, by simpa using h, .refl⟩
  | append_singleton tr₂ e ih =>
    rw [← List.append_assoc] at h
    obtain ⟨s', h', hp, he, hans, rfl⟩ := h.last
    obtain ⟨s₁, h₁, h₂⟩ := ih h'
    refine ⟨s₁, h₁, ?_⟩
    rw [← List.append_assoc] at hp
    have := Path.step e.1 h₂ hp he
    rwa [← hans] at this

/-- What was so when an action of the path was taken. -/
theorem Path.taken {e : α × ρ} (h : Path M P tr₀ s₀ (tr₁ ++ e :: tr₂) s) :
    ∃ s₁, Path M P tr₀ s₀ tr₁ s₁ ∧ P (tr₀ ++ tr₁) e.1 ∧ M.enabled s₁ e.1 ∧
      e.2 = (M.next s₁ e.1).2 := by
  have hsplit : tr₁ ++ e :: tr₂ = (tr₁ ++ [e]) ++ tr₂ := by simp
  rw [hsplit] at h
  obtain ⟨t, ht, -⟩ := h.split
  obtain ⟨s₁, h₁, hp, he, hans, -⟩ := ht.last
  exact ⟨s₁, h₁, hp, he, hans⟩

/-- The state is a function of the history. -/
theorem Path.functional (h₁ : Path M P tr₀ s₀ tr s₁) (h₂ : Path M Q tr₀ s₀ tr s₂) : s₁ = s₂ := by
  induction h₁ generalizing s₂ with
  | refl =>
    generalize htr : ([] : List (α × ρ)) = tr' at h₂
    cases h₂ with
    | refl => rfl
    | step a _ _ _ => simp at htr
  | step a _ _ _ ih =>
    obtain ⟨s', h', -, -, -, rfl⟩ := h₂.last
    rw [ih h']

/-- One step of the machine is a path. -/
theorem Path.single (a : α) (hp : P tr₀ a) (he : M.enabled s₀ a) :
    Path M P tr₀ s₀ [(a, (M.next s₀ a).2)] (M.next s₀ a).1 := by
  have := Path.step a (.refl : Path M P tr₀ s₀ [] s₀) (by simpa using hp) he
  simpa using this

/-- **Simulation.**  `R` relates histories and states of `M` to those of `N`; each step of `M`
from related places is matched by a path of `N`. -/
theorem Path.simulate {N : Machine τ β θ} {Q : Policy β θ}
    (R : List (α × ρ) → σ → List (β × θ) → τ → Prop) {tr₀' : List (β × θ)} {t₀ : τ}
    (h₀ : R tr₀ s₀ tr₀' t₀)
    (hstep : ∀ tr s tr' t a, R tr s tr' t → P tr a → M.enabled s a →
      ∃ more t', Path N Q tr' t more t' ∧
        R (tr ++ [(a, (M.next s a).2)]) (M.next s a).1 (tr' ++ more) t')
    (h : Path M P tr₀ s₀ tr s) :
    ∃ tr' t, Path N Q tr₀' t₀ tr' t ∧ R (tr₀ ++ tr) s (tr₀' ++ tr') t := by
  induction h with
  | refl => exact ⟨[], t₀, .refl, by simpa using h₀⟩
  | step a _ hp he ih =>
    obtain ⟨tr', t, hN, hR⟩ := ih
    obtain ⟨more, t', hmore, hR'⟩ := hstep _ _ _ _ a hR hp he
    refine ⟨tr' ++ more, t', hN.trans hmore, ?_⟩
    rwa [← List.append_assoc, ← List.append_assoc]

/-! ## What holds all along a run -/

/-- `I` holds of every state that the run goes through. -/
def AllStates (M : Machine σ α ρ) (P : Policy α ρ) (s₀ : σ) (I : σ → Prop)
    (tr : List (α × ρ)) : Prop :=
  ∀ tr₁ tr₂ s, tr = tr₁ ++ tr₂ → Run M P s₀ tr₁ s → I s

/-- `C` holds of every step of the run, in the state it is taken in. -/
def AllSteps (M : Machine σ α ρ) (P : Policy α ρ) (s₀ : σ) (C : σ → α → Prop)
    (tr : List (α × ρ)) : Prop :=
  ∀ tr₁ e tr₂ s, tr = tr₁ ++ e :: tr₂ → Run M P s₀ tr₁ s → C s e.1

theorem allStates_snoc {I : σ → Prop} {e : α × ρ} (h : Run M P s₀ (tr ++ [e]) s) :
    AllStates M P s₀ I (tr ++ [e]) ↔ AllStates M P s₀ I tr ∧ I s := by
  constructor
  · intro hall
    refine ⟨fun tr₁ tr₂ s₁ heq h₁ => ?_, hall _ [] s (by simp) h⟩
    exact hall tr₁ (tr₂ ++ [e]) s₁ (by rw [heq, List.append_assoc]) h₁
  · rintro ⟨hall, hlast⟩ tr₁ tr₂ s₁ heq h₁
    rcases List.eq_nil_or_concat tr₂ with rfl | ⟨tr₂, e', rfl⟩
    · rw [List.append_nil] at heq
      subst heq
      rw [h₁.functional h]
      exact hlast
    · rw [List.concat_eq_append, ← List.append_assoc] at heq
      obtain ⟨rfl, -⟩ := List.append_inj' heq rfl
      exact hall tr₁ tr₂ s₁ rfl h₁

theorem allSteps_snoc {C : σ → α → Prop} {e : α × ρ} (h : Run M P s₀ tr s) :
    AllSteps M P s₀ C (tr ++ [e]) ↔ AllSteps M P s₀ C tr ∧ C s e.1 := by
  constructor
  · intro hall
    refine ⟨fun tr₁ e' tr₂ s₁ heq h₁ => ?_, hall tr e [] s rfl h⟩
    exact hall tr₁ e' (tr₂ ++ [e]) s₁ (by rw [heq, List.append_assoc]; rfl) h₁
  · rintro ⟨hall, hlast⟩ tr₁ e' tr₂ s₁ heq h₁
    rcases List.eq_nil_or_concat tr₂ with rfl | ⟨tr₂, e'', rfl⟩
    · obtain ⟨rfl, hsame⟩ := List.append_inj' heq rfl
      obtain rfl := List.singleton_inj.mp hsame
      rw [h₁.functional h]
      exact hlast
    · rw [List.concat_eq_append, ← List.cons_append, ← List.append_assoc] at heq
      obtain ⟨rfl, -⟩ := List.append_inj' heq rfl
      exact hall tr₁ e' tr₂ s₁ rfl h₁

/-- **Exact conditions.**  If, from states where `I` holds, `C` says exactly which steps keep it, then
`I` holds all along a run exactly when `C` does. -/
theorem Run.allStates_iff {I : σ → Prop} {C : σ → α → Prop} (h₀ : I s₀)
    (hstep : ∀ tr s a, Run M P s₀ tr s → P tr a → M.enabled s a → I s →
      (I (M.next s a).1 ↔ C s a)) (h : Run M P s₀ tr s) :
    AllStates M P s₀ I tr ↔ AllSteps M P s₀ C tr := by
  induction h with
  | refl =>
    constructor
    · rintro - tr₁ e tr₂ s heq
      simp at heq
    · rintro - tr₁ tr₂ s heq h₁
      obtain ⟨rfl, -⟩ := List.append_eq_nil_iff.mp heq.symm
      rw [h₁.functional (.refl : Run M P s₀ [] s₀)]
      exact h₀
  | @step tr s a h hp he ih =>
    rw [allStates_snoc (h.step a hp he), allSteps_snoc h, ih]
    refine and_congr_right ?_
    intro hall
    exact hstep tr s a h hp he (ih.mpr hall tr [] s (by simp) h)

/-- **Sufficient conditions.**  If a step that meets `C` keeps `I`, then `I` holds all along a run whose
steps meet `C`. -/
theorem Run.allStates_of {I : σ → Prop} {C : σ → α → Prop} (h₀ : I s₀)
    (hstep : ∀ tr s a, Run M P s₀ tr s → P tr a → M.enabled s a → I s → C s a → I (M.next s a).1)
    (hC : AllSteps M P s₀ C tr) : AllStates M P s₀ I tr := by
  intro tr₁ tr₂ s₁ heq h₁
  have hC₁ : AllSteps M P s₀ C tr₁ := fun tr₃ e tr₄ s₃ heq₃ h₃ =>
    hC tr₃ e (tr₄ ++ tr₂) s₃ (by rw [heq, heq₃, List.append_assoc]; rfl) h₃
  clear heq
  induction h₁ with
  | refl => exact h₀
  | @step tr s a h₁ hp he ih =>
    obtain ⟨hbefore, hlast⟩ := (allSteps_snoc h₁).mp hC₁
    exact hstep tr s a h₁ hp he (ih hbefore) hlast

/-- The machine that takes a step only where `C` allows it. -/
def restrict (M : Machine σ α ρ) (C : σ → α → Prop) : Machine σ α ρ where
  enabled s a := M.enabled s a ∧ C s a
  next := M.next

instance {C : σ → α → Prop} [∀ s a, Decidable (M.enabled s a)] [∀ s a, Decidable (C s a)] (s : σ)
    (a : α) : Decidable ((M.restrict C).enabled s a) :=
  inferInstanceAs (Decidable (_ ∧ _))

theorem Path.unrestrict {C : σ → α → Prop} (h : Path (M.restrict C) P tr₀ s₀ tr s) :
    Path M P tr₀ s₀ tr s := by
  induction h with
  | refl => exact .refl
  | step a _ hp he ih => exact .step a ih hp he.1

/-- A machine that allows more goes the same ways. -/
theorem Path.relax {C D : σ → α → Prop} (hCD : ∀ s a, C s a → D s a)
    (h : Path (M.restrict C) P tr₀ s₀ tr s) : Path (M.restrict D) P tr₀ s₀ tr s := by
  induction h with
  | refl => exact .refl
  | @step tr s a _ hp he ih =>
    have hd : (M.restrict D).enabled s a := ⟨he.1, hCD s a he.2⟩
    exact .step a ih hp hd

/-- **Bounded response.**  A rank that no step lowers, and that each step in `counted` raises while it
is below `n`, gets to `n` in as many of these steps as are missing. -/
theorem Path.climbs (I : List (α × ρ) → σ → Prop) (rank : σ → Nat) (counted : α → Bool) (n : Nat)
    (h₀ : I tr₀ s₀)
    (hI : ∀ tr s a, I tr s → P tr a → M.enabled s a →
      I (tr ++ [(a, (M.next s a).2)]) (M.next s a).1)
    (hle : ∀ tr s a, I tr s → P tr a → M.enabled s a → rank s ≤ rank (M.next s a).1)
    (hlt : ∀ tr s a, I tr s → P tr a → M.enabled s a → counted a = true → rank s < n →
      rank s < rank (M.next s a).1)
    (h : Path M P tr₀ s₀ tr s) : min n (rank s₀ + tr.countP fun e => counted e.1) ≤ rank s := by
  have hinv : I (tr₀ ++ tr) s ∧ min n (rank s₀ + tr.countP fun e => counted e.1) ≤ rank s := by
    induction h with
    | refl => exact ⟨by simpa using h₀, Nat.min_le_right _ _⟩
    | @step tr s a _ hp he ih =>
      obtain ⟨hs, hrank⟩ := ih
      refine ⟨by simpa using hI _ _ a hs hp he, ?_⟩
      have hup := hle _ _ a hs hp he
      rw [List.countP_append, List.countP_singleton]
      by_cases hc : counted a = true
      · have hmore := hlt _ _ a hs hp he hc
        rw [if_pos hc]
        omega
      · rw [if_neg hc]
        omega
  exact hinv.2

/-! ## What the steps of a run add up to -/

/-- What `f` gives for each step of a history, in the state it is taken in. -/
def gathered (M : Machine σ α ρ) (f : σ → α → List β) : σ → List (α × ρ) → List β
  | _, [] => []
  | s, e :: tr => f s e.1 ++ gathered M f (M.next s e.1).1 tr

theorem gathered_snoc {f : σ → α → List β} (h : Path M P tr₀ s₀ tr s) (e : α × ρ) :
    gathered M f s₀ (tr ++ [e]) = gathered M f s₀ tr ++ f s e.1 := by
  have hend : ∀ tr₁ s₁ t, Path M P tr₀ s₀ tr₁ s₁ → Path M P (tr₀ ++ tr₁) s₁ t s →
      gathered M f s₁ (t ++ [e]) = gathered M f s₁ t ++ f s e.1 := by
    intro tr₁ s₁ t h₁ h₂
    induction t generalizing tr₁ s₁ with
    | nil =>
      obtain rfl := h₂.functional (.refl : Path M P (tr₀ ++ tr₁) s₁ [] s₁)
      simp [gathered]
    | cons e' t ih =>
      have happend : Path M P (tr₀ ++ tr₁) s₁ ([e'] ++ t) s := h₂
      obtain ⟨s₂, hfirst, hrest⟩ := happend.split
      have hone : Path M P (tr₀ ++ tr₁) s₁ ([] ++ [e']) s₂ := hfirst
      obtain ⟨s', hs', hp, he, hans, rfl⟩ := hone.last
      obtain rfl := hs'.functional (.refl : Path M P (tr₀ ++ tr₁) s₁ [] s₁)
      have hlonger : Path M P tr₀ s₀ (tr₁ ++ [e']) (M.next s' e'.1).1 := h₁.trans hfirst
      rw [List.append_assoc] at hrest
      rw [List.cons_append, gathered, gathered, ih _ _ hlonger hrest, List.append_assoc]
  exact hend [] s₀ tr .refl (by simpa using h)

/-! ## Runs by evaluation -/

/-- The state after a list of actions. -/
def exec (M : Machine σ α ρ) : σ → List α → σ
  | s, [] => s
  | s, a :: as => exec M (M.next s a).1 as

/-- The history of a list of actions. -/
def traceOf (M : Machine σ α ρ) : σ → List α → List (α × ρ)
  | _, [] => []
  | s, a :: as => (a, (M.next s a).2) :: traceOf M (M.next s a).1 as

/-- Every action of the list is possible and within the policy when its turn comes. -/
def Allowed (M : Machine σ α ρ) (P : Policy α ρ) : List (α × ρ) → σ → List α → Prop
  | _, _, [] => True
  | tr, s, a :: as =>
    P tr a ∧ M.enabled s a ∧ Allowed M P (tr ++ [(a, (M.next s a).2)]) (M.next s a).1 as

def decidableAllowed (M : Machine σ α ρ) (P : Policy α ρ) (hP : ∀ tr a, Decidable (P tr a))
    (hM : ∀ s a, Decidable (M.enabled s a)) : ∀ as tr s, Decidable (Allowed M P tr s as)
  | [], _, _ => .isTrue trivial
  | _ :: as, _, _ =>
    have := decidableAllowed M P hP hM as
    inferInstanceAs (Decidable (_ ∧ _ ∧ _))

instance [∀ tr a, Decidable (P tr a)] [∀ s a, Decidable (M.enabled s a)] (as : List α) :
    Decidable (Allowed M P tr s as) :=
  decidableAllowed M P inferInstance inferInstance as tr s

theorem path_exec (as : List α) (h : Allowed M P tr₀ s₀ as) :
    Path M P tr₀ s₀ (traceOf M s₀ as) (exec M s₀ as) := by
  induction as generalizing tr₀ s₀ with
  | nil => exact .refl
  | cons a as ih =>
    obtain ⟨hp, he, h⟩ := h
    exact (Path.single a hp he).trans (ih h)

/-- Every action of the list meets `C` when its turn comes. -/
def Meets (M : Machine σ α ρ) (C : σ → α → Prop) : σ → List α → Prop
  | _, [] => True
  | s, a :: as => C s a ∧ Meets M C (M.next s a).1 as

def decidableMeets (M : Machine σ α ρ) (C : σ → α → Prop) (hC : ∀ s a, Decidable (C s a)) :
    ∀ as s, Decidable (Meets M C s as)
  | [], _ => .isTrue trivial
  | _ :: as, _ =>
    have := decidableMeets M C hC as
    inferInstanceAs (Decidable (_ ∧ _))

instance {C : σ → α → Prop} [∀ s a, Decidable (C s a)] (as : List α) : Decidable (Meets M C s as) :=
  decidableMeets M C inferInstance as s

theorem allSteps_exec {C : σ → α → Prop} (as : List α) (h : Meets M C s₀ as) :
    AllSteps M P s₀ C (traceOf M s₀ as) := by
  have hfrom : ∀ as tr₀ s tr₁ e tr₂ t, Meets M C s as → traceOf M s as = tr₁ ++ e :: tr₂ →
      Path M P tr₀ s tr₁ t → C t e.1 := by
    intro as
    induction as with
    | nil =>
      intro tr₀ s tr₁ e tr₂ t _ heq _
      simp [traceOf] at heq
    | cons a as ih =>
      intro tr₀ s tr₁ e tr₂ t hmeets heq hpath
      cases tr₁ with
      | nil =>
        obtain rfl := hpath.functional (.refl : Path M P tr₀ s [] s)
        obtain ⟨rfl, -⟩ := List.cons.inj heq
        exact hmeets.1
      | cons e' tr₁ =>
        obtain ⟨rfl, hrest⟩ := List.cons.inj heq
        have happend : Path M P tr₀ s ([(a, (M.next s a).2)] ++ tr₁) t := hpath
        obtain ⟨s₂, hone, hmore⟩ := happend.split
        have hlast : Path M P tr₀ s ([] ++ [(a, (M.next s a).2)]) s₂ := hone
        obtain ⟨s₁, hfirst, -, -, -, rfl⟩ := hlast.last
        obtain rfl := hfirst.functional (.refl : Path M P tr₀ s [] s)
        exact ih _ _ tr₁ e tr₂ t hmeets.2 hrest hmore
  exact fun tr₁ e tr₂ s heq hrun => hfrom as [] s₀ tr₁ e tr₂ s h heq hrun

end Machine
