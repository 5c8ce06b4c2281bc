import BDTun.Commands

/-!
# The try-lock of the control device

`ctrl_open` is two atomic steps: `decAndTest`, and for an open that fails the
`undo` that compensates it; between them the counter is one too low for all
others.  `openers` runs any number of opens and releases, step by step.

* `open_steps`, `busy_steps`, `release_steps`: without interruption the steps are
  the functions on `Ctrl`.
* `openHist`: who is in, by the answers alone; `run_openHist`: the state notes it.
* `Counts`: what the counter is, against the opens that hold and those that fail.
* `ctrl_lock_exclusive`: that in every run, so one holder at most, and the
  counter is back at 1 when nobody is in.
-/

namespace BDTun

open Machine

/-- A call of `ctrl_open`, whoever makes it. -/
abbrev OpenId := Nat

structure Openers where
  ctrlLock : Int
  /-- the opens between their two steps -/
  failing : List OpenId
  /-- the opens that succeeded and were not released -/
  holders : List OpenId

inductive OpenStep
  | decAndTest (o : OpenId)
  | undo (o : OpenId)
  | release (o : OpenId)
deriving DecidableEq

/-- What a step does, and the value of the call if it ends with it. -/
def Openers.next (s : Openers) : OpenStep → Openers × Option Int
  | .decAndTest o =>
    if s.ctrlLock - 1 = 0 then
      ({ s with ctrlLock := s.ctrlLock - 1, holders := o :: s.holders }, some 0)
    else ({ s with ctrlLock := s.ctrlLock - 1, failing := o :: s.failing }, none)
  | .undo o =>
    ({ s with ctrlLock := s.ctrlLock + 1, failing := s.failing.erase o }, some (-ebusy))
  | .release o =>
    ({ s with ctrlLock := s.ctrlLock + 1, holders := s.holders.erase o }, some 0)

def Openers.Enabled (s : Openers) : OpenStep → Prop
  | .decAndTest o => o ∉ s.failing ∧ o ∉ s.holders
  | .undo o => o ∈ s.failing
  | .release o => o ∈ s.holders

instance openStepEnabled (s : Openers) (e : OpenStep) : Decidable (s.Enabled e) := by
  cases e <;> unfold Openers.Enabled <;> infer_instance

def openers : Machine Openers OpenStep (Option Int) where
  enabled := Openers.Enabled
  next := Openers.next

instance (s : Openers) (e : OpenStep) : Decidable (openers.enabled s e) :=
  inferInstanceAs (Decidable (s.Enabled e))

abbrev anyOpener : Policy OpenStep (Option Int) := fun _ _ => True

/-- `ATOMIC_INIT(1)`, and nobody in. -/
def Openers.start : Openers := ⟨1, [], []⟩

/-! ## What the outside has seen -/

/-- The opens that answered 0 and were not released, and those that have not answered yet. -/
structure OpenHist where
  holders : List OpenId
  failing : List OpenId

def OpenHist.record (h : OpenHist) : OpenStep × Option Int → OpenHist
  | (.decAndTest o, some _) => { h with holders := o :: h.holders }
  | (.decAndTest o, none) => { h with failing := o :: h.failing }
  | (.undo o, _) => { h with failing := h.failing.erase o }
  | (.release o, _) => { h with holders := h.holders.erase o }

def openHist (tr : List (OpenStep × Option Int)) : OpenHist := tr.foldl OpenHist.record ⟨[], []⟩

/-- What the steps note is what the outside has seen. -/
theorem run_openHist {P : Policy OpenStep (Option Int)} {tr : List (OpenStep × Option Int)}
    {s : Openers} (h : Run openers P .start tr s) :
    s.holders = (openHist tr).holders ∧ s.failing = (openHist tr).failing := by
  refine h.invariant (fun tr s => s.holders = (openHist tr).holders ∧
    s.failing = (openHist tr).failing) ⟨rfl, rfl⟩ ?_
  rintro tr s e ⟨hholders, hfailing⟩ - -
  rw [show openHist (tr ++ [(e, (openers.next s e).2)]) =
    (openHist tr).record (e, (openers.next s e).2) by simp [openHist]]
  cases e with
  | decAndTest o =>
    simp only [openers, Openers.next]
    split
    · exact ⟨congrArg (o :: ·) hholders, hfailing⟩
    · exact ⟨hholders, congrArg (o :: ·) hfailing⟩
  | undo o => exact ⟨hholders, congrArg (List.erase · o) hfailing⟩
  | release o => exact ⟨congrArg (List.erase · o) hholders, hfailing⟩

/-! ## The steps of a call, without interruption -/

theorem open_steps (s : Ctrl) (t : Openers) (o : OpenId) (h : t.ctrlLock = s.ctrlLock)
    (hfree : s.ctrlLock = 1) :
    (exec openers t [.decAndTest o]).ctrlLock = (ctrlOpen s).1.ctrlLock := by
  simp [exec, openers, Openers.next, ctrlOpen, h, hfree]

theorem busy_steps (s : Ctrl) (t : Openers) (o : OpenId) (h : t.ctrlLock = s.ctrlLock)
    (hbusy : s.ctrlLock ≠ 1) :
    (exec openers t [.decAndTest o, .undo o]).ctrlLock = (ctrlOpen s).1.ctrlLock := by
  have hne : s.ctrlLock - 1 ≠ 0 := by omega
  simp [exec, openers, Openers.next, ctrlOpen, h, hne]

theorem release_steps (s : Ctrl) (t : Openers) (o : OpenId) (h : t.ctrlLock = s.ctrlLock) :
    (exec openers t [.release o]).ctrlLock = (ctrlRelease s).1.ctrlLock := by
  simp [exec, openers, Openers.next, ctrlRelease, h]

/-! ## The counter -/

structure Counts (s : Openers) : Prop where
  lock : s.ctrlLock = 1 - s.holders.length - s.failing.length
  one : s.holders.length ≤ 1

theorem Counts.next {s : Openers} (h : Counts s) (e : OpenStep) (he : s.Enabled e) :
    Counts (s.next e).1 := by
  obtain ⟨hlock, hone⟩ := h
  cases e with
  | decAndTest o =>
    simp only [Openers.next]
    split
    · next hzero =>
      -- the counter was 1, so nobody was in
      have hnone : s.holders.length = 0 := by omega
      refine ⟨?_, ?_⟩
      · simp only [List.length_cons]
        omega
      · simp only [List.length_cons]
        omega
    · refine ⟨?_, hone⟩
      simp only [List.length_cons]
      omega
  | undo o =>
    have hmem : o ∈ s.failing := he
    have hlen := List.length_erase_of_mem hmem
    have hpos := List.length_pos_of_mem hmem
    refine ⟨?_, hone⟩
    simp only [Openers.next, hlen]
    omega
  | release o =>
    have hmem : o ∈ s.holders := he
    have hlen := List.length_erase_of_mem hmem
    have hpos := List.length_pos_of_mem hmem
    refine ⟨?_, ?_⟩
    · simp only [Openers.next, hlen]
      omega
    · simp only [Openers.next, hlen]
      omega

theorem run_counts {P : Policy OpenStep (Option Int)} {tr : List (OpenStep × Option Int)}
    {s : Openers} (h : Run openers P .start tr s) : Counts s := by
  refine h.invariant (fun _ s => Counts s) ?_ ?_
  · exact ⟨rfl, by decide⟩
  · intro _ s e hs _ he
    exact hs.next e he

/-- From everywhere, the opens that fail can undo their step and the holder can leave. -/
theorem can_empty (s : Openers) (tr : List (OpenStep × Option Int)) :
    ∃ more t, Path openers anyOpener tr s more t ∧ t.failing = [] ∧ t.holders = [] := by
  induction hn : s.failing.length + s.holders.length generalizing s tr with
  | zero =>
    refine ⟨[], s, .refl, ?_, ?_⟩
    · exact List.eq_nil_of_length_eq_zero (by omega)
    · exact List.eq_nil_of_length_eq_zero (by omega)
  | succ n ih =>
    have hstep : ∃ e, s.Enabled e ∧
        (s.next e).1.failing.length + (s.next e).1.holders.length = n := by
      cases hf : s.failing with
      | cons o rest =>
        refine ⟨.undo o, ?_, ?_⟩
        · show o ∈ s.failing
          rw [hf]
          exact List.mem_cons_self
        · rw [hf, List.length_cons] at hn
          simp only [Openers.next, hf, List.erase_cons_head]
          omega
      | nil =>
        rw [hf, List.length_nil] at hn
        obtain ⟨o, rest, hh⟩ := List.exists_cons_of_length_eq_add_one
          (show s.holders.length = n + 1 by omega)
        refine ⟨.release o, ?_, ?_⟩
        · show o ∈ s.holders
          rw [hh]
          exact List.mem_cons_self
        · rw [hh, List.length_cons] at hn
          simp only [Openers.next, hf, hh, List.erase_cons_head, List.length_nil]
          omega
    obtain ⟨e, he, hsmall⟩ := hstep
    have hfirst : Path openers anyOpener tr s [(e, (s.next e).2)] (s.next e).1 :=
      Path.single (M := openers) e trivial he
    obtain ⟨more, t, hmore, ht⟩ := ih (s.next e).1 (tr ++ [(e, (s.next e).2)]) hsmall
    exact ⟨_, t, hfirst.trans hmore, ht⟩

/-- **The control device is exclusive, and never stays locked.**  In every run of any number of opens
and releases, with those that hold and those that fail as the answers tell: at most one successful
open is outstanding; the counter is 1 less the holders less the failing opens between their steps, so
it is 1 when nobody is in and then the next open succeeds; and from every state the opens in progress
can end, after which it is 1.  (So it stays in the range of an `int` for as many opens as fit in
one.) -/
theorem ctrl_lock_exclusive {tr : List (OpenStep × Option Int)} {s : Openers}
    (h : Run openers anyOpener .start tr s) :
    (s.holders = (openHist tr).holders ∧ s.failing = (openHist tr).failing) ∧
    s.holders.length ≤ 1 ∧ s.ctrlLock = 1 - s.holders.length - s.failing.length ∧
    (s.holders = [] → s.failing = [] →
      s.ctrlLock = 1 ∧ ∀ o, (s.next (.decAndTest o)).2 = some 0) ∧
    ∃ more t, Path openers anyOpener tr s more t ∧ t.failing = [] ∧ t.holders = [] ∧
      t.ctrlLock = 1 := by
  obtain ⟨hlock, hone⟩ := run_counts h
  refine ⟨run_openHist h, hone, hlock, fun hh hf => ?_, ?_⟩
  · have hfree : s.ctrlLock = 1 := by
      rw [hlock, hh, hf]
      rfl
    refine ⟨hfree, fun o => ?_⟩
    simp [Openers.next, hfree]
  · obtain ⟨more, t, hpath, hf, hh⟩ := can_empty s tr
    refine ⟨more, t, hpath, hf, hh, ?_⟩
    have hend := (run_counts (h.trans hpath)).lock
    rw [hend, hh, hf]
    rfl

/-- One open holds, and another is about to fail. -/
theorem ctrl_lock_exclusive_sample :
    let s := exec openers .start [.decAndTest 0, .decAndTest 1]
    s.holders = [0] ∧ s.failing = [1] ∧ s.holders.length ≤ 1 ∧ s.ctrlLock = 1 - 1 - 1 := by
  have hrun := @path_exec _ _ _ openers anyOpener [] .start [.decAndTest 0, .decAndTest 1]
    (by decide)
  obtain ⟨⟨hholders, hfailing⟩, hone, hlock, -⟩ := ctrl_lock_exclusive hrun
  exact ⟨hholders, hfailing, hone, hlock⟩

end BDTun
