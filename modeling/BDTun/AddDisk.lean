import BDTun.Lib.Family
import BDTun.Lifetime

/-!
# The deferred `add_disk`

A create queues a work item that registers the disk later and says in
`add_disk_finished` that it has done so.  Nothing reads that flag: a removal looks
at the use count only, and the work item does not count.

`devices` is any number of devices side by side, one for each create, so its runs
have every sequence of creates and removes.

* `add_disk_first`: no device is taken down before its work item has finished,
  exactly when no removal finds an idle device with the flag unset (`Waits`).
* `early_remove_faults`: after a removal that does, the work item can find the
  device freed.
-/

namespace BDTun

open Machine

/-- All devices ever created, by number. -/
def devices : Machine (Nat → Life) (Nat × LifeStep) LifeRet := family Nat life

instance (S : Nat → Life) (a : Nat × LifeStep) : Decidable (devices.enabled S a) :=
  inferInstanceAs (Decidable ((S a.1).Enabled a.2))

abbrev anyDevices : Policy (Nat × LifeStep) LifeRet := fun _ _ => True

/-- The module when it is loaded. -/
def noDevices : Nat → Life := fun _ => .unborn

/-- A removal that finds the device idle finds its disk added. -/
def Waits (s : Life) : LifeStep → Prop
  | .remove => s.dev.removing = false → s.dev.ucnt = 0 → s.addDiskFinished = true
  | _ => True

/-- A device that is being taken down has its disk added. -/
def AddedFirst (s : Life) : Prop := s.todo ≠ none → s.addDiskFinished = true

/-- A removal fails and changes nothing, or goes on after the work item is done with the device. -/
def RemoveRight (s : Life) : Prop :=
  (∃ code < 0, (s.next .remove).2 = .ret code ∧ (s.next .remove).1 = s) ∨
    ((s.next .remove).2 = .ret 0 ∧ s.work = some .finished)

/-- A work item that runs finds its device. -/
def WorkOk : LifeStep × LifeRet → Prop
  | (.workBegin, r) => r = .nothing
  | (.workFinish, r) => r = .nothing
  | _ => True

/-! ## One device -/

/-- The flag is set when the work item is done. -/
theorem run_finished {tr : List (LifeStep × LifeRet)} {s : Life}
    (hrun : Run life anyLife .unborn tr s) : s.addDiskFinished = true ↔ s.work = some .finished := by
  refine hrun.invariant (fun _ s => s.addDiskFinished = true ↔ s.work = some .finished) ?_ ?_
  · exact iff_of_false (by simp [Life.unborn]) (by simp [Life.unborn])
  · intro tr s a h _ he
    show (s.next a).1.addDiskFinished = true ↔ (s.next a).1.work = some .finished
    cases a with
    | create blockSize size =>
      exact iff_of_false (by simp [Life.next, Life.created]) (by simp [Life.next, Life.created])
    | workBegin =>
      have hw : s.work = some .queued := he
      simp only [Life.next]
      split
      · refine iff_of_false (fun hfin => ?_) (by simp)
        rw [h.mp hfin] at hw
        cases hw
      · exact h
    | workFinish =>
      simp only [Life.next]
      split
      · exact iff_of_true rfl rfl
      · exact h
    | dispatch k => exact h
    | fetch k => simp only [Life.next]; split <;> exact h
    | «section» k => simp only [Life.next]; split <;> exact h
    | release k =>
      simp only [Life.next]
      split
      · exact h
      · split <;> exact h
    | remove => exact h
    | teardown => simp only [Life.next]; split <;> exact h

/-- **Every step** of one device. -/
theorem AddedFirst.next {s : Life} (h : AddedFirst s) (a : LifeStep) :
    AddedFirst (s.next a).1 ↔ Waits s a := by
  cases a with
  | create blockSize size => exact iff_of_true (fun hgone => absurd rfl hgone) trivial
  | workBegin =>
    refine iff_of_true ?_ trivial
    simp only [Life.next]
    split <;> exact h
  | workFinish =>
    refine iff_of_true ?_ trivial
    simp only [Life.next]
    split
    · exact fun _ => rfl
    · exact h
  | dispatch k => exact iff_of_true h trivial
  | fetch k =>
    refine iff_of_true ?_ trivial
    simp only [Life.next]
    split <;> exact h
  | «section» k =>
    refine iff_of_true ?_ trivial
    simp only [Life.next]
    split <;> exact h
  | release k =>
    refine iff_of_true ?_ trivial
    simp only [Life.next]
    split
    · exact h
    · split <;> exact h
  | remove =>
    unfold Waits AddedFirst
    simp only [Life.next]
    rcases remove_effect s.dev with ⟨hbusy, hwhy⟩ | ⟨hgone, hr, hu⟩
    · rw [hbusy]
      refine iff_of_true h ?_
      intro hr hu
      exact absurd ⟨hr, hu⟩ (not_idle hwhy)
    · rw [hgone]
      simp [hr, hu]
  | teardown =>
    refine iff_of_true ?_ trivial
    simp only [Life.next]
    split
    · next x rest htodo => exact fun _ => h (by simp [htodo])
    · exact h

/-- What is taken down is not allocated, and what stays is. -/
theorem freed_gone {s : Life} (hs : Shape s) (hborn : s.work.isSome = true)
    (hfreed : s.allocated = false) : s.todo ≠ none := by
  intro hnone
  have halloc := (hs.staying hnone).allocated
  rw [hborn, hfreed] at halloc
  cases halloc

theorem AddedFirst.workOk {s : Life} (h : AddedFirst s) (hs : Shape s)
    (hfin : s.addDiskFinished = true ↔ s.work = some .finished) (a : LifeStep) (he : s.Enabled a) :
    WorkOk (a, (s.next a).2) := by
  have halive : ∀ w, s.work = some w → w ≠ .finished → s.allocated = true := by
    intro w hw hne
    by_contra hfreed
    have hgone := freed_gone hs (by rw [hw]; rfl) (by simpa using hfreed)
    have hdone := hfin.mp (h hgone)
    rw [hw] at hdone
    exact hne (Option.some.inj hdone)
  cases a with
  | workBegin => simp [WorkOk, Life.next, halive .queued he (by decide)]
  | workFinish => simp [WorkOk, Life.next, halive .running he (by decide)]
  | _ => trivial

theorem removeRight_iff {s : Life} (hfin : s.addDiskFinished = true ↔ s.work = some .finished) :
    RemoveRight s ↔ Waits s .remove := by
  unfold RemoveRight Waits
  simp only [Life.next]
  rcases remove_effect s.dev with ⟨hbusy, hwhy⟩ | ⟨hgone, hr, hu⟩
  · rw [hbusy]
    refine iff_of_true (Or.inl ⟨-ebusy, by decide, rfl, ?_⟩) fun hr hu => ?_
    · simp [ebusy]
    · exact absurd ⟨hr, hu⟩ (not_idle hwhy)
  · rw [hgone, ← hfin]
    constructor
    · rintro (⟨code, hneg, hret, -⟩ | ⟨-, hdone⟩)
      · have hzero : code = 0 := (LifeRet.ret.inj hret).symm
        omega
      · exact fun _ _ => hdone
    · intro h
      exact Or.inr ⟨rfl, h hr hu⟩

/-! ## All devices -/

/-- What removals are expected to wait for, in every run. -/
def RemovesLate : Prop :=
  ∀ tr S, Run devices anyDevices noDevices tr S → ∀ i, AddedFirst (S i)

theorem run_member {tr : List ((Nat × LifeStep) × LifeRet)} {S : Nat → Life}
    (hrun : Run devices anyDevices noDevices tr S) (i : Nat) :
    Run life anyLife .unborn (member i tr) (S i) :=
  Path.member (fun _ _ _ => trivial) hrun

/-- **The deferred `add_disk`.**  In every run of creates, removes, work items and opens, on any number
of devices: all along it each device that is being taken down, or is freed, has had its disk added,
exactly when each removal that found a device idle found its disk added.  Then the work items have
found their devices; and a removal fails without effect or comes after the work item exactly when
it is of that kind. -/
theorem add_disk_first {tr : List ((Nat × LifeStep) × LifeRet)} {S : Nat → Life}
    (hrun : Run devices anyDevices noDevices tr S) :
    (AllStates devices anyDevices noDevices (fun S => ∀ i, AddedFirst (S i)) tr ↔
      AllSteps devices anyDevices noDevices (fun S a => Waits (S a.1) a.2) tr) ∧
    (AllSteps devices anyDevices noDevices (fun S a => Waits (S a.1) a.2) tr →
      ∀ e ∈ tr, WorkOk (e.1.2, e.2)) ∧
    ∀ i, RemoveRight (S i) ↔ Waits (S i) .remove := by
  have hiff : AllStates devices anyDevices noDevices (fun S => ∀ i, AddedFirst (S i)) tr ↔
      AllSteps devices anyDevices noDevices (fun S a => Waits (S a.1) a.2) tr := by
    refine Run.allStates_iff (fun i hgone => absurd rfl hgone) ?_ hrun
    rintro tr S ⟨j, a⟩ - - - hall
    have hstep := (hall j).next a
    show (∀ i, AddedFirst (Function.update S j ((S j).next a).1 i)) ↔ Waits (S j) a
    rw [← hstep]
    constructor
    · intro hafter
      have hj := hafter j
      rwa [Function.update_self] at hj
    · intro hj i
      by_cases hi : i = j
      · subst hi
        rwa [Function.update_self]
      · rw [Function.update_of_ne hi]
        exact hall i
  refine ⟨hiff, fun hwaits e he => ?_, fun i => removeRight_iff (run_finished (run_member hrun i))⟩
  have hfirst := hiff.mpr hwaits
  obtain ⟨tr₁, tr₂, rfl⟩ := List.append_of_mem he
  obtain ⟨S₁, h₁, -, hen, hans⟩ := hrun.taken
  obtain ⟨⟨i, a⟩, r⟩ := e
  obtain rfl : r = ((S₁ i).next a).2 := hans
  have hmember := run_member h₁ i
  exact (hfirst tr₁ _ S₁ rfl h₁ i).workOk (run_shape hmember) (run_finished hmember) a hen

/-! ## A removal that comes early -/

/-- The rest of a removal. -/
theorem teardown_path {tr : List (LifeStep × LifeRet)} {s : Life} {l : List TeardownStep}
    (h : Going s l) (htodo : s.todo = some l) :
    ∃ more t, Path life anyLife tr s more t ∧ t.allocated = false ∧ t.work = s.work := by
  induction l generalizing tr s with
  | nil =>
    refine ⟨[], s, .refl, ?_, rfl⟩
    have hnot := h.allocated
    simpa using hnot
  | cons x rest ih =>
    have he : s.Enabled .teardown := ⟨by simp [htodo], by simp [htodo]⟩
    have hnext : s.next .teardown = ({ s.takeDown x with todo := some rest }, .nothing) := by
      simp only [Life.next, htodo]
    have hstep : Path life anyLife tr s [(.teardown, (s.next .teardown).2)] (s.next .teardown).1 :=
      Path.single (M := life) _ trivial he
    rw [hnext] at hstep
    obtain ⟨more, t, hpath, hfreed, hwork⟩ := @ih (tr ++ [(.teardown, .nothing)]) _ h.takeDown rfl
    exact ⟨_, t, hstep.trans hpath, hfreed, hwork⟩

/-- A removal of an idle device whose disk has not been added can go on so that the work item finds
the device freed. -/
theorem early_remove_faults {tr : List (LifeStep × LifeRet)} {s : Life}
    (hrun : Run life anyLife .unborn tr s) (he : s.Enabled .remove) (hearly : ¬ Waits s .remove) :
    ∃ more t, Path life anyLife tr s more t ∧ ∃ e ∈ more, ¬ WorkOk e := by
  have hs := run_shape hrun
  have hfin := run_finished hrun
  have hlisted : s.listed = true := he
  rcases remove_effect s.dev with ⟨-, hwhy⟩ | ⟨hgone, hr, hu⟩
  · refine absurd ?_ hearly
    intro hr hu
    exact absurd ⟨hr, hu⟩ (not_idle hwhy)
  · have hunfinished : s.work ≠ some .finished := fun hw => hearly fun _ _ => hfin.mpr hw
    have hborn : s.work.isSome = true := by
      cases htodo : s.todo with
      | none => exact (hs.staying htodo).listed.symm.trans hlisted
      | some l => exact (hs.going l htodo).2
    have hfirst : Path life anyLife tr s [(.remove, (s.next .remove).2)] (s.next .remove).1 :=
      Path.single (M := life) _ trivial he
    have htodo : (s.next .remove).1.todo = some teardownSteps := by simp [Life.next, hgone]
    have hwork : (s.next .remove).1.work = s.work := rfl
    obtain ⟨more, t, hpath, hfreed, hsame⟩ := @teardown_path (tr ++ [(.remove, (s.next .remove).2)])
      _ _ ((hs.next .remove he).going _ htodo).1 htodo
    have hall := hfirst.trans hpath
    rw [hwork] at hsame
    -- the work item goes on where it is
    obtain ⟨w, hw⟩ := Option.isSome_iff_exists.mp hborn
    cases w with
    | queued =>
      have hen : life.enabled t .workBegin := hsame.trans hw
      have hlast := hall.step _ trivial hen
      refine ⟨_, _, hlast, _, List.mem_append_right _ (List.mem_singleton_self _), ?_⟩
      simp [WorkOk, life, Life.next, hfreed]
    | running =>
      have hen : life.enabled t .workFinish := hsame.trans hw
      have hlast := hall.step _ trivial hen
      refine ⟨_, _, hlast, _, List.mem_append_right _ (List.mem_singleton_self _), ?_⟩
      simp [WorkOk, life, Life.next, hfreed]
    | finished => exact absurd hw hunfinished

/-- A device is removed before its disk is added. -/
theorem removed_before_added : ¬ RemovesLate := by
  intro h
  have hrun := @path_exec _ _ _ devices anyDevices [] noDevices [(0, .create 512 1024), (0, .remove)]
    (by decide)
  have hadded := h _ _ hrun 0 (by decide)
  exact absurd hadded (by decide)

/-- Two devices, of which one is removed after its disk was added. -/
theorem add_disk_first_sample :
    let steps := [(0, .create 512 1024), (1, .create 512 2048), (0, .workBegin), (0, .workFinish),
      (0, .remove), (0, .teardown), (1, .workBegin)]
    AllStates devices anyDevices noDevices (fun S => ∀ i, AddedFirst (S i))
        (traceOf devices noDevices steps) ∧
      ∀ e ∈ traceOf devices noDevices steps, WorkOk (e.1.2, e.2) := by
  intro steps
  have hrun := @path_exec _ _ _ devices anyDevices [] noDevices steps (by decide)
  have hwaits : AllSteps devices anyDevices noDevices (fun S a => Waits (S a.1) a.2)
      (traceOf devices noDevices steps) := by
    refine allSteps_exec steps ⟨trivial, trivial, trivial, trivial, ?_, trivial, trivial, trivial⟩
    exact fun _ _ => rfl
  obtain ⟨hiff, hwork, -⟩ := add_disk_first hrun
  exact ⟨hiff.mpr hwaits, hwork hwaits⟩

end BDTun
