import BDTun.Lifetime

/-!
# Opens that race with a removal

A removal sets `removing`, and an open that finds it is refused.  But an open that
has been dispatched is not waited for: `queuedata` is cleared while the gendisk
is still registered, and the device is freed when its `del_gendisk` and
`cdev_del` have returned.

* `Clear`: the steps that leave no open without a device.
* `safe_iff`: when every open that is on its way comes out as it should.
* `opens_refused`: all along a run they do, exactly when its steps are clear.
-/

namespace BDTun

open Machine

/-- How an open is refused while the device is being removed. -/
def refusal (h : Handle) : Int :=
  match h.1 with
  | .block => -enoent
  | .tunnel => -ebusy

/-- What comes of an open on its way, if it runs now. -/
def Life.openNow (s : Life) (h : Handle) : LifeRet :=
  if h ∈ s.dispatched then
    let (t, r) := s.next (.fetch h)
    if r = .nothing then (t.next (.section h)).2 else r
  else (s.next (.section h)).2

/-- Every open on its way returns, and is refused once a removal has gone on. -/
def Safe (s : Life) : Prop :=
  ∀ h, h ∈ s.dispatched ∨ h ∈ s.fetched →
    ∃ code, s.openNow h = .ret code ∧ (s.dev.removing = true → code = refusal h)

/-- `queuedata` is cleared when no open has yet to read it, and no open is dispatched to the block
device after that; the device is freed when no open is on its way. -/
def Clear (s : Life) : LifeStep → Prop
  | .dispatch h => h.1 = .block → s.queuedata = true
  | .teardown =>
    (∀ rest, s.todo = some (.clearQueuedata :: rest) → ∀ h ∈ s.dispatched, h.1 ≠ .block) ∧
      ∀ rest, s.todo = some (.kfree :: rest) → s.dispatched = [] ∧ s.fetched = []
  | _ => True

/-! ## Opens on their way -/

theorem open_refused {dev : Bdtun} (h : Handle) (hr : dev.removing = true) :
    (nodeNext dev (.opens h)).2 = refusal h := by
  obtain ⟨n, k⟩ := h
  cases n with
  | block => simp [nodeNext, bdtunOpen, hr, refusal]
  | tunnel => simp [nodeNext, bdtunchOpen_of_removing hr, refusal]

theorem section_ret {s : Life} (ha : s.allocated = true) (h : Handle) :
    (s.next (.section h)).2 = .ret (nodeNext s.dev (.opens h)).2 := by
  simp [Life.next, ha]

theorem openNow_ret {s : Life} (ha : s.allocated = true) {h : Handle}
    (hq : h ∈ s.dispatched → h.1 = .block → s.queuedata = true) :
    s.openNow h = .ret (nodeNext s.dev (.opens h)).2 := by
  unfold Life.openNow
  split
  · next hd =>
    have hway : ¬ (h.1 = .block ∧ s.queuedata = false) := by
      rintro ⟨hb, hnull⟩
      rw [hq hd hb] at hnull
      cases hnull
    simp only [Life.next, if_neg hway, if_true, ha]
  · exact section_ret ha h

theorem openNow_freed {s : Life} (ha : s.allocated = false) (h : Handle) (code : Int) :
    s.openNow h ≠ .ret code := by
  unfold Life.openNow
  split
  · simp only [Life.next]
    split
    · simp
    · simp [ha]
  · simp [Life.next, ha]

/-- No open is without a device. -/
theorem safe_iff (s : Life) :
    Safe s ↔ (s.queuedata = false → ∀ h ∈ s.dispatched, h.1 ≠ .block) ∧
      (s.allocated = false → s.dispatched = [] ∧ s.fetched = []) := by
  constructor
  · intro hsafe
    refine ⟨fun hq h hd hb => ?_, fun ha => ⟨?_, ?_⟩⟩
    · obtain ⟨code, hret, -⟩ := hsafe h (Or.inl hd)
      simp [Life.openNow, hd, Life.next, hb, hq] at hret
    · refine List.eq_nil_iff_forall_not_mem.mpr ?_
      intro h hd
      obtain ⟨code, hret, -⟩ := hsafe h (Or.inl hd)
      exact openNow_freed ha h code hret
    · refine List.eq_nil_iff_forall_not_mem.mpr ?_
      intro h hf
      obtain ⟨code, hret, -⟩ := hsafe h (Or.inr hf)
      exact openNow_freed ha h code hret
  · rintro ⟨hq, ha⟩ h hway
    have halloc : s.allocated = true := by
      by_contra hfreed
      obtain ⟨hd, hf⟩ := ha (by simpa using hfreed)
      rw [hd, hf] at hway
      simp at hway
    refine ⟨_, openNow_ret halloc fun hd hb => ?_, open_refused h⟩
    by_contra hnull
    exact hq (by simpa using hnull) h hd hb

/-- **Every step**, from a state where all opens come out as they should. -/
theorem Safe.next {s : Life} (h : Safe s) (hs : Shape s) (a : LifeStep) (he : s.Enabled a) :
    Safe (s.next a).1 ↔ Clear s a := by
  rw [safe_iff] at h ⊢
  obtain ⟨hq, ha⟩ := h
  cases a with
  | create blockSize size =>
    exact iff_of_true ⟨fun hnull => absurd hnull (by simp [Life.next, Life.created]),
      fun hfreed => absurd hfreed (by simp [Life.next, Life.created])⟩ trivial
  | workBegin =>
    refine iff_of_true ?_ trivial
    simp only [Life.next]
    split
    · exact ⟨hq, ha⟩
    · exact ⟨hq, ha⟩
  | workFinish =>
    refine iff_of_true ?_ trivial
    simp only [Life.next]
    split
    · exact ⟨hq, ha⟩
    · exact ⟨hq, ha⟩
  | dispatch k =>
    constructor
    · intro hafter hb
      by_contra hsome
      have hnull : s.queuedata = false := by simpa using hsome
      exact hafter.1 hnull k List.mem_cons_self hb
    · intro hclear
      have halloc : s.allocated = true := by
        refine hs.allocated ?_
        have hreg : s.Registered k := he.1
        unfold Life.Registered at hreg
        cases hn : k.1 with
        | block => exact Or.inl (hclear hn)
        | tunnel =>
          rw [hn] at hreg
          exact Or.inr (Or.inl hreg)
      constructor
      · intro hnull h hd hb
        rcases List.mem_cons.mp hd with rfl | hold
        · exact absurd ((hclear hb).symm.trans hnull) (by decide)
        · exact hq hnull h hold hb
      · intro hfreed
        exact absurd (halloc.symm.trans hfreed) (by decide)
  | fetch k =>
    have hmem : k ∈ s.dispatched := he
    refine iff_of_true ?_ trivial
    have halloc : s.allocated = true := by
      by_contra hfreed
      rw [(ha (by simpa using hfreed)).1] at hmem
      cases hmem
    simp only [Life.next]
    split
    · refine ⟨fun hnull h hd => hq hnull h (List.mem_of_mem_erase hd), fun hfreed => ?_⟩
      exact absurd (halloc.symm.trans hfreed) (by decide)
    · refine ⟨fun hnull h hd => hq hnull h (List.mem_of_mem_erase hd), fun hfreed => ?_⟩
      exact absurd (halloc.symm.trans hfreed) (by decide)
  | «section» k =>
    have hmem : k ∈ s.fetched := he
    refine iff_of_true ?_ trivial
    have halloc : s.allocated = true := by
      by_contra hfreed
      rw [(ha (by simpa using hfreed)).2] at hmem
      cases hmem
    simp only [Life.next, if_pos halloc]
    exact ⟨hq, fun hfreed => absurd (halloc.symm.trans hfreed) (by decide)⟩
  | release k =>
    refine iff_of_true ?_ trivial
    simp only [Life.next]
    split
    · exact ⟨hq, ha⟩
    · split
      · exact ⟨hq, ha⟩
      · exact ⟨hq, ha⟩
  | remove => exact iff_of_true ⟨hq, ha⟩ trivial
  | teardown =>
    cases htodo : s.todo with
    | none => exact absurd htodo he.1
    | some l =>
      cases l with
      | nil => exact absurd htodo he.2
      | cons x rest =>
        simp only [Life.next, htodo]
        unfold Clear
        rw [htodo]
        constructor
        · intro hafter
          constructor
          · intro rest' hx
            obtain ⟨rfl, -⟩ := List.cons.inj (Option.some.inj hx)
            exact hafter.1 (by simp [Life.takeDown])
          · intro rest' hx
            obtain ⟨rfl, -⟩ := List.cons.inj (Option.some.inj hx)
            exact hafter.2 (by simp [Life.takeDown])
        · rintro ⟨hclear, hfree⟩
          constructor
          · intro hnull
            have hnull : (s.queuedata && x != .clearQueuedata) = false := hnull
            by_cases hx : x = .clearQueuedata
            · subst hx
              exact hclear rest rfl
            · rw [bne_iff_ne.mpr hx, Bool.and_true] at hnull
              exact hq hnull
          · intro hfreed
            have hfreed : (s.allocated && x != .kfree) = false := hfreed
            by_cases hx : x = .kfree
            · subst hx
              exact hfree rest rfl
            · rw [bne_iff_ne.mpr hx, Bool.and_true] at hfreed
              exact ha hfreed

/-! ## Runs -/

/-- What the bodies of opens come to: they get hold of the device, they return, and they are refused
once a removal has gone on. -/
def OpenOk (tr : List (LifeStep × LifeRet)) : LifeStep × LifeRet → Prop
  | (.fetch _, r) => r = .nothing
  | (.section h, r) => ∃ code, r = .ret code ∧ ((.remove, .ret 0) ∈ tr → code = refusal h)
  | _ => True

def OpensOk (tr : List (LifeStep × LifeRet)) : Prop :=
  ∀ tr₁ e tr₂, tr = tr₁ ++ e :: tr₂ → OpenOk tr₁ e

/-- A removal that has gone on stays. -/
theorem todo_stays {s : Life} (hs : Shape s) (a : LifeStep) (he : s.Enabled a)
    (hgone : s.todo.isSome = true) : (s.next a).1.todo.isSome = true := by
  cases a with
  | create blockSize size =>
    obtain ⟨l, hl⟩ := Option.isSome_iff_exists.mp hgone
    have hborn := (hs.going l hl).2
    have hnone : s.work = none := he
    rw [hnone] at hborn
    cases hborn
  | remove =>
    simp only [Life.next]
    split
    · rfl
    · exact hgone
  | teardown =>
    simp only [Life.next]
    split
    · rfl
    · exact hgone
  | workBegin => simp only [Life.next]; split <;> exact hgone
  | workFinish => simp only [Life.next]; split <;> exact hgone
  | dispatch k => exact hgone
  | fetch k => simp only [Life.next]; split <;> exact hgone
  | «section» k => simp only [Life.next]; split <;> exact hgone
  | release k =>
    simp only [Life.next]
    split
    · exact hgone
    · split <;> exact hgone

/-- A removal that has gone on has set `removing`. -/
theorem run_going {tr : List (LifeStep × LifeRet)} {s : Life} (hrun : Run life anyLife .unborn tr s)
    (hgone : (.remove, .ret 0) ∈ tr) : s.dev.removing = true := by
  have htodo : (.remove, .ret 0) ∈ tr → s.todo.isSome = true := by
    refine hrun.keeps (fun tr s => (.remove, .ret 0) ∈ tr → s.todo.isSome = true) ?_ ?_
    · intro hmem
      cases hmem
    · intro tr s a hrun hgone _ he hmem
      rcases List.mem_append.mp hmem with hold | hnew
      · exact todo_stays (run_shape hrun) a he (hgone hold)
      · have hthis := List.mem_singleton.mp hnew
        obtain ⟨rfl, hzero⟩ := Prod.mk.inj hthis
        rcases remove_effect s.dev with ⟨hbusy, -⟩ | ⟨hgoing, -⟩
        · have hcode : (life.next s .remove).2 = .ret (-ebusy) := by
            simp [life, Life.next, hbusy]
          rw [hcode] at hzero
          exact absurd hzero (by decide)
        · simp [life, Life.next, hgoing]
  obtain ⟨l, hl⟩ := Option.isSome_iff_exists.mp (htodo hgone)
  exact ((run_shape hrun).going l hl).1.removing

theorem Safe.openOk {tr : List (LifeStep × LifeRet)} {s : Life} (h : Safe s)
    (hrun : Run life anyLife .unborn tr s) (a : LifeStep) (he : s.Enabled a) :
    OpenOk tr (a, (s.next a).2) := by
  obtain ⟨hq, ha⟩ := (safe_iff s).mp h
  cases a with
  | fetch k =>
    have hmem : k ∈ s.dispatched := he
    have hway : ¬ (k.1 = .block ∧ s.queuedata = false) := fun hnull => hq hnull.2 k hmem hnull.1
    simp [OpenOk, Life.next, hway]
  | «section» k =>
    have hmem : k ∈ s.fetched := he
    have halloc : s.allocated = true := by
      by_contra hfreed
      rw [(ha (by simpa using hfreed)).2] at hmem
      cases hmem
    exact ⟨_, section_ret halloc k, fun hgone => open_refused k (run_going hrun hgone)⟩
  | _ => trivial

/-- What opens are expected to come to, in every run. -/
def OpensRefused : Prop :=
  ∀ tr s, Run life anyLife .unborn tr s → OpensOk tr

/-- **Opens and removal.**  In every run: all along it every open on its way would return, refused if
a removal has gone on, having used the device while it was allocated, exactly when each step was
clear; and then so did every open of the run. -/
theorem opens_refused {tr : List (LifeStep × LifeRet)} {s : Life}
    (hrun : Run life anyLife .unborn tr s) :
    (AllStates life anyLife .unborn Safe tr ↔ AllSteps life anyLife .unborn Clear tr) ∧
      (AllSteps life anyLife .unborn Clear tr → OpensOk tr) := by
  have hiff : AllStates life anyLife .unborn Safe tr ↔ AllSteps life anyLife .unborn Clear tr := by
    refine Run.allStates_iff ?_ ?_ hrun
    · intro h hway
      simp [Life.unborn] at hway
    · intro tr s a hrun _ he hsafe
      exact hsafe.next (run_shape hrun) a he
  refine ⟨hiff, fun hclear tr₁ e tr₂ htr => ?_⟩
  have hsafe := hiff.mpr hclear
  subst htr
  obtain ⟨s₁, h₁, -, he, hans⟩ := hrun.taken
  obtain ⟨a, r⟩ := e
  obtain rfl : r = (s₁.next a).2 := hans
  exact (hsafe tr₁ _ s₁ rfl h₁).openOk h₁ a he

/-- An open of the block device, dispatched before the removal, that reads `queuedata` after it is
cleared. -/
theorem open_gets_null : ¬ OpensRefused := by
  intro h
  have hrun := @path_exec _ _ _ life anyLife [] .unborn
    [.create 512 1024, .workBegin, .workFinish, .dispatch (.block, 0), .remove, .teardown, .teardown,
      .teardown, .teardown, .fetch (.block, 0)] (by decide)
  have hok : LifeRet.null = .nothing := h _ _ hrun
    (traceOf life .unborn [.create 512 1024, .workBegin, .workFinish, .dispatch (.block, 0), .remove,
      .teardown, .teardown, .teardown, .teardown]) (.fetch (.block, 0), .null) [] (by decide)
  cases hok

/-- An open of the tunnel that is refused while the device is taken down. -/
theorem opens_refused_sample :
    let steps := [.create 512 1024, .dispatch (.tunnel, 0), .remove, .teardown, .teardown, .teardown,
      .teardown, .fetch (.tunnel, 0), .section (.tunnel, 0), .teardown]
    AllStates life anyLife .unborn Safe (traceOf life .unborn steps) ∧
      OpensOk (traceOf life .unborn steps) := by
  intro steps
  have hrun := @path_exec _ _ _ life anyLife [] .unborn steps (by decide)
  have hclear : AllSteps life anyLife .unborn Clear (traceOf life .unborn steps) := by
    refine allSteps_exec steps ?_
    have hother : ∀ {x y : TeardownStep} {l rest : List TeardownStep}, x ≠ y →
        some (x :: l) ≠ some (y :: rest) :=
      fun hne heq => hne (List.cons.inj (Option.some.inj heq)).1
    refine ⟨trivial, nofun, trivial, ?_, ?_, ?_, ?_, trivial, trivial, ?_, trivial⟩
    case refine_4 =>
      -- `queuedata` is cleared while the open of the tunnel is on its way
      exact ⟨fun _ _ => by decide, fun _ heq => absurd heq (hother (by decide))⟩
    all_goals exact ⟨fun _ heq => absurd heq (hother (by decide)),
      fun _ heq => absurd heq (hother (by decide))⟩
  obtain ⟨hiff, hopens⟩ := opens_refused hrun
  exact ⟨hiff.mpr hclear, hopens hclear⟩

end BDTun
