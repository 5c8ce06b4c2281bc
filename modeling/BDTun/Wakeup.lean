import BDTun.Threads

/-!
# Sleeping readers and the incoming list

Two steps put bios on the incoming list.  A submission then issues a `wake_up`;
a close, which splices the pending list back, does not.

* `Covered`: bios that wait are covered by a `wake_up` still to come, or no
  reader has found the list empty and not been woken since.
* `no_lost_wakeup`: `Covered` holds of every run whose closes are safe (`CloseSafe`),
  so no reader sleeps over a bio there; and a close that is not safe is at most
  one step away from a reader that does.
-/

namespace BDTun

open Machine

section
variable [Kernel]

/-- A bio waits, a reader sleeps, and nobody is going to wake it. -/
def LostWakeup (t : Threads) : Prop :=
  t.world.dev.incomingBioList ≠ [] ∧ (∃ r, t.reader r = .asleep) ∧ t.posted = []

/-- A reader that has found the list empty and was not woken since: it sleeps, or is about to. -/
def Unwoken (t : Threads) : Prop := ∃ r, t.reader r = .checked false ∨ t.reader r = .asleep

def Covered (t : Threads) : Prop :=
  t.world.dev.incomingBioList ≠ [] → Unwoken t → t.posted ≠ []

/-- A close gives nothing back, or no reader misses it, or a `wake_up` is still to come. -/
def CloseSafe (t : Threads) : Step → Prop
  | .chRelease => t.world.dev.pendingBioList ≠ [] → Unwoken t → t.posted ≠ []
  | _ => True

theorem Covered.safe {t : Threads} (h : Covered t) : ¬ LostWakeup t := by
  rintro ⟨hwait, ⟨r, hr⟩, hposted⟩
  exact h hwait ⟨r, Or.inr hr⟩ hposted

/-- A step after which no more waits, no more readers are unwoken and the same wakeups are to come. -/
theorem Covered.mono {t u : Threads} (h : Covered t)
    (hwait : u.world.dev.incomingBioList ≠ [] → t.world.dev.incomingBioList ≠ [])
    (hreader : Unwoken u → Unwoken t) (hposted : u.posted = t.posted) : Covered u := by
  intro hu hun
  rw [hposted]
  exact h (hwait hu) (hreader hun)

/-- Moving one reader to a place where it is not unwoken leaves no more of them. -/
theorem unwoken_setReader {t : Threads} {r : Thread} {p : Reader}
    (hp : p = .checked false ∨ p = .asleep → t.reader r = .checked false ∨ t.reader r = .asleep)
    (h : Unwoken (t.setReader r p)) : Unwoken t := by
  obtain ⟨q, hq⟩ := h
  by_cases hqr : q = r
  · subst hqr
    simp only [Threads.setReader, Function.update_self] at hq
    exact ⟨q, hp hq⟩
  · simp only [Threads.setReader, Function.update_of_ne hqr] at hq
    exact ⟨q, hq⟩

omit [Kernel] in
theorem wake_ne (p : Reader) : ¬ (p.wake = .checked false ∨ p.wake = .asleep) := by
  cases p <;> simp [Reader.wake]

theorem Covered.setReader {t : Threads} (h : Covered t) {r : Thread} {p : Reader}
    (hp : p = .checked false ∨ p = .asleep → t.reader r = .checked false ∨ t.reader r = .asleep) :
    Covered (t.setReader r p) :=
  h.mono id (unwoken_setReader hp) rfl

/-- A step that only takes entries off the incoming list. -/
theorem Covered.shrink {t u : Threads} (h : Covered t)
    (hsub : u.world.dev.incomingBioList.Sublist t.world.dev.incomingBioList)
    (hreader : u.reader = t.reader) (hposted : u.posted = t.posted) : Covered u := by
  refine h.mono ?_ ?_ hposted
  · intro hu hnil
    rw [hnil] at hsub
    exact hu (List.sublist_nil.mp hsub)
  · unfold Unwoken
    rw [hreader]
    exact id

/-- **Every step keeps it**, if the closes are safe. -/
theorem Covered.next {t : Threads} (h : Covered t) (e : Step) (he : t.Enabled e)
    (hsafe : CloseSafe t e) : Covered (t.next e).1 := by
  cases e with
  | refuse bio => exact h.shrink (List.Sublist.refl _) rfl rfl
  | append bio new =>
    intro _ _
    simp [Threads.next]
  | wakeUp bio =>
    rintro - ⟨r, hr⟩
    exact absurd hr (wake_ne _)
  | account bio => exact h.shrink (List.Sublist.refl _) rfl rfl
  | enter r => exact h.setReader (by simp)
  | prepareToWait r => exact h.setReader (by simp)
  | check r =>
    simp only [Threads.next]
    cases hl : t.world.dev.incomingBioList with
    | nil =>
      intro hwait
      exact absurd hl hwait
    | cons a rest =>
      simp only
      cases hent : t.world.entries a with
      | none => exact h
      | some entry =>
        refine h.mono ?_ ?_ rfl
        · intro _
          rw [hl]
          exact List.cons_ne_nil a rest
        · exact unwoken_setReader (by simp)
  | schedule r =>
    apply h.setReader
    intro hp
    rcases he with hw | hw
    · exact Or.inl hw
    · rw [hw, if_pos rfl] at hp
      exact absurd hp (by simp)
  | signal r => exact h.setReader fun hp => absurd hp (wake_ne _)
  | finishWait r signal => exact h.setReader (by cases signal <;> simp)
  | chOpen =>
    refine h.shrink ?_ rfl rfl
    rw [show (t.next .chOpen).1.world.dev.incomingBioList = _ from
      (bdtunchOpen_lists t.world.dev).1]
  | chRelease =>
    intro hwait hun
    have hwait' : t.world.dev.incomingBioList ++ t.world.dev.pendingBioList ≠ [] := hwait
    by_cases hp : t.world.dev.pendingBioList = []
    · rw [hp, List.append_nil] at hwait'
      exact h hwait' hun
    · exact hsafe hp hun
  | setCurrent id => exact h.shrink (List.Sublist.refl _) rfl rfl
  | transfer =>
    simp only [Threads.next]
    split <;> exact h
  | endio byte =>
    simp only [Threads.next]
    split
    · exact h
    · exact h.shrink (List.Sublist.refl _) rfl rfl
  | iostat =>
    simp only [Threads.next]
    split
    · exact h
    · exact h.shrink (List.Sublist.refl _) rfl rfl
  | unlink =>
    simp only [Threads.next]
    split
    · exact h
    · exact h.shrink List.erase_sublist rfl rfl
  | free =>
    simp only [Threads.next]
    split
    · exact h
    · exact h.shrink (List.Sublist.refl _) rfl rfl

theorem run_covered {blockSize size : Nat} {mem : Mem} {tr : List (Step × List Touch)}
    {t : Threads} (h : Run (threads.restrict CloseSafe) anyone
      (Threads.start (World.init blockSize size mem)) tr t) : Covered t := by
  refine h.invariant (fun _ t => Covered t) ?_ ?_
  · intro hwait
    exact absurd rfl hwait
  · intro _ t e ht _ he
    exact ht.next e he.1 he.2

/-- After a close that is not safe, a reader sleeps over a bio at once or one step later. -/
theorem unsafe_close {t : Threads} (h : ¬ CloseSafe t .chRelease) :
    LostWakeup (t.next .chRelease).1 ∨
    ∃ r, (t.next .chRelease).1.Enabled (.schedule r) ∧
      LostWakeup ((t.next .chRelease).1.next (.schedule r)).1 := by
  simp only [CloseSafe, not_forall] at h
  obtain ⟨hpend, ⟨r, hr⟩, hposted⟩ := h
  have hposted : t.posted = [] := by
    by_contra hne
    exact hposted hne
  have hwait : t.world.dev.incomingBioList ++ t.world.dev.pendingBioList ≠ [] := by
    intro hnil
    exact hpend (List.append_eq_nil_iff.mp hnil).2
  rcases hr with hr | hr
  · right
    refine ⟨r, Or.inl hr, hwait, ⟨r, ?_⟩, hposted⟩
    simp [Threads.next, Threads.setReader, hr]
  · left
    exact ⟨hwait, ⟨r, hr⟩, hposted⟩

/-- What the readers of a device rely on. -/
def NoLostWakeup (world : World) : Prop :=
  ∀ tr t, Run threads anyone (Threads.start world) tr t → ¬ LostWakeup t

/-- **No lost wakeup, if the closes are safe.**  In every run in which each close gives nothing back,
or finds no reader that has seen an empty list and is still to be woken, or a `wake_up` still to
come, no reader sleeps over a bio.  A close that is not of this kind leads to one that does. -/
theorem no_lost_wakeup {blockSize size : Nat} {mem : Mem} {tr : List (Step × List Touch)}
    {t : Threads} :
    (Run (threads.restrict CloseSafe) anyone (Threads.start (World.init blockSize size mem)) tr t →
      ¬ LostWakeup t) ∧
    (Run threads anyone (Threads.start (World.init blockSize size mem)) tr t →
      t.Enabled .chRelease → ¬ CloseSafe t .chRelease →
      ∃ more u, Path threads anyone tr t ((.chRelease, []) :: more) u ∧ LostWakeup u) := by
  refine ⟨fun h => (run_covered h).safe, fun _ he hunsafe => ?_⟩
  have hclose : Path threads anyone tr t [(Step.chRelease, [])] (t.next .chRelease).1 :=
    Path.single (M := threads) Step.chRelease trivial he
  rcases unsafe_close hunsafe with hlost | ⟨r, hen, hlost⟩
  · exact ⟨[], _, hclose, hlost⟩
  · have hsleep : Path threads anyone (tr ++ [(Step.chRelease, [])]) (t.next .chRelease).1
        [(Step.schedule r, [])] ((t.next .chRelease).1.next (.schedule r)).1 :=
      Path.single (M := threads) (Step.schedule r) trivial hen
    exact ⟨_, _, hclose.trans hsleep, hlost⟩

end

section
attribute [local instance] linux32

/-- One reader takes a bio, a second sleeps, and the first one's file is closed: the second sleeps on,
with the bio back on the list. -/
theorem wakeup_lost : ¬ NoLostWakeup (World.init 512 1024 fun _ => 0) := by
  intro h
  have hrun := @path_exec _ _ _ threads anyone []
    (Threads.start (World.init 512 1024 fun _ => 0))
    [.chOpen, .chOpen, .append sampleWrite 16, .wakeUp sampleWrite, .account sampleWrite, .enter 0,
      .prepareToWait 0, .check 0, .enter 1, .prepareToWait 1, .check 1, .schedule 1, .chRelease]
    (by decide)
  exact h _ _ hrun ⟨by decide, ⟨1, by decide⟩, by decide⟩

/-- A reader that finds the list empty, sleeps, is woken by a submission and takes its bio. -/
def sleptAndWoken : List Step :=
  [.chOpen, .enter 0, .prepareToWait 0, .check 0, .schedule 0, .append sampleWrite 16,
    .wakeUp sampleWrite, .finishWait 0 false, .prepareToWait 0, .check 0]

/-- After it the file can be closed: a bio goes back, but nobody has missed it. -/
theorem no_lost_wakeup_sample :
    (exec threads (Threads.start (World.init 512 1024 fun _ => 0))
      (sleptAndWoken.take 5)).reader 0 = .asleep ∧
    ¬ LostWakeup ((exec threads (Threads.start (World.init 512 1024 fun _ => 0))
      sleptAndWoken).next .chRelease).1 := by
  refine ⟨by decide, ?_⟩
  have hbefore := @path_exec _ _ _ (threads.restrict fun _ e => e ≠ .chRelease) anyone []
    (Threads.start (World.init 512 1024 fun _ => 0)) sleptAndWoken (by decide)
  have hsafe := hbefore.relax (D := CloseSafe) fun _ e he => by
    cases e <;> trivial
  have hidle : ∀ r, (exec threads (Threads.start (World.init 512 1024 fun _ => 0))
      sleptAndWoken).reader r = .idle := by
    intro r
    cases r <;> rfl
  have hclose := hsafe.step Step.chRelease trivial ⟨by decide, fun _ hun => ?_⟩
  · exact no_lost_wakeup.1 hclose
  · obtain ⟨r, hr⟩ := hun
    rcases hr with hr | hr <;> exact absurd ((hidle r).symm.trans hr) (by decide)

end

end BDTun
