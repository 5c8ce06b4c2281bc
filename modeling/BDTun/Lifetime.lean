import Mathlib.Data.List.Infix
import BDTun.Control

/-!
# The life of a device, step by step

One device from its create to its `kfree`, with what runs beside it: its
`add_disk` work item, the opens of its two nodes, and the calls of a removal one
by one.  An open is dispatched by the VFS while its node is registered; then it
gets hold of the device (`fetch`: the block device through `queuedata`), and goes
through its section of `ru_lock` (`section`).  A step that gets a null
`queuedata`, or that uses the device when it is freed, says so in its answer.

* `Shape`: what is still registered, against the calls a removal has yet to make.
* `run_shape`: that in every run.
-/

namespace BDTun

open Machine

/-- A work item: queued, in `add_disk`, or freed. -/
inductive WorkStage
  | queued | running | finished
deriving DecidableEq

structure Life where
  dev : Bdtun
  addDiskFinished : Bool
  allocated : Bool
  /-- `queue->queuedata` is the device, not `NULL` -/
  queuedata : Bool
  listed : Bool
  cdevRegistered : Bool
  gendiskRegistered : Bool
  /-- nothing before the create -/
  work : Option WorkStage
  /-- the calls that a removal has yet to make -/
  todo : Option (List TeardownStep)
  /-- opens that the VFS has dispatched -/
  dispatched : List Handle
  /-- and those that have the address of the device -/
  fetched : List Handle
  opened : List Handle

/-- Before the create. -/
def Life.unborn : Life where
  dev := newBdtun 0 0
  addDiskFinished := false
  allocated := false
  queuedata := false
  listed := false
  cdevRegistered := false
  gendiskRegistered := false
  work := none
  todo := none
  dispatched := []
  fetched := []
  opened := []

/-- What `bdtun_create_k` leaves. -/
def Life.created (blockSize size : Nat) : Life where
  dev := newBdtun blockSize size
  addDiskFinished := false
  allocated := true
  queuedata := true
  listed := true
  cdevRegistered := true
  gendiskRegistered := false
  work := some .queued
  todo := none
  dispatched := []
  fetched := []
  opened := []

inductive LifeStep
  | create (blockSize size : Nat)
  /-- `bdtun_do_add_disk` calls `add_disk` -/
  | workBegin
  /-- it sets `add_disk_finished` and frees its work item -/
  | workFinish
  | dispatch (h : Handle)
  | fetch (h : Handle)
  | section (h : Handle)
  | release (h : Handle)
  /-- `bdtun_remove_k` up to the end of its section of `ru_lock` -/
  | remove
  /-- the next call of the removal -/
  | teardown
deriving DecidableEq

/-- What a step comes to. -/
inductive LifeRet
  | nothing
  | ret (code : Int)
  /-- `queuedata` was `NULL` -/
  | null
  /-- the device was freed -/
  | freed
deriving DecidableEq

/-- A call of a removal takes away one thing. -/
def Life.takeDown (s : Life) (x : TeardownStep) : Life :=
  { s with
    cdevRegistered := s.cdevRegistered && x != .cdevDel
    queuedata := s.queuedata && x != .clearQueuedata
    gendiskRegistered := s.gendiskRegistered && x != .delGendisk
    listed := s.listed && x != .listDel
    allocated := s.allocated && x != .kfree }

def Life.next (s : Life) : LifeStep → Life × LifeRet
  | .create blockSize size => (.created blockSize size, .ret 0)
  | .workBegin =>
    if s.allocated then ({ s with work := some .running, gendiskRegistered := true }, .nothing)
    else (s, .freed)
  | .workFinish =>
    if s.allocated then ({ s with work := some .finished, addDiskFinished := true }, .nothing)
    else (s, .freed)
  | .dispatch h => ({ s with dispatched := h :: s.dispatched }, .nothing)
  | .fetch h =>
    let t := { s with dispatched := s.dispatched.erase h }
    if h.1 = .block ∧ s.queuedata = false then (t, .null)
    else ({ t with fetched := h :: s.fetched }, .nothing)
  | .section h =>
    let t := { s with fetched := s.fetched.erase h }
    if s.allocated then
      let (dev, code) := nodeNext s.dev (.opens h)
      ({ t with dev := dev, opened := if code = 0 then h :: s.opened else s.opened }, .ret code)
    else (t, .freed)
  | .release h =>
    let t := { s with opened := s.opened.erase h }
    if h.1 = .block ∧ s.queuedata = false then (t, .null)
    else if s.allocated then ({ t with dev := (nodeNext s.dev (.releases h)).1 }, .ret 0)
    else (t, .freed)
  | .remove =>
    let (dev, code) := nodeNext s.dev .remove
    ({ s with dev := dev, todo := if code = 0 then some teardownSteps else s.todo }, .ret code)
  | .teardown =>
    match s.todo with
    | some (x :: rest) => ({ s.takeDown x with todo := some rest }, .nothing)
    | _ => (s, .nothing)

def Life.Registered (s : Life) (h : Handle) : Prop :=
  match h.1 with
  | .block => s.gendiskRegistered = true
  | .tunnel => s.cdevRegistered = true

instance (s : Life) (h : Handle) : Decidable (s.Registered h) := by
  unfold Life.Registered
  split <;> infer_instance

/-- The VFS dispatches opens to registered nodes, a removal finds a device on the list, and the rest
goes on from where it is. -/
def Life.Enabled (s : Life) : LifeStep → Prop
  | .create _ _ => s.work = none
  | .workBegin => s.work = some .queued
  | .workFinish => s.work = some .running
  | .dispatch h => s.Registered h ∧ h ∉ s.dispatched ∧ h ∉ s.fetched ∧ h ∉ s.opened
  | .fetch h => h ∈ s.dispatched
  | .section h => h ∈ s.fetched
  | .release h => h ∈ s.opened
  | .remove => s.listed = true
  | .teardown => s.todo ≠ none ∧ s.todo ≠ some []

instance lifeStepEnabled (s : Life) (a : LifeStep) : Decidable (s.Enabled a) := by
  cases a <;> unfold Life.Enabled <;> infer_instance

def life : Machine Life LifeStep LifeRet where
  enabled := Life.Enabled
  next := Life.next

instance (s : Life) (a : LifeStep) : Decidable (life.enabled s a) :=
  inferInstanceAs (Decidable (s.Enabled a))

abbrev anyLife : Policy LifeStep LifeRet := fun _ _ => True

/-! ## What is still there -/

/-- The calls that a removal has yet to make are the last ones. -/
structure Going (s : Life) (l : List TeardownStep) : Prop where
  last : l <:+ teardownSteps
  queuedata : s.queuedata = true ↔ .clearQueuedata ∈ l
  cdev : s.cdevRegistered = true ↔ .cdevDel ∈ l
  listed : s.listed = true ↔ .listDel ∈ l
  allocated : s.allocated = true ↔ .kfree ∈ l
  removing : s.dev.removing = true

/-- No removal has gone on. -/
structure Staying (s : Life) : Prop where
  queuedata : s.queuedata = s.work.isSome
  cdev : s.cdevRegistered = s.work.isSome
  listed : s.listed = s.work.isSome
  allocated : s.allocated = s.work.isSome
  removing : s.dev.removing = false

/-- What is registered and allocated. -/
structure Shape (s : Life) : Prop where
  staying : s.todo = none → Staying s
  going : ∀ l, s.todo = some l → Going s l ∧ s.work.isSome = true

theorem going_order {l : List TeardownStep} (h : l <:+ teardownSteps) :
    l.Nodup ∧ (l ≠ [] → .kfree ∈ l) ∧ (.cdevDel ∈ l → .clearQueuedata ∈ l) := by
  have hall : ∀ l ∈ teardownSteps.tails,
      l.Nodup ∧ (l ≠ [] → .kfree ∈ l) ∧ (.cdevDel ∈ l → .clearQueuedata ∈ l) := by decide
  exact hall l (List.mem_tails _ _ |>.mpr h)

/-- While there is a way to it, the device is allocated. -/
theorem Shape.allocated {s : Life} (h : Shape s)
    (hway : s.queuedata = true ∨ s.cdevRegistered = true ∨ s.listed = true) :
    s.allocated = true := by
  cases htodo : s.todo with
  | none =>
    obtain ⟨hq, hc, hl, ha, -⟩ := h.staying htodo
    rw [ha]
    rw [hq, hc, hl] at hway
    simpa using hway
  | some l =>
    obtain ⟨⟨hlast, hq, hc, hl, ha, -⟩, -⟩ := h.going l htodo
    rw [ha]
    rw [hq, hc, hl] at hway
    refine (going_order hlast).2.1 ?_
    rintro rfl
    simp at hway

/-- A step that leaves all of it alone. -/
theorem Shape.congr {s t : Life} (h : Shape s) (hq : t.queuedata = s.queuedata)
    (hc : t.cdevRegistered = s.cdevRegistered) (hl : t.listed = s.listed)
    (ha : t.allocated = s.allocated) (hr : t.dev.removing = s.dev.removing)
    (htodo : t.todo = s.todo) (hw : t.work.isSome = s.work.isSome) : Shape t := by
  constructor
  · intro hnone
    obtain ⟨hq', hc', hl', ha', hr'⟩ := h.staying (htodo ▸ hnone)
    exact ⟨by rw [hq, hw, hq'], by rw [hc, hw, hc'], by rw [hl, hw, hl'], by rw [ha, hw, ha'],
      by rw [hr, hr']⟩
  · intro l hsome
    obtain ⟨⟨hlast, hq', hc', hl', ha', hr'⟩, hw'⟩ := h.going l (htodo ▸ hsome)
    exact ⟨⟨hlast, by rw [hq, hq'], by rw [hc, hc'], by rw [hl, hl'], by rw [ha, ha'],
      by rw [hr, hr']⟩, by rw [hw, hw']⟩

/-- The next call of a removal. -/
theorem Going.takeDown {s : Life} {x : TeardownStep} {rest : List TeardownStep}
    (h : Going s (x :: rest)) : Going { s.takeDown x with todo := some rest } rest := by
  obtain ⟨hlast, hq, hc, hl, ha, hr⟩ := h
  have hnodup := (going_order hlast).1
  rw [List.nodup_cons] at hnodup
  have hleft : ∀ (b : Bool) (y : TeardownStep), (b = true ↔ y ∈ x :: rest) →
      ((b && x != y) = true ↔ y ∈ rest) := by
    intro b y hb
    rw [Bool.and_eq_true, hb, bne_iff_ne, List.mem_cons]
    constructor
    · rintro ⟨rfl | hmem, hne⟩
      · exact absurd rfl hne
      · exact hmem
    · intro hmem
      refine ⟨Or.inr hmem, ?_⟩
      rintro rfl
      exact hnodup.1 hmem
  exact ⟨(List.suffix_cons x rest).trans hlast, hleft _ _ hq, hleft _ _ hc, hleft _ _ hl,
    hleft _ _ ha, hr⟩

theorem Shape.next {s : Life} (h : Shape s) (a : LifeStep) (he : s.Enabled a) :
    Shape (s.next a).1 := by
  cases a with
  | create blockSize size =>
    exact ⟨fun _ => ⟨rfl, rfl, rfl, rfl, rfl⟩, fun l hl => by cases hl⟩
  | workBegin =>
    have hw : s.work = some .queued := he
    simp only [Life.next]
    split
    · exact h.congr rfl rfl rfl rfl rfl rfl (by rw [hw]; rfl)
    · exact h
  | workFinish =>
    have hw : s.work = some .running := he
    simp only [Life.next]
    split
    · exact h.congr rfl rfl rfl rfl rfl rfl (by rw [hw]; rfl)
    · exact h
  | dispatch k => exact h.congr rfl rfl rfl rfl rfl rfl rfl
  | fetch k =>
    simp only [Life.next]
    split
    · exact h.congr rfl rfl rfl rfl rfl rfl rfl
    · exact h.congr rfl rfl rfl rfl rfl rfl rfl
  | «section» k =>
    have hr : (nodeNext s.dev (.opens k)).1.removing = s.dev.removing := by
      rcases open_effect s.dev k with ⟨-, -, hsame⟩ | ⟨hr, hopened⟩
      · rw [hsame]
      · rw [hopened]
    simp only [Life.next]
    split
    · exact h.congr rfl rfl rfl rfl hr rfl rfl
    · exact h.congr rfl rfl rfl rfl rfl rfl rfl
  | release k =>
    simp only [Life.next]
    split
    · exact h.congr rfl rfl rfl rfl rfl rfl rfl
    · split
      · exact h.congr rfl rfl rfl rfl (release_effect s.dev k).2 rfl rfl
      · exact h.congr rfl rfl rfl rfl rfl rfl rfl
  | remove =>
    have hlisted : s.listed = true := he
    simp only [Life.next]
    rcases remove_effect s.dev with ⟨hbusy, -⟩ | ⟨hgone, hr, -⟩
    · rw [hbusy]
      exact h.congr rfl rfl rfl rfl rfl rfl rfl
    · rw [hgone]
      refine ⟨fun hnone => absurd hnone (by simp), fun l hl => ?_⟩
      obtain rfl : teardownSteps = l := Option.some.inj hl
      cases htodo : s.todo with
      | some l' =>
        have hgoing := (h.going l' htodo).1.removing
        exact absurd (hr.symm.trans hgoing) (by decide)
      | none =>
        obtain ⟨hq, hc, hl', ha, -⟩ := h.staying htodo
        have hborn : s.work.isSome = true := hl'.symm.trans hlisted
        rw [hborn] at hq hc ha
        refine ⟨⟨List.suffix_refl _, iff_of_true hq ?_, iff_of_true hc ?_, iff_of_true hlisted ?_,
          iff_of_true ha ?_, rfl⟩, hborn⟩ <;> decide
  | teardown =>
    cases htodo : s.todo with
    | none => exact absurd htodo he.1
    | some l =>
      cases l with
      | nil => exact absurd htodo he.2
      | cons x rest =>
        obtain ⟨hgoing, hborn⟩ := h.going _ htodo
        simp only [Life.next, htodo]
        refine ⟨fun hnone => absurd hnone (by simp), fun l hl => ?_⟩
        obtain rfl : rest = l := Option.some.inj hl
        exact ⟨hgoing.takeDown, hborn⟩

theorem run_shape {P : Policy LifeStep LifeRet} {tr : List (LifeStep × LifeRet)} {s : Life}
    (hrun : Run life P .unborn tr s) : Shape s := by
  refine hrun.invariant (fun _ s => Shape s) ?_ ?_
  · exact ⟨fun _ => ⟨rfl, rfl, rfl, rfl, rfl⟩, fun l hl => by cases hl⟩
  · intro tr s a h _ he
    exact h.next a he

end BDTun
