import BDTun.Calls

/-!
# The driver step by step

`threads` runs the calls of one device as interleaved steps: a submission is
`append`, `wakeUp`, `account`; a header read is `prepareToWait`, `check`,
`schedule` and `finishWait`; a completion is `endio`, `iostat`, `unlink`, `free`.
What is done under a lock is one step, and a completion keeps the pending list's
lock until its entry is unlinked.  The answer of a step is what it does with bios.

* `submit_steps`, `header_steps`, `complete_steps`: run without interruption, the
  steps of a call are the call.
-/

namespace BDTun

open Machine

abbrev Thread := Nat

/-- Where a header read stands; `woken` says that it was taken off `reader_queue` since its
`prepare_to_wait`. -/
inductive Reader
  | idle
  /-- in the call, not on the queue -/
  | entered
  /-- on the queue, the list not looked at -/
  | armed (woken : Bool)
  /-- on the queue, the list found empty -/
  | checked (woken : Bool)
  | asleep
  /-- back from `schedule` -/
  | awake
deriving DecidableEq

/-- What waking does to a reader: one that is about to sleep will not. -/
def Reader.wake : Reader → Reader
  | .armed _ => .armed true
  | .checked _ => .checked true
  | .asleep => .awake
  | r => r

/-- What is done of a completion. -/
inductive Stage
  | ended
  | counted
  | unlinked
deriving DecidableEq

section
variable [Kernel]

structure Threads where
  world : World
  reader : Thread → Reader
  /-- the bios on the list whose `wake_up` is still to come -/
  posted : List Bio
  /-- the bios whose submission has still to do its accounting -/
  woke : List Bio
  /-- the completion under way -/
  finishing : Option (Addr × BioListEntry × Stage)

inductive Step
  /-- a submission whose `kmalloc` fails -/
  | refuse (bio : Bio)
  | append (bio : Bio) (new : Addr)
  | wakeUp (bio : Bio)
  | account (bio : Bio)
  | enter (r : Thread)
  | prepareToWait (r : Thread)
  | check (r : Thread)
  | schedule (r : Thread)
  /-- a signal reaches a reader -/
  | signal (r : Thread)
  | finishWait (r : Thread) (signal : Bool)
  | chOpen
  | chRelease
  | setCurrent (id : Addr)
  /-- a payload read or write, or a mapping -/
  | transfer
  | endio (byte : UInt8)
  | iostat
  | unlink
  | free
deriving DecidableEq

/-- What a step does with a bio: it looks into it, or gives it back. -/
inductive Touch
  | use (bio : Bio)
  | giveBack (bio : Bio)
deriving DecidableEq

/-- No completion holds the lock of the pending list. -/
def Threads.pendingFree (t : Threads) : Bool :=
  match t.finishing with
  | none => true
  | some (_, _, stage) => stage = .unlinked

def Threads.at (t : Threads) (stage : Stage) : Bool :=
  match t.finishing with
  | none => false
  | some (_, _, now) => now = stage

def Threads.setReader (t : Threads) (r : Thread) (p : Reader) : Threads :=
  { t with reader := Function.update t.reader r p }

def Threads.next (t : Threads) : Step → Threads × List Touch
  | .refuse bio => ({ t with world := t.world.bioEndio bio (-eio) }, [.use bio, .giveBack bio])
  | .append bio new =>
    ({ t with world := t.world.publish bio new, posted := t.posted ++ [bio] }, [.use bio])
  | .wakeUp bio =>
    ({ t with
        reader := fun r => (t.reader r).wake
        posted := t.posted.erase bio
        woke := t.woke ++ [bio] }, [])
  | .account bio =>
    ({ t with world := t.world.account bio (bioDataDir bio), woke := t.woke.erase bio },
      [.use bio])
  | .enter r => (t.setReader r .entered, [])
  | .prepareToWait r => (t.setReader r (.armed false), [])
  | .check r =>
    match t.world.dev.incomingBioList with
    | [] => (t.setReader r (.checked (t.reader r = .armed true)), [])
    | a :: rest =>
      match t.world.entries a with
      | none => (t, [])
      | some entry =>
        ({ t.setReader r .idle with world := t.world.deliver a rest entry }, [.use entry.bio])
  | .schedule r =>
    (t.setReader r (if t.reader r = .checked true then .awake else .asleep), [])
  | .signal r => (t.setReader r (t.reader r).wake, [])
  | .finishWait r signal => (t.setReader r (if signal then .idle else .entered), [])
  | .chOpen => ({ t with world := { t.world with dev := (bdtunchOpen t.world.dev).1 } }, [])
  | .chRelease => ({ t with world := { t.world with dev := bdtunchRelease t.world.dev } }, [])
  | .setCurrent id => ({ t with world := t.world.setCurrent id }, [])
  | .transfer =>
    match t.world.entries t.world.dev.dataCurrentBio with
    | none => (t, [])
    | some entry => (t, [.use entry.bio])
  | .endio byte =>
    match t.world.entries t.world.dev.dataCurrentBio with
    | none => (t, [])
    | some entry =>
      ({ t with
          world := t.world.bioEndio entry.bio (if byte ≠ 0 then -eio else 0)
          finishing := some (t.world.dev.dataCurrentBio, entry, .ended) },
        [.giveBack entry.bio])
  | .iostat =>
    match t.finishing with
    | none => (t, [])
    | some (a, entry, _) =>
      ({ t with world := t.world.updateIostat entry, finishing := some (a, entry, .counted) },
        [.use entry.bio])
  | .unlink =>
    match t.finishing with
    | none => (t, [])
    | some (a, entry, _) =>
      ({ t with world := t.world.listDel a, finishing := some (a, entry, .unlinked) }, [])
  | .free =>
    match t.finishing with
    | none => (t, [])
    | some (a, _, _) => ({ t with world := t.world.kfree a, finishing := none }, [])

/-- Locks, the order of the steps of a call, and addresses that can be dereferenced. -/
def Threads.Enabled (t : Threads) : Step → Prop
  | .append bio new => KmallocOk t.world (.submit bio (some new))
  | .wakeUp bio => bio ∈ t.posted
  | .account bio => bio ∈ t.woke
  | .enter r => t.reader r = .idle
  | .prepareToWait r => t.reader r = .entered
  | .check r =>
    (t.reader r = .armed false ∨ t.reader r = .armed true) ∧ t.pendingFree = true ∧
      (t.world.readHeader false).2 ≠ .oops
  | .schedule r => t.reader r = .checked false ∨ t.reader r = .checked true
  | .finishWait r _ => t.reader r = .awake
  | .chRelease => t.pendingFree = true ∧ 0 < t.world.dev.ucnt
  | .setCurrent _ => t.pendingFree = true
  | .transfer => (t.world.entries t.world.dev.dataCurrentBio).isSome = true
  | .endio _ => t.finishing.isNone = true ∧
      (t.world.entries t.world.dev.dataCurrentBio).isSome = true
  | .iostat => t.at .ended = true
  | .unlink => t.at .counted = true
  | .free => t.at .unlinked = true
  | .refuse _ => True
  | .signal _ => True
  | .chOpen => True

instance (t : Threads) (e : Step) : Decidable (t.Enabled e) := by
  cases e <;> unfold Threads.Enabled <;> infer_instance

/-- The completion that is under way at a stage. -/
theorem Threads.at_some {t : Threads} {stage : Stage} (h : t.at stage = true) :
    ∃ a entry, t.finishing = some (a, entry, stage) := by
  unfold Threads.at at h
  cases hfin : t.finishing with
  | none =>
    rw [hfin] at h
    cases h
  | some c =>
    obtain ⟨a, entry, now⟩ := c
    rw [hfin] at h
    exact ⟨a, entry, by rw [of_decide_eq_true h]⟩

def threads : Machine Threads Step (List Touch) where
  enabled := Threads.Enabled
  next := Threads.next

instance (t : Threads) (e : Step) : Decidable (threads.enabled t e) :=
  inferInstanceAs (Decidable (t.Enabled e))

/-- A device in use by nobody. -/
def Threads.start (world : World) : Threads := ⟨world, fun _ => .idle, [], [], none⟩

abbrev anyone : Policy Step (List Touch) := fun _ _ => True

/-! ## The steps of a call, without interruption -/

theorem submit_steps (t : Threads) (bio : Bio) (new : Addr) :
    (exec threads t [.append bio new, .wakeUp bio, .account bio]).world =
      bdtunMakeRequest t.world bio (some new) := rfl

theorem header_steps (t : Threads) (r : Thread) {a : Addr} {rest : List Addr}
    {entry : BioListEntry} (hl : t.world.dev.incomingBioList = a :: rest)
    (he : t.world.entries a = some entry) :
    (exec threads t [.enter r, .prepareToWait r, .check r]).world =
      (t.world.readHeader false).1 := by
  simp [exec, threads, Threads.next, Threads.setReader, World.readHeader, hl, he]

theorem complete_steps (t : Threads) (byte : UInt8) {entry : BioListEntry}
    (he : t.world.entries t.world.dev.dataCurrentBio = some entry) :
    (exec threads t [.endio byte, .iostat, .unlink, .free]).world =
      (t.world.complete t.world.dev.dataCurrentBio byte).1 := by
  simp only [exec, threads, Threads.next, he, World.complete, World.finish]

end

end BDTun
