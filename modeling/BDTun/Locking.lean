import BDTun.Lib.Locks
import BDTun.Poll

/-!
# The calls of the driver with their locks

`driver` is the code of the data path, one statement at a time: which lock is
taken or given back, which step is done under it, and where the thread goes on.
A `Pc` is a place in that code, with the locals that are live there.  The answer
of a statement is the call that takes effect there, with what it returns; what
comes before and after is private to the thread, or bookkeeping.

The loops over the segments of a bio, which copy its payload or map its pages, are
one statement (`transferStep`).  The user's memory is resident: an access to it
succeeds at once, or the memory is not accessible.  Header reads, set-current
requests and completions access it directly, with mutexes held, and there the
thread is killed with what it holds (`Pc.fault`).

* `driver_disciplined`: "always grab incoming first, then pending", and nothing
  is held across `schedule` or a return.
* `locks_ordered`: what follows for any number of threads in any calls: locks
  exclude, there is no deadlock as long as no thread is killed, and every schedule
  of the calls under way is finite.
* `lists_guarded`: who touches a list or the cursor has its lock, but for a
  completion that unlinks an entry from the incoming list.
-/

namespace BDTun

open Machine Memory
open Locks (Instr Program Act running)

/-- The locks of `struct bdtun`. -/
inductive Lock
  | incoming
  | pending
  | ru
deriving DecidableEq

/-- In which order they are taken. -/
def Lock.rank : Lock → Nat
  | .incoming => 0
  | .pending => 1
  | .ru => 2

instance : Preorder Lock := Preorder.lift Lock.rank

instance : DecidableLT Lock := fun a b => inferInstanceAs (Decidable (a.rank < b.rank))

section
variable [Kernel]

/-- A call that moves the payload of the data-current bio, or maps it. -/
inductive PayloadCall
  | read (f : FileId) (count valid : Nat) (signal : Bool) (h : count ≠ bdtunTxreqHeaderSize)
  | write (f : FileId) (buf : List UInt8) (valid : Nat) (h : buf.length ≠ sizeofLong)
      (h₁ : buf.length ≠ 1)
  | mmap (f : FileId) (vma : Vma) (fail : Option Nat) (h : vma.shared = true)

def PayloadCall.call : PayloadCall → Call
  | .read f count valid signal _ => .read f count valid signal
  | .write f buf valid _ _ => .write f buf valid
  | .mmap f vma fail _ => .mmap f vma fail

/-- What it does with the entry it has loaded. -/
def PayloadCall.body (w : World) (a : Addr) : PayloadCall → World × Ret
  | .read _ count valid _ _ => w.readPayload a count valid
  | .write _ buf valid _ _ => w.writePayload a buf valid
  | .mmap _ vma fail _ => w.mapEntry a vma fail

/-- Why the cursor is loaded. -/
inductive Purpose
  | transfer (x : PayloadCall)
  | complete (f : FileId) (byte : UInt8) (valid : Nat)

/-- A section of `ru_lock`. -/
inductive RuSection
  | chOpen (f : FileId)
  | chRelease
  | bdOpen
  | bdRelease

inductive Pc
  /-- in no call -/
  | idle
  -- `bdtun_make_request`
  | kmalloc (bio : Bio) (new : Addr)
  | addLock (bio : Bio) (new : Addr)
  | addTail (bio : Bio) (new : Addr)
  | addUnlock (bio : Bio)
  | wakeUp (bio : Bio)
  | account (bio : Bio)
  -- `bdtunch_read`, a header; `signal` says whether one is pending when the pass wakes up
  | prepareToWait (f : FileId) (valid : Nat) (signal : Bool)
  | headLock (f : FileId) (valid : Nat) (signal : Bool)
  | headCheck (f : FileId) (valid : Nat) (signal : Bool)
  | emptyUnlock (f : FileId) (valid : Nat) (signal : Bool)
  | schedule (f : FileId) (valid : Nat) (signal : Bool)
  | moveLock (f : FileId) (valid : Nat) (signal : Bool) (a : Addr) (entry : BioListEntry)
  | moveTail (f : FileId) (valid : Nat) (signal : Bool) (a : Addr) (entry : BioListEntry)
  | moveUnlock
  | headUnlock
  -- `bdtunch_write`, a set-current request
  | setLock (f : FileId) (buf : List UInt8) (valid : Nat) (h : buf.length = sizeofLong)
  | setStore (f : FileId) (buf : List UInt8) (valid : Nat) (h : buf.length = sizeofLong)
  | setUnlock
  -- `bdtunch_mmap`, before the cursor is loaded
  | mmapCheck (f : FileId) (vma : Vma) (fail : Option Nat)
  -- all calls on the data-current bio
  | curLock (k : Purpose)
  | curLoad (k : Purpose)
  | curUnlock (k : Purpose) (a : Addr)
  | transfer (x : PayloadCall) (a : Addr)
  -- `bdtunch_write`, a completion byte
  | endLock (f : FileId) (byte : UInt8) (valid : Nat) (a : Addr)
  | endio (f : FileId) (byte : UInt8) (valid : Nat) (a : Addr)
  | iostat (a : Addr)
  | unlink (a : Addr)
  | endUnlock (a : Addr)
  | free (a : Addr)
  -- `bdtunch_release`
  | closeLock (f : FileId)
  | closeLockPending (f : FileId)
  | splice (f : FileId)
  | closeUnlockPending
  | closeUnlock
  -- the sections of `ru_lock`
  | ruLock (x : RuSection)
  | ruSection (x : RuSection)
  | ruUnlock
  -- `bdtunch_poll`
  | pollLock
  | pollTest
  | pollUnlock (mask : Finset PollBit)
  /-- the timer interrupt -/
  | tick
  /-- a dead address was dereferenced while these locks were held -/
  | oops (held : Finset Lock)
  /-- the user's buffer was not accessible while these locks were held -/
  | fault (held : Finset Lock)

/-- Where a call begins. -/
def Pc.isEntry : Pc → Bool
  | .kmalloc _ _ => true
  | .prepareToWait _ _ _ => true
  | .setLock _ _ _ _ => true
  | .mmapCheck _ _ _ => true
  | .curLock (.transfer (.mmap _ _ _ _)) => false
  | .curLock _ => true
  | .closeLock _ => true
  | .ruLock .chRelease => false
  | .ruLock _ => true
  | .pollLock => true
  | .tick => true
  | _ => false

/-- The thread was killed. -/
def Pc.crashed : Pc → Bool
  | .oops _ => true
  | .fault _ => true
  | _ => false

/-- Where a header read goes on when it wakes up: out, or round again. -/
def Pc.awake (f : FileId) (valid : Nat) (signal : Bool) : Pc → Bool
  | .idle => signal
  | .prepareToWait f' valid' _ => !signal && f' = f && valid' = valid
  | _ => false

/-- Addresses that `kmalloc` can return; any other, such as `NULL`, stands for a failure. -/
def World.Usable (w : World) (new : Addr) : Prop :=
  w.entries new = none ∧ new ≠ 0 ∧ new < 2 ^ bitsPerLong

instance (w : World) (new : Addr) : Decidable (w.Usable new) :=
  inferInstanceAs (Decidable (_ ∧ _ ∧ _))

/-- The new entry is filled. -/
@[simps]
def World.fill (w : World) (bio : Bio) (new : Addr) : World :=
  { w with entries := Function.update w.entries new (some ⟨bio, w.jiffies⟩) }

/-- `list_add_tail(&new->list, &dev->incoming_bio_list)` -/
@[simps]
def World.listAddTail (w : World) (new : Addr) : World :=
  { w with dev := { w.dev with incomingBioList := w.dev.incomingBioList ++ [new] } }

/-- `list_move_tail(&entry->list, &dev->pending_bio_list)` -/
@[simps]
def World.listMoveTail (w : World) (a : Addr) (entry : BioListEntry) : World :=
  { w with
    dev := { w.dev with
      incomingBioList := w.dev.incomingBioList.erase a
      pendingBioList := w.dev.pendingBioList.erase a ++ [a] }
    delivered := w.delivered ++ [entry.bio] }

/-- `list_del` of an entry goes through its links: it is there, and on a list. -/
def World.OnList (w : World) (a : Addr) : Prop :=
  (w.entries a).isSome ∧ a ∈ w.dev.incomingBioList ++ w.dev.pendingBioList

instance (w : World) (a : Addr) : Decidable (w.OnList a) :=
  inferInstanceAs (Decidable (_ ∧ _))

/-- What is done under `ru_lock`, and the call that takes effect there, if it is one of the tunnel. -/
def RuSection.body (dev : Bdtun) : RuSection → Bdtun × Option (Call × Ret)
  | .chOpen f => ((bdtunchOpen dev).1, some (.chOpen f, .ret (bdtunchOpen dev).2 .nothing))
  | .chRelease => ({ dev with ucnt := dev.ucnt - 1 }, none)
  | .bdOpen => (if dev.removing then dev else { dev with ucnt := dev.ucnt + 1 }, none)
  | .bdRelease => ({ dev with ucnt := dev.ucnt - 1 }, none)

/-- What a statement does: the state after it, where the thread goes on, and the call that takes
effect. -/
abbrev Effected := World × Pc × Option (Call × Ret)

/-- `new` is allocated and filled; or the bio fails. -/
def kmallocStep (bio : Bio) (new : Addr) (w : World) : Effected :=
  if w.Usable new then (w.fill bio new, .addLock bio new, none)
  else (w.bioEndio bio (-eio), .idle, some (.submit bio none, .ret 0 .nothing))

/-- `list_empty(&dev->incoming_bio_list)`, and if it is not, the header of the first entry. -/
def headCheckStep (f : FileId) (valid : Nat) (signal : Bool) (w : World) : Effected :=
  match w.dev.incomingBioList with
  | [] => (w, .emptyUnlock f valid signal,
      some (.read f bdtunTxreqHeaderSize valid signal,
        if signal then .ret (-eintr) .nothing else .sleep))
  | a :: _ =>
    if bdtunTxreqHeaderSize ≤ valid then
      match w.entries a with
      | none => (w, .oops {.incoming}, none)
      | some entry => (w, .moveLock f valid signal a entry, none)
    else (w, .fault {.incoming}, none)

def moveTailStep (f : FileId) (valid : Nat) (signal : Bool) (a : Addr) (entry : BioListEntry)
    (w : World) : Effected :=
  if w.OnList a then
    (w.listMoveTail a entry, .moveUnlock,
      some (.read f bdtunTxreqHeaderSize valid signal,
        .ret bdtunTxreqHeaderSize (.header (header a entry))))
  else (w, .oops {.incoming, .pending}, none)

/-- `*(uintptr_t *)buf` -/
def setStoreStep (f : FileId) (buf : List UInt8) (valid : Nat) (w : World) : Effected :=
  if sizeofLong ≤ valid then
    (w.setCurrent (wordOf buf), .setUnlock, some (.write f buf valid, .ret buf.length .nothing))
  else (w, .fault {.pending}, none)

/-- The checks of `bdtunch_mmap` that come before the cursor is loaded. -/
def mmapCheckStep (f : FileId) (vma : Vma) (fail : Option Nat) (w : World) : Effected :=
  if vma.vmPgoff <<< pageShift % 2 ^ bitsPerLong % pageSize ≠ 0 then
    (w, .idle, some (.mmap f vma fail, .ret (-enxio) .nothing))
  else if h : vma.shared = true then (w, .curLock (.transfer (.mmap f vma fail h)), none)
  else (w, .idle, some (.mmap f vma fail, .ret (-einval) .nothing))

/-- The whole loop over the segments. -/
def transferStep (x : PayloadCall) (a : Addr) (w : World) : Effected :=
  match w.entries a with
  | none => (w, .oops ∅, none)
  | some _ => ((x.body w a).1, .idle, some (x.call, (x.body w a).2))

/-- `buf[0]`, and then the bio of the entry. -/
def endioStep (f : FileId) (byte : UInt8) (valid : Nat) (a : Addr) (w : World) : Effected :=
  if 1 ≤ valid then
    match w.entries a with
    | none => (w, .oops {.pending}, none)
    | some entry =>
      (w.bioEndio entry.bio (if byte ≠ 0 then -eio else 0), .iostat a,
        some (.write f [byte] valid, .ret 1 .nothing))
  else (w, .fault {.pending}, none)

def iostatStep (a : Addr) (w : World) : Effected :=
  match w.entries a with
  | none => (w, .oops {.pending}, none)
  | some entry => (w.updateIostat entry, .unlink a, none)

def unlinkStep (a : Addr) (w : World) : Effected :=
  if w.OnList a then (w.listDel a, .endUnlock a, none) else (w, .oops {.pending}, none)

/-- Another completion may have freed the entry. -/
def freeStep (a : Addr) (w : World) : Effected :=
  match w.entries a with
  | none => (w, .oops ∅, none)
  | some _ => (w.kfree a, .idle, none)

/-- The code of the data path. -/
def Pc.instr : Pc → Instr Lock World (Call × Ret) Pc
  | .idle => .rest Pc.isEntry
  | .kmalloc bio new => .act (kmallocStep bio new)
  | .addLock bio new => .lock .incoming (.addTail bio new)
  | .addTail bio new => .act fun w =>
    (w.listAddTail new, .addUnlock bio, some (.submit bio (some new), .ret 0 .nothing))
  | .addUnlock bio => .unlock .incoming (.wakeUp bio)
  | .wakeUp bio => .act fun w => (w, .account bio, none)
  | .account bio => .act fun w => (w.account bio (bioDataDir bio), .idle, none)
  | .prepareToWait f valid signal => .act fun w => (w, .headLock f valid signal, none)
  | .headLock f valid signal => .lock .incoming (.headCheck f valid signal)
  | .headCheck f valid signal => .act (headCheckStep f valid signal)
  | .emptyUnlock f valid signal => .unlock .incoming (.schedule f valid signal)
  | .schedule f valid signal => .rest (Pc.awake f valid signal)
  | .moveLock f valid signal a entry => .lock .pending (.moveTail f valid signal a entry)
  | .moveTail f valid signal a entry => .act (moveTailStep f valid signal a entry)
  | .moveUnlock => .unlock .pending .headUnlock
  | .headUnlock => .unlock .incoming .idle
  | .setLock f buf valid h => .lock .pending (.setStore f buf valid h)
  | .setStore f buf valid _ => .act (setStoreStep f buf valid)
  | .setUnlock => .unlock .pending .idle
  | .mmapCheck f vma fail => .act (mmapCheckStep f vma fail)
  | .curLock k => .lock .pending (.curLoad k)
  | .curLoad k => .act fun w => (w, .curUnlock k w.dev.dataCurrentBio, none)
  | .curUnlock (.transfer x) a => .unlock .pending (.transfer x a)
  | .curUnlock (.complete f byte valid) a => .unlock .pending (.endLock f byte valid a)
  | .transfer x a => .act (transferStep x a)
  | .endLock f byte valid a => .lock .pending (.endio f byte valid a)
  | .endio f byte valid a => .act (endioStep f byte valid a)
  | .iostat a => .act (iostatStep a)
  | .unlink a => .act (unlinkStep a)
  | .endUnlock a => .unlock .pending (.free a)
  | .free a => .act (freeStep a)
  | .closeLock f => .lock .incoming (.closeLockPending f)
  | .closeLockPending f => .lock .pending (.splice f)
  | .splice f => .act fun w =>
    ({ w with dev := w.dev.spliceBack }, .closeUnlockPending,
      some (.chRelease f, .ret 0 .nothing))
  | .closeUnlockPending => .unlock .pending .closeUnlock
  | .closeUnlock => .unlock .incoming (.ruLock .chRelease)
  | .ruLock x => .lock .ru (.ruSection x)
  | .ruSection x => .act fun w =>
    ({ w with dev := (x.body w.dev).1 }, .ruUnlock, (x.body w.dev).2)
  | .ruUnlock => .unlock .ru .idle
  | .pollLock => .lock .incoming .pollTest
  | .pollTest => .act fun w => (w, .pollUnlock (bdtunchPoll w.dev), none)
  | .pollUnlock _ => .unlock .incoming .idle
  | .tick => .act fun w =>
    ({ w with jiffies := (w.jiffies + 1) % 2 ^ bitsPerLong }, .idle, some (.tick, .ret 0 .nothing))
  | .oops _ => .crash
  | .fault _ => .crash

/-- The locks a thread has at a place. -/
def Pc.held : Pc → Finset Lock
  | .addTail _ _ => {.incoming}
  | .addUnlock _ => {.incoming}
  | .headCheck _ _ _ => {.incoming}
  | .emptyUnlock _ _ _ => {.incoming}
  | .moveLock _ _ _ _ _ => {.incoming}
  | .moveTail _ _ _ _ _ => {.incoming, .pending}
  | .moveUnlock => {.incoming, .pending}
  | .headUnlock => {.incoming}
  | .setStore _ _ _ _ => {.pending}
  | .setUnlock => {.pending}
  | .curLoad _ => {.pending}
  | .curUnlock _ _ => {.pending}
  | .endio _ _ _ _ => {.pending}
  | .iostat _ => {.pending}
  | .unlink _ => {.pending}
  | .endUnlock _ => {.pending}
  | .closeLockPending _ => {.incoming}
  | .splice _ => {.incoming, .pending}
  | .closeUnlockPending => {.incoming, .pending}
  | .closeUnlock => {.incoming}
  | .ruSection _ => {.ru}
  | .ruUnlock => {.ru}
  | .pollTest => {.incoming}
  | .pollUnlock _ => {.incoming}
  | .oops held => held
  | .fault held => held
  | _ => ∅

/-- An upper bound of the statements of the model that a thread has before it to the end of its call. -/
def Pc.cost : Pc → ℕ
  | .kmalloc _ _ => 6
  | .addLock _ _ => 5
  | .addTail _ _ => 4
  | .addUnlock _ => 3
  | .wakeUp _ => 2
  | .account _ => 1
  | .prepareToWait _ _ _ => 7
  | .headLock _ _ _ => 6
  | .headCheck _ _ _ => 5
  | .emptyUnlock _ _ _ => 1
  | .moveLock _ _ _ _ _ => 4
  | .moveTail _ _ _ _ _ => 3
  | .moveUnlock => 2
  | .headUnlock => 1
  | .setLock _ _ _ _ => 3
  | .setStore _ _ _ _ => 2
  | .setUnlock => 1
  | .mmapCheck _ _ _ => 11
  | .curLock _ => 10
  | .curLoad _ => 9
  | .curUnlock _ _ => 8
  | .transfer _ _ => 1
  | .endLock _ _ _ _ => 6
  | .endio _ _ _ _ => 5
  | .iostat _ => 4
  | .unlink _ => 3
  | .endUnlock _ => 2
  | .free _ => 1
  | .closeLock _ => 8
  | .closeLockPending _ => 7
  | .splice _ => 6
  | .closeUnlockPending => 5
  | .closeUnlock => 4
  | .ruLock _ => 3
  | .ruSection _ => 2
  | .ruUnlock => 1
  | .pollLock => 3
  | .pollTest => 2
  | .pollUnlock _ => 1
  | .tick => 1
  | _ => 0

/-- The user's buffer is accessible, as far as the driver itself will read or write it. -/
def Pc.accessible : Pc → Bool
  | .prepareToWait _ valid _ => bdtunTxreqHeaderSize ≤ valid
  | .headLock _ valid _ => bdtunTxreqHeaderSize ≤ valid
  | .headCheck _ valid _ => bdtunTxreqHeaderSize ≤ valid
  | .emptyUnlock _ valid _ => bdtunTxreqHeaderSize ≤ valid
  | .schedule _ valid _ => bdtunTxreqHeaderSize ≤ valid
  | .setLock _ _ valid _ => sizeofLong ≤ valid
  | .setStore _ _ valid _ => sizeofLong ≤ valid
  | .curLock (.complete _ _ valid) => 1 ≤ valid
  | .curLoad (.complete _ _ valid) => 1 ≤ valid
  | .curUnlock (.complete _ _ valid) _ => 1 ≤ valid
  | .endLock _ _ valid _ => 1 ≤ valid
  | .endio _ _ valid _ => 1 ≤ valid
  | .fault _ => false
  | _ => true

def driver : Program Lock World (Call × Ret) Pc where
  instr := Pc.instr
  held := Pc.held

/-! ## The discipline -/

instance : WellFoundedGT Lock where
  wf := by
    refine Subrelation.wf (fun {a b} hab => ?_) (measure fun l : Lock => 2 - l.rank).wf
    have hlt : b.rank < a.rank := hab
    have hle : a.rank ≤ 2 := by cases a <;> decide
    show 2 - a.rank < 2 - b.rank
    omega

/-- The threads in the driver, each in a call of its own. -/
abbrev Crew (T : Type) := Locks.State T Lock World Pc

variable {T : Type} [DecidableEq T]

def crew (T : Type) [DecidableEq T] : Machine (Crew T) (Act T Pc) (Option (Call × Ret)) :=
  running T driver

instance (c : Crew T) (a : Act T Pc) : Decidable ((crew T).enabled c a) :=
  inferInstanceAs (Decidable (c.Enabled driver a))

/-- The calls that took effect, in the order in which they did. -/
def effects (tr : List (Act T Pc × Option (Call × Ret))) : List (Call × Ret) :=
  tr.filterMap Prod.snd

/-! What the statements with branches come to. -/

theorem kmallocStep_cases (bio : Bio) (new : Addr) (w : World) :
    (w.Usable new ∧ kmallocStep bio new w = (w.fill bio new, .addLock bio new, none)) ∨
    kmallocStep bio new w =
      (w.bioEndio bio (-eio), .idle, some (.submit bio none, .ret 0 .nothing)) := by
  unfold kmallocStep
  by_cases hnew : w.Usable new
  · exact Or.inl ⟨hnew, if_pos hnew⟩
  · exact Or.inr (if_neg hnew)

theorem headCheckStep_cases (f : FileId) (valid : Nat) (signal : Bool) (w : World) :
    (w.dev.incomingBioList = [] ∧ headCheckStep f valid signal w =
      (w, .emptyUnlock f valid signal, some (.read f bdtunTxreqHeaderSize valid signal,
        if signal then .ret (-eintr) .nothing else .sleep))) ∨
    (¬ bdtunTxreqHeaderSize ≤ valid ∧
      headCheckStep f valid signal w = (w, .fault {.incoming}, none)) ∨
    ∃ a rest, w.dev.incomingBioList = a :: rest ∧
      ((w.entries a = none ∧ headCheckStep f valid signal w = (w, .oops {.incoming}, none)) ∨
        ∃ entry, w.entries a = some entry ∧
          headCheckStep f valid signal w = (w, .moveLock f valid signal a entry, none)) := by
  unfold headCheckStep
  cases hl : w.dev.incomingBioList with
  | nil => exact Or.inl ⟨rfl, rfl⟩
  | cons a rest =>
    by_cases hvalid : bdtunTxreqHeaderSize ≤ valid
    · refine Or.inr (Or.inr ⟨a, rest, rfl, ?_⟩)
      cases he : w.entries a with
      | none => exact Or.inl ⟨rfl, by simp only [if_pos hvalid, he]⟩
      | some entry => exact Or.inr ⟨entry, rfl, by simp only [if_pos hvalid, he]⟩
    · exact Or.inr (Or.inl ⟨hvalid, if_neg hvalid⟩)

theorem moveTailStep_cases (f : FileId) (valid : Nat) (signal : Bool) (a : Addr)
    (entry : BioListEntry) (w : World) :
    (¬ w.OnList a ∧ moveTailStep f valid signal a entry w = (w, .oops {.incoming, .pending}, none)) ∨
    w.OnList a ∧ moveTailStep f valid signal a entry w =
      (w.listMoveTail a entry, .moveUnlock, some (.read f bdtunTxreqHeaderSize valid signal,
        .ret bdtunTxreqHeaderSize (.header (header a entry)))) := by
  unfold moveTailStep
  by_cases hon : w.OnList a
  · exact Or.inr ⟨hon, if_pos hon⟩
  · exact Or.inl ⟨hon, if_neg hon⟩

theorem setStoreStep_cases (f : FileId) (buf : List UInt8) (valid : Nat) (w : World) :
    (¬ sizeofLong ≤ valid ∧ setStoreStep f buf valid w = (w, .fault {.pending}, none)) ∨
    setStoreStep f buf valid w = (w.setCurrent (wordOf buf), .setUnlock,
      some (.write f buf valid, .ret buf.length .nothing)) := by
  unfold setStoreStep
  by_cases hvalid : sizeofLong ≤ valid
  · exact Or.inr (if_pos hvalid)
  · exact Or.inl ⟨hvalid, if_neg hvalid⟩

theorem mmapCheckStep_cases (f : FileId) (vma : Vma) (fail : Option Nat) (w : World) :
    (∃ h, mmapCheckStep f vma fail w = (w, .curLock (.transfer (.mmap f vma fail h)), none)) ∨
    vma.shared = false ∧
      mmapCheckStep f vma fail w = (w, .idle, some (.mmap f vma fail, .ret (-einval) .nothing)) := by
  unfold mmapCheckStep
  rw [if_neg (not_not.mpr (vma_offset_aligned vma.vmPgoff))]
  by_cases h : vma.shared = true
  · exact Or.inl ⟨h, dif_pos h⟩
  · exact Or.inr ⟨by simpa using h, dif_neg h⟩

theorem transferStep_cases (x : PayloadCall) (a : Addr) (w : World) :
    (w.entries a = none ∧ transferStep x a w = (w, .oops ∅, none)) ∨
    ∃ entry, w.entries a = some entry ∧
      transferStep x a w = ((x.body w a).1, .idle, some (x.call, (x.body w a).2)) := by
  unfold transferStep
  cases he : w.entries a with
  | none => exact Or.inl ⟨rfl, rfl⟩
  | some entry => exact Or.inr ⟨entry, rfl, rfl⟩

theorem endioStep_cases (f : FileId) (byte : UInt8) (valid : Nat) (a : Addr) (w : World) :
    (¬ 1 ≤ valid ∧ endioStep f byte valid a w = (w, .fault {.pending}, none)) ∨
    (w.entries a = none ∧ endioStep f byte valid a w = (w, .oops {.pending}, none)) ∨
    ∃ entry, w.entries a = some entry ∧ endioStep f byte valid a w =
      (w.bioEndio entry.bio (if byte ≠ 0 then -eio else 0), .iostat a,
        some (.write f [byte] valid, .ret 1 .nothing)) := by
  unfold endioStep
  by_cases hvalid : 1 ≤ valid
  · rw [if_pos hvalid]
    cases he : w.entries a with
    | none => exact Or.inr (Or.inl ⟨rfl, rfl⟩)
    | some entry => exact Or.inr (Or.inr ⟨entry, rfl, rfl⟩)
  · exact Or.inl ⟨hvalid, if_neg hvalid⟩

theorem iostatStep_cases (a : Addr) (w : World) :
    (w.entries a = none ∧ iostatStep a w = (w, .oops {.pending}, none)) ∨
    ∃ entry, w.entries a = some entry ∧ iostatStep a w = (w.updateIostat entry, .unlink a, none) := by
  unfold iostatStep
  cases he : w.entries a with
  | none => exact Or.inl ⟨rfl, rfl⟩
  | some entry => exact Or.inr ⟨entry, rfl, rfl⟩

theorem unlinkStep_cases (a : Addr) (w : World) :
    (¬ w.OnList a ∧ unlinkStep a w = (w, .oops {.pending}, none)) ∨
    w.OnList a ∧ unlinkStep a w = (w.listDel a, .endUnlock a, none) := by
  unfold unlinkStep
  by_cases hon : w.OnList a
  · exact Or.inr ⟨hon, if_pos hon⟩
  · exact Or.inl ⟨hon, if_neg hon⟩

theorem freeStep_cases (a : Addr) (w : World) :
    (w.entries a = none ∧ freeStep a w = (w, .oops ∅, none)) ∨
    (w.entries a).isSome ∧ freeStep a w = (w.kfree a, .idle, none) := by
  unfold freeStep
  cases he : w.entries a with
  | none => exact Or.inl ⟨rfl, rfl⟩
  | some entry => exact Or.inr ⟨rfl, rfl⟩

/-- Where the statements lead, with the calls that take effect, in whatever state. -/
inductive Leads : Pc → Pc → Option (Call × Ret) → Prop
  | allocated (bio : Bio) (new : Addr) : Leads (.kmalloc bio new) (.addLock bio new) none
  | refused (bio : Bio) (new : Addr) : Leads (.kmalloc bio new) .idle
      (some (.submit bio none, .ret 0 .nothing))
  | added (bio : Bio) (new : Addr) : Leads (.addTail bio new) (.addUnlock bio)
      (some (.submit bio (some new), .ret 0 .nothing))
  | woken (bio : Bio) : Leads (.wakeUp bio) (.account bio) none
  | accounted (bio : Bio) : Leads (.account bio) .idle none
  | prepared (f : FileId) (valid : Nat) (signal : Bool) :
      Leads (.prepareToWait f valid signal) (.headLock f valid signal) none
  | empty (f : FileId) (valid : Nat) (signal : Bool) (r : Ret) :
      Leads (.headCheck f valid signal) (.emptyUnlock f valid signal)
        (some (.read f bdtunTxreqHeaderSize valid signal, r))
  | found (f : FileId) (valid : Nat) (signal : Bool) (a : Addr) (entry : BioListEntry) :
      Leads (.headCheck f valid signal) (.moveLock f valid signal a entry) none
  | moved (f : FileId) (valid : Nat) (signal : Bool) (a : Addr) (entry : BioListEntry) (r : Ret) :
      Leads (.moveTail f valid signal a entry) .moveUnlock
        (some (.read f bdtunTxreqHeaderSize valid signal, r))
  | stored (f : FileId) (buf : List UInt8) (valid : Nat) (h : buf.length = sizeofLong) (r : Ret) :
      Leads (.setStore f buf valid h) .setUnlock (some (.write f buf valid, r))
  | checked (f : FileId) (vma : Vma) (fail : Option Nat) (h : vma.shared = true) :
      Leads (.mmapCheck f vma fail) (.curLock (.transfer (.mmap f vma fail h))) none
  | unmapped (f : FileId) (vma : Vma) (fail : Option Nat) (r : Ret) :
      Leads (.mmapCheck f vma fail) .idle (some (.mmap f vma fail, r))
  | loaded (k : Purpose) (a : Addr) : Leads (.curLoad k) (.curUnlock k a) none
  | transferred (x : PayloadCall) (a : Addr) (r : Ret) :
      Leads (.transfer x a) .idle (some (x.call, r))
  | ended (f : FileId) (byte : UInt8) (valid : Nat) (a : Addr) (r : Ret) :
      Leads (.endio f byte valid a) (.iostat a) (some (.write f [byte] valid, r))
  | counted (a : Addr) : Leads (.iostat a) (.unlink a) none
  | unlinked (a : Addr) : Leads (.unlink a) (.endUnlock a) none
  | freed (a : Addr) : Leads (.free a) .idle none
  | spliced (f : FileId) (r : Ret) :
      Leads (.splice f) .closeUnlockPending (some (.chRelease f, r))
  | opened (f : FileId) (r : Ret) :
      Leads (.ruSection (.chOpen f)) .ruUnlock (some (.chOpen f, r))
  | counter (x : RuSection) (h : ∀ f, x ≠ .chOpen f) : Leads (.ruSection x) .ruUnlock none
  | polled (mask : Finset PollBit) : Leads .pollTest (.pollUnlock mask) none
  | ticked (r : Ret) : Leads .tick .idle (some (.tick, r))
  | oops (pc : Pc) (h : 0 < pc.cost) : Leads pc (.oops pc.held) none
  | fault (pc : Pc) (h : 0 < pc.cost) (hbuf : pc.accessible = false) :
      Leads pc (.fault pc.held) none

theorem leads_of_act {pc : Pc} {step : World → Effected} (h : pc.instr = .act step) (w : World) :
    Leads pc (step w).2.1 (step w).2.2 := by
  cases pc with
  | curUnlock k a => cases k <;> cases h
  | kmalloc bio new =>
    cases h
    rcases kmallocStep_cases bio new w with ⟨-, hstep⟩ | hstep <;> rw [hstep]
    · exact .allocated bio new
    · exact .refused bio new
  | addTail bio new => cases h; exact .added bio new
  | wakeUp bio => cases h; exact .woken bio
  | account bio => cases h; exact .accounted bio
  | prepareToWait f valid signal => cases h; exact .prepared f valid signal
  | headCheck f valid signal =>
    cases h
    rcases headCheckStep_cases f valid signal w with
      ⟨-, hstep⟩ | ⟨hvalid, hstep⟩ | ⟨a, rest, -, ⟨-, hstep⟩ | ⟨entry, -, hstep⟩⟩ <;> rw [hstep]
    · exact .empty f valid signal _
    · exact .fault _ (Nat.succ_pos _) (decide_eq_false hvalid)
    · exact .oops _ (Nat.succ_pos _)
    · exact .found f valid signal a entry
  | moveTail f valid signal a entry =>
    cases h
    rcases moveTailStep_cases f valid signal a entry w with ⟨-, hstep⟩ | ⟨-, hstep⟩ <;> rw [hstep]
    · exact .oops _ (Nat.succ_pos _)
    · exact .moved f valid signal a entry _
  | setStore f buf valid hlen =>
    cases h
    rcases setStoreStep_cases f buf valid w with ⟨hvalid, hstep⟩ | hstep <;> rw [hstep]
    · exact .fault _ (Nat.succ_pos _) (decide_eq_false hvalid)
    · exact .stored f buf valid hlen _
  | mmapCheck f vma fail =>
    cases h
    rcases mmapCheckStep_cases f vma fail w with ⟨hshared, hstep⟩ | ⟨-, hstep⟩ <;> rw [hstep]
    · exact .checked f vma fail hshared
    · exact .unmapped f vma fail _
  | curLoad k => cases h; exact .loaded k _
  | transfer x a =>
    cases h
    rcases transferStep_cases x a w with ⟨-, hstep⟩ | ⟨entry, -, hstep⟩ <;> rw [hstep]
    · exact .oops _ (Nat.succ_pos _)
    · exact .transferred x a _
  | endio f byte valid a =>
    cases h
    rcases endioStep_cases f byte valid a w with ⟨hvalid, hstep⟩ | ⟨-, hstep⟩ | ⟨entry, -, hstep⟩ <;>
      rw [hstep]
    · exact .fault _ (Nat.succ_pos _) (decide_eq_false hvalid)
    · exact .oops _ (Nat.succ_pos _)
    · exact .ended f byte valid a _
  | iostat a =>
    cases h
    rcases iostatStep_cases a w with ⟨-, hstep⟩ | ⟨entry, -, hstep⟩ <;> rw [hstep]
    · exact .oops _ (Nat.succ_pos _)
    · exact .counted a
  | unlink a =>
    cases h
    rcases unlinkStep_cases a w with ⟨-, hstep⟩ | ⟨-, hstep⟩ <;> rw [hstep]
    · exact .oops _ (Nat.succ_pos _)
    · exact .unlinked a
  | free a =>
    cases h
    rcases freeStep_cases a w with ⟨-, hstep⟩ | ⟨-, hstep⟩ <;> rw [hstep]
    · exact .oops _ (Nat.succ_pos _)
    · exact .freed a
  | splice f => cases h; exact .spliced f _
  | ruSection x =>
    cases h
    cases x with
    | chOpen f => exact .opened f _
    | _ => exact .counter _ (by simp)
  | pollTest => cases h; exact .polled _
  | tick => cases h; exact .ticked _
  | _ => cases h

/-- A statement keeps the locks of its thread. -/
theorem act_held {pc : Pc} {step : World → Effected} (h : pc.instr = .act step) (w : World) :
    (step w).2.1.held = pc.held := by
  have hleads := leads_of_act h w
  generalize (step w).2.1 = pc', (step w).2.2 = e at hleads
  cases hleads <;> rfl

/-- Incoming first, then pending; nothing is held where a thread can rest. -/
theorem driver_disciplined : driver.Disciplined where
  lock pc l next h := by
    cases pc with
    | curUnlock k a => cases k <;> cases h
    | _ => cases h <;> (simp only [driver, Pc.held]; decide)
  unlock pc l next h := by
    cases pc with
    | curUnlock k a =>
      cases k <;> (cases h; simp only [driver, Pc.held]; decide)
    | _ => cases h <;> (simp only [driver, Pc.held]; decide)
  act _ _ h w := act_held h w
  rest pc next h := by
    cases pc with
    | curUnlock k a => cases k <;> cases h
    | idle =>
      obtain rfl := Instr.rest.inj h
      refine ⟨rfl, fun pc' hentry => ?_⟩
      cases pc' <;> first | rfl | cases hentry
    | schedule f valid signal =>
      obtain rfl := Instr.rest.inj h
      refine ⟨rfl, fun pc' hentry => ?_⟩
      cases pc' <;> first | rfl | cases hentry
    | _ => cases h

theorem act_cost {pc : Pc} {step : World → Effected} (h : pc.instr = .act step) (w : World) :
    (step w).2.1.cost < pc.cost := by
  have hleads := leads_of_act h w
  generalize (step w).2.1 = pc', (step w).2.2 = e at hleads
  cases hleads with
  | oops pc h => exact h
  | fault pc h hbuf => exact h
  | _ => simp only [Pc.cost]; decide

theorem driver_lowers : driver.Lowers Pc.cost where
  lock pc l next h := by
    cases pc with
    | curUnlock k a => cases k <;> cases h
    | _ => cases h <;> (simp only [Pc.cost]; decide)
  unlock pc l next h := by
    cases pc with
    | curUnlock k a => cases k <;> (cases h; simp only [Pc.cost]; decide)
    | _ => cases h <;> (simp only [Pc.cost]; decide)
  act _ _ h w := act_cost h w

/-! ## Runs -/

abbrev anyCrew : Policy (Act T Pc) (Option (Call × Ret)) := fun _ _ => True

/-- No thread was killed. -/
def Unharmed (c : Crew T) : Prop := ∀ t, (c.pc t).crashed = false

theorem instr_crash {pc : Pc} : driver.instr pc = .crash ↔ pc.crashed = true := by
  constructor
  · intro h
    cases pc with
    | oops held => rfl
    | fault held => rfl
    | curUnlock k a => cases k <;> cases h
    | _ => cases h
  · intro h
    cases pc with
    | oops held => rfl
    | fault held => rfl
    | _ => cases h

/-- **Locks and progress.**  In every run of any number of threads, whatever calls they make: a lock
is with one thread at most, and with none that rests in `schedule` or outside the driver; as long as
no thread was killed, there is one that can go on whenever one is in a call; and there is a bound on
the statements that can be executed without a new call. -/
theorem locks_ordered {world : World} {tr : List (Act T Pc × Option (Call × Ret))} {c : Crew T}
    (hrun : Run (crew T) anyCrew (.start world .idle) tr c) :
    (∀ l t u, l ∈ (c.pc t).held → l ∈ (c.pc u).held → t = u) ∧
    (∀ t, driver.Resting (c.pc t) → (c.pc t).held = ∅) ∧
    (Unharmed c → ∀ t, ¬ driver.Resting (c.pc t) →
      ∃ u, ¬ driver.Resting (c.pc u) ∧ (crew T).enabled c (.step u)) ∧
    ∃ n, ∀ more c', Path (crew T) Locks.alone tr c more c' → more.length ≤ n := by
  have howned : Locks.Owned driver c := Locks.run_owned driver_disciplined rfl hrun
  refine ⟨fun l t u ht hu => howned.exclusive ht hu, ?_, ?_,
    c.left Pc.cost (Locks.resumed tr), ?_⟩
  · rintro t ⟨next, hrest⟩
    exact (driver_disciplined.rest _ next hrest).1
  · intro hsafe t ht
    refine howned.progress driver_disciplined (fun u hcrash => ?_) ht
    rw [instr_crash, hsafe u] at hcrash
    cases hcrash
  · intro more c' hpath
    have hwithin := Locks.run_within ⟨Pc.isEntry, rfl⟩ hrun
    have hlen := (Locks.schedule_length driver_lowers hwithin hpath).2
    omega

/-! ## Lists and their locks -/

/-- The locks of what a statement reads or writes: the two lists, the cursor, the use count. -/
def Pc.touches (w : World) : Pc → Finset Lock
  | .addTail _ _ => {.incoming}
  | .headCheck _ _ _ => {.incoming}
  | .moveTail _ _ _ _ _ => {.incoming, .pending}
  | .setStore _ _ _ _ => {.pending}
  | .curLoad _ => {.pending}
  -- `list_del` writes to the neighbours of the entry, wherever it is
  | .unlink a => if a ∈ w.dev.incomingBioList then {.incoming, .pending} else {.pending}
  | .splice _ => {.incoming, .pending}
  | .ruSection _ => {.ru}
  | .pollTest => {.incoming}
  | _ => ∅

/-- A step touches what its thread has locked. -/
def Guarded (c : Crew T) : Act T Pc → Prop
  | .step t => ∀ l ∈ (c.pc t).touches c.shared, c.owner l = some t
  | .resume _ _ => True

/-- What a completion unlinks is not on the incoming list. -/
def UnlinksPending (c : Crew T) : Act T Pc → Prop
  | .step t => ∀ a, c.pc t = .unlink a → a ∉ c.shared.dev.incomingBioList
  | .resume _ _ => True

omit [DecidableEq T] in
theorem guarded_iff {c : Crew T} (h : Locks.Owned driver c) (a : Act T Pc) :
    Guarded c a ↔ UnlinksPending c a := by
  cases a with
  | resume t pc => exact Iff.rfl
  | step t =>
    have hown : ∀ l, c.owner l = some t ↔ l ∈ (c.pc t).held := fun l => h l t
    simp only [Guarded, UnlinksPending, hown]
    cases hpc : c.pc t with
    | unlink a =>
      by_cases ha : a ∈ c.shared.dev.incomingBioList
      · simp [Pc.touches, Pc.held, ha]
      · simp [Pc.touches, Pc.held, ha]
    | _ => simp [Pc.touches, Pc.held]

/-- **The lists and their locks.**  In every run, all along it every access to a list, the cursor or
the use count is made by the owner of its lock, exactly when no completion unlinks an entry that is
on the incoming list. -/
theorem lists_guarded (world : World) (tr : List (Act T Pc × Option (Call × Ret))) :
    AllSteps (crew T) anyCrew (.start world .idle) Guarded tr ↔
      AllSteps (crew T) anyCrew (.start world .idle) UnlinksPending tr := by
  have howned : ∀ tr c, Run (crew T) anyCrew (.start world .idle) tr c → Locks.Owned driver c :=
    fun tr c h => Locks.run_owned driver_disciplined rfl h
  constructor
  · intro hall tr₁ e tr₂ c₁ heq h₁
    exact (guarded_iff (howned _ _ h₁) e.1).mp (hall tr₁ e tr₂ c₁ heq h₁)
  · intro hall tr₁ e tr₂ c₁ heq h₁
    exact (guarded_iff (howned _ _ h₁) e.1).mpr (hall tr₁ e tr₂ c₁ heq h₁)

end

end BDTun
