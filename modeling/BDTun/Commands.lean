import BDTun.Lib.Machine
import BDTun.Control

/-!
# The control plane as a machine of calls

Sessions on the control device, processes that open and close the nodes of the
devices, and the queued work items: each call is one step of `control`.
`ctrlHist` is what the outside has seen of a run (whether a session is open, and
the open handles of each device); `ctrlUsers` is what any user obeys.

* `Created`: all that a create can come to, with the ledger it leaves (`create_cases`).
* `CtrlEffect`: all that a call can do (`ctrl_effect`).
* `run_listed`: in every run names and addresses on the list are distinct, and
  the use count of a device is the number of its open handles.
-/

namespace BDTun

open Memory Machine

section
variable [Kernel]

inductive CtrlCall
  | ctrlOpen
  | ctrlRelease
  | ctrlWrite (count : Nat) (c : CtrlCommand) (k : Answers)
  | ctrlRead (count valid : Nat)
  /-- a process opens a node of a device -/
  | opens (name : DiskName) (h : Handle)
  | releases (name : DiskName) (h : Handle)
  /-- a queued work item runs -/
  | addDisk (w : Addr)

/-- The device with its `struct bdtun` changed. -/
def Device.withBdtun (d : Device) (b : Bdtun) : Device := { d with toBdtun := b }

/-- An open or a release of a node of a device. -/
def nodeCall (s : Ctrl) (name : DiskName) (c : NodeCall) : Ctrl × CtrlRet :=
  match bdtunFindDevice s.deviceList name with
  | none => (s, .ret (-enoent))
  | some dev =>
    (s.update dev.addr fun d => d.withBdtun (nodeNext dev.toBdtun c).1,
      .ret (nodeNext dev.toBdtun c).2)

def controlNext (s : Ctrl) : CtrlCall → Ctrl × CtrlRet
  | .ctrlOpen => ctrlOpen s
  | .ctrlRelease => ctrlRelease s
  | .ctrlWrite count c k => ctrlWrite s count c k
  | .ctrlRead count valid => ctrlRead s count valid
  | .opens name h => nodeCall s name (.opens h)
  | .releases name h => nodeCall s name (.releases h)
  | .addDisk w => bdtunDoAddDisk s w

/-- `kmalloc` answers with addresses that are not in use. -/
def AnswersOk (s : Ctrl) : CtrlCall → Prop
  | .ctrlWrite _ (.create _ _ _ _) k =>
    (∀ new ∈ k.kmallocDevice, ∀ d ∈ s.deviceList, d.addr ≠ new) ∧
      ∀ w ∈ k.kmallocWork, ∀ work ∈ s.addDiskQ, work.addr ≠ w
  | _ => True

instance (s : Ctrl) (c : CtrlCall) : Decidable (AnswersOk s c) := by
  cases c with
  | ctrlWrite count c k => cases c <;> unfold AnswersOk <;> infer_instance
  | _ => unfold AnswersOk; infer_instance

/-- Runs end where the driver dereferences a failed allocation or a freed device. -/
def control : Machine Ctrl CtrlCall CtrlRet where
  enabled s c := AnswersOk s c ∧ (controlNext s c).2 ≠ .oops
  next := controlNext

instance (s : Ctrl) (c : CtrlCall) : Decidable (control.enabled s c) :=
  inferInstanceAs (Decidable (_ ∧ _))

/-! ## What the outside has seen -/

structure CtrlHist where
  session : Bool
  /-- the open handles, each with the name of its device -/
  handles : List (DiskName × Handle)

def CtrlHist.record (h : CtrlHist) : CtrlCall × CtrlRet → CtrlHist
  | (.ctrlOpen, .ret code) => if code = 0 then { h with session := true } else h
  | (.ctrlRelease, _) => { h with session := false }
  | (.opens name k, .ret code) => if code = 0 then { h with handles := (name, k) :: h.handles } else h
  | (.releases name k, _) => { h with handles := h.handles.erase (name, k) }
  | _ => h

def ctrlHist (tr : List (CtrlCall × CtrlRet)) : CtrlHist := tr.foldl CtrlHist.record ⟨false, []⟩

omit [Kernel] in
@[simp] theorem ctrlHist_snoc (tr : List (CtrlCall × CtrlRet)) (e : CtrlCall × CtrlRet) :
    ctrlHist (tr ++ [e]) = (ctrlHist tr).record e := by
  simp [ctrlHist]

/-- Commands and reads go to an open session, and releases to open handles. -/
def ctrlUsers : Policy CtrlCall CtrlRet := fun tr c =>
  match c with
  | .ctrlRelease => (ctrlHist tr).session = true
  | .ctrlWrite _ _ _ => (ctrlHist tr).session = true
  | .ctrlRead _ _ => (ctrlHist tr).session = true
  | .opens name h => (name, h) ∉ (ctrlHist tr).handles
  | .releases name h => (name, h) ∈ (ctrlHist tr).handles
  | .ctrlOpen => True
  | .addDisk _ => True

instance (tr : List (CtrlCall × CtrlRet)) (c : CtrlCall) : Decidable (ctrlUsers tr c) := by
  cases c <;> unfold ctrlUsers <;> infer_instance

/-! ## Create -/

/-- The answers to the calls before `alloc_disk`, if none of them fails: the addresses of the device
and its queue, the major number, and the number of the tunnel. -/
def Answers.parts (k : Answers) : Option (Addr × Addr × Nat × Nat) :=
  match k.kmallocDevice, k.blkAllocQueue, k.registerBlkdev, k.allocChrdevRegion, k.cdevAdd,
    k.deviceCreate with
  | some new, some queue, .ok major, .ok chNum, .ok (), true => some (new, queue, major, chNum)
  | _, _, _, _, _, _ => none

/-- The resources of a device, in the order a removal releases them. -/
def Device.resources (dev : Device) : List Resource :=
  teardownSteps.filterMap (TeardownStep.gives dev)

/-- What a create takes when all calls succeed. -/
def createTakes (l : ResourceLedger Resource) (new queue major chNum gd w : Nat) :
    ResourceLedger Resource :=
  ((((((((((l.take (.deviceStructure new)).take (.requestQueue queue)).take (.blkMajor major)).take
    (.chrdevRegion chNum)).take (.cdev new)).take (.deviceNode chNum)).take (.gendisk gd)).take
    (.listLink new)).take (.workItem w)).take .moduleReference)

/-- All that `bdtun_create_k` can come to. -/
inductive Created (s : Ctrl) (name : DiskName) (blockSize size : Nat) (capabilities : BitVec 32)
    (k : Answers) : Ctrl × CtrlRet → Prop
  | exists (h : (bdtunFindDevice s.deviceList name).isSome = true) :
      Created s name blockSize size capabilities k (s, .ret (-eexist))
  | invalid (h : bdtunFindDevice s.deviceList name = none)
      (hc : createCheck blockSize size = .error (-einval)) :
      Created s name blockSize size capabilities k (s, .ret (-einval))
  /-- a call before `alloc_disk` fails: what was taken is released -/
  | failed (h : bdtunFindDevice s.deviceList name = none) (hc : createCheck blockSize size = .ok ())
      (hp : k.parts = none) (code : Int) (hneg : code < 0)
      (hcode : code ≠ -eexist ∧ code ≠ -einval) :
      Created s name blockSize size capabilities k (s, .ret code)
  /-- `alloc_disk` fails: the device node stays -/
  | noDisk (h : bdtunFindDevice s.deviceList name = none) (hc : createCheck blockSize size = .ok ())
      (new queue major chNum : Nat) (hp : k.parts = some (new, queue, major, chNum))
      (hgd : k.allocDisk = none) :
      Created s name blockSize size capabilities k
        ({ s with ledger := s.ledger.take (.deviceNode chNum) }, .ret (-enomem))
  /-- the work item is not allocated, and is written to -/
  | noWork (h : bdtunFindDevice s.deviceList name = none) (hc : createCheck blockSize size = .ok ())
      (hp : k.parts.isSome = true) (hgd : k.allocDisk.isSome = true) (hw : k.kmallocWork = none)
      (s' : Ctrl) : Created s name blockSize size capabilities k (s', .oops)
  | created (h : bdtunFindDevice s.deviceList name = none) (hc : createCheck blockSize size = .ok ())
      (new queue major chNum gd w : Nat) (hp : k.parts = some (new, queue, major, chNum))
      (hgd : k.allocDisk = some gd) (hw : k.kmallocWork = some w)
      (hnew : k.kmallocDevice = some new) :
      Created s name blockSize size capabilities k
        ({ s with
          deviceList :=
            s.deviceList ++ [newDevice new queue major chNum gd name blockSize size capabilities]
          addDiskQ := s.addDiskQ ++ [⟨w, new⟩]
          ledger := createTakes s.ledger new queue major chNum gd w }, .ret 0)

/-- The checks of the sizes have one error. -/
theorem createCheck_error {blockSize size : Nat} {e : Int}
    (h : createCheck blockSize size = .error e) : e = -einval := by
  unfold createCheck at h
  split at h
  · exact (Except.error.inj h).symm
  · split at h
    · exact (Except.error.inj h).symm
    · split at h
      · exact (Except.error.inj h).symm
      · cases h

theorem create_cases (s : Ctrl) (name : DiskName) (blockSize size : Nat)
    (capabilities : BitVec 32) (k : Answers) :
    Created s name blockSize size capabilities k
      (bdtunCreateK s name blockSize size capabilities k) := by
  have henomem : (-enomem : Int) < 0 ∧ (-enomem : Int) ≠ -eexist ∧ (-enomem : Int) ≠ -einval := by
    decide
  unfold bdtunCreateK
  cases hfind : bdtunFindDevice s.deviceList name with
  | some d => exact .exists (by rw [hfind]; rfl)
  | none =>
    rw [if_neg (by simp)]
    cases hc : createCheck blockSize size with
    | error e =>
      obtain rfl := createCheck_error hc
      exact .invalid hfind hc
    | ok u =>
      cases hnew : k.kmallocDevice with
      | none => exact .failed hfind hc (by simp [Answers.parts, hnew]) _ henomem.1 henomem.2
      | some new =>
        cases hq : k.blkAllocQueue with
        | none =>
          simp only [outKfree, ResourceLedger.release_take]
          exact .failed hfind hc (by simp [Answers.parts, hq]) _ henomem.1 henomem.2
        | some queue =>
          cases hm : k.registerBlkdev with
          | error e =>
            simp only [outCleanupQueue, outKfree, ResourceLedger.release_take]
            exact .failed hfind hc (by simp [Answers.parts, hm]) _ e.neg e.foreign.2
          | ok major =>
            cases hr : k.allocChrdevRegion with
            | error e =>
              simp only [outUnregisterBlkdev, outCleanupQueue, outKfree, ResourceLedger.release_take]
              exact .failed hfind hc (by simp [Answers.parts, hr]) _ e.neg e.foreign.2
            | ok chNum =>
              cases hcd : k.cdevAdd with
              | error e =>
                simp only [outUnregisterChrdevRegion, outUnregisterBlkdev, outCleanupQueue,
                  outKfree, ResourceLedger.release_take]
                exact .failed hfind hc (by simp [Answers.parts, hcd]) _ e.neg e.foreign.2
              | ok u =>
                cases hdc : k.deviceCreate with
                | false =>
                  simp only [outCdevDel, outUnregisterChrdevRegion, outUnregisterBlkdev,
                    outCleanupQueue, outKfree, ResourceLedger.release_take]
                  exact .failed hfind hc (by simp [Answers.parts, hdc]) _ henomem.1 henomem.2
                | true =>
                  have hp : k.parts = some (new, queue, major, chNum) := by
                    simp [Answers.parts, hnew, hq, hm, hr, hcd, hdc]
                  cases hgd : k.allocDisk with
                  | none =>
                    simp only [outCdevDel, outUnregisterChrdevRegion, outUnregisterBlkdev,
                      outCleanupQueue, outKfree, ResourceLedger.release_take_of_ne _
                        (show Resource.cdev new ≠ .deviceNode chNum by simp),
                      ResourceLedger.release_take_of_ne _
                        (show Resource.chrdevRegion chNum ≠ .deviceNode chNum by simp),
                      ResourceLedger.release_take_of_ne _
                        (show Resource.blkMajor major ≠ .deviceNode chNum by simp),
                      ResourceLedger.release_take_of_ne _
                        (show Resource.requestQueue queue ≠ .deviceNode chNum by simp),
                      ResourceLedger.release_take_of_ne _
                        (show Resource.deviceStructure new ≠ .deviceNode chNum by simp),
                      ResourceLedger.release_take]
                    exact .noDisk hfind hc new queue major chNum hp hgd
                  | some gd =>
                    cases hw : k.kmallocWork with
                    | none => exact .noWork hfind hc (by rw [hp]; rfl) (by rw [hgd]; rfl) hw _
                    | some w => exact .created hfind hc new queue major chNum gd w hp hgd hw hnew

/-! ## All that a call can do -/

/-- The command puts a response in the buffer. -/
def CtrlCommand.asks : CtrlCommand → Bool
  | .info _ => true
  | .list _ _ => true
  | _ => false

/-- What a successful resize leaves. -/
def Device.resized (d : Device) (size : Nat) : Device := { d.setCapacity size with bdSize := size }

/-- The sizes of two devices are the same. -/
structure Bdtun.Sizes (b d : Bdtun) : Prop where
  bdSize : b.bdSize = d.bdSize
  bdBlockSize : b.bdBlockSize = d.bdBlockSize
  bdNsectors : b.bdNsectors = d.bdNsectors
  bdGd : b.bdGd = d.bdGd

inductive CtrlEffect (s : Ctrl) : CtrlCall → Ctrl × CtrlRet → Prop
  | session (h : s.ctrlLock = 1) : CtrlEffect s .ctrlOpen ({ s with ctrlLock := 0 }, .ret 0)
  | busy (h : s.ctrlLock ≠ 1) : CtrlEffect s .ctrlOpen (s, .ret (-ebusy))
  | closed : CtrlEffect s .ctrlRelease ({ s with ctrlLock := s.ctrlLock + 1 }, .ret 0)
  | refused (count : Nat) (c : CtrlCommand) (k : Answers) (code : Int) (hneg : code < 0) :
      CtrlEffect s (.ctrlWrite count c k) (s, .ret code)
  | noDisk (count : Nat) (name : DiskName) (blocksize size : UInt64) (capabilities : BitVec 32)
      (k : Answers) (new queue major chNum : Nat) (hp : k.parts = some (new, queue, major, chNum))
      (hgd : k.allocDisk = none) (h : bdtunFindDevice s.deviceList name = none) :
      CtrlEffect s (.ctrlWrite count (.create name blocksize size capabilities) k)
        ({ s with ledger := s.ledger.take (.deviceNode chNum) }, .ret (-enomem))
  | created (count : Nat) (name : DiskName) (blocksize size : UInt64) (capabilities : BitVec 32)
      (k : Answers) (new queue major chNum gd w : Nat)
      (h : bdtunFindDevice s.deviceList name = none)
      (hc : createCheck blocksize.toNat size.toNat = .ok ()) (hnew : k.kmallocDevice = some new)
      (hw : k.kmallocWork = some w) :
      CtrlEffect s (.ctrlWrite count (.create name blocksize size capabilities) k)
        ({ s with
          deviceList := s.deviceList ++
            [newDevice new queue major chNum gd name blocksize.toNat size.toNat capabilities]
          addDiskQ := s.addDiskQ ++ [⟨w, new⟩]
          ledger := createTakes s.ledger new queue major chNum gd w }, .wrote count [])
  | resized (count : Nat) (name : DiskName) (size : UInt64) (k : Answers) (dev : Device)
      (h : bdtunFindDevice s.deviceList name = some dev) :
      CtrlEffect s (.ctrlWrite count (.resize name size) k)
        (s.update dev.addr fun d => d.resized size.toNat, .wrote count [])
  | notResized (count : Nat) (name : DiskName) (size : UInt64) (k : Answers) (dev : Device)
      (h : bdtunFindDevice s.deviceList name = some dev) (e : KernelError)
      (he : k.revalidateDisk = .error e) :
      CtrlEffect s (.ctrlWrite count (.resize name size) k)
        (s.update dev.addr fun d => d.setCapacity size.toNat, .ret e.code)
  | removed (count : Nat) (name : DiskName) (k : Answers) (dev : Device)
      (h : bdtunFindDevice s.deviceList name = some dev) (hr : dev.removing = false)
      (hu : dev.ucnt = 0) :
      CtrlEffect s (.ctrlWrite count (.remove name) k)
        ({ s with
          deviceList := s.deviceList.filter fun d => d.addr ≠ dev.addr
          ledger := s.ledger.releaseAll dev.resources }, .wrote count [])
  /-- only the response changes -/
  | answered (count : Nat) (c : CtrlCommand) (k : Answers) (hc : c.asks = true)
      (buf : Nat → UInt8) (size : Nat) (response : List UInt8)
      (hresponse : gather buf (List.range size) = response) :
      CtrlEffect s (.ctrlWrite count c k)
        ({ s with ctrlResponseBuf := buf, ctrlResponseSize := size }, .wrote count response)
  | read (count valid : Nat) (size : Int) (r : CtrlRet) :
      CtrlEffect s (.ctrlRead count valid) ({ s with ctrlResponseSize := size }, r)
  | opened (name : DiskName) (h : Handle) (dev : Device)
      (hf : bdtunFindDevice s.deviceList name = some dev) (hr : dev.removing = false) :
      CtrlEffect s (.opens name h)
        (s.update dev.addr fun d => d.withBdtun { dev.toBdtun with ucnt := dev.ucnt + 1 }, .ret 0)
  /-- the device is being removed -/
  | going (name : DiskName) (h : Handle) (dev : Device)
      (hf : bdtunFindDevice s.deviceList name = some dev) (hr : dev.removing = true) (code : Int)
      (hcode : code ≠ 0) :
      CtrlEffect s (.opens name h)
        (s.update dev.addr fun d => d.withBdtun dev.toBdtun, .ret code)
  | released (name : DiskName) (h : Handle) (dev : Device)
      (hf : bdtunFindDevice s.deviceList name = some dev) (b : Bdtun)
      (hu : b.ucnt = dev.ucnt - 1) (hr : b.removing = dev.removing) (hs : b.Sizes dev.toBdtun) :
      CtrlEffect s (.releases name h)
        (s.update dev.addr fun d => d.withBdtun b, .ret 0)
  | missed (name : DiskName) (h : Handle) (c : CtrlCall)
      (hc : c = .opens name h ∨ c = .releases name h)
      (hf : bdtunFindDevice s.deviceList name = none) : CtrlEffect s c (s, .ret (-enoent))
  | added (w : Addr) (work : AddDiskWork)
      (hw : (s.addDiskQ.find? fun work => work.addr = w) = some work) :
      CtrlEffect s (.addDisk w)
        ({ s.update work.dev fun d => { d with addDiskFinished := true } with
          addDiskQ := s.addDiskQ.filter fun work => work.addr ≠ w
          ledger := s.ledger.release (.workItem w) }, .ret 0)

omit [Kernel] in
theorem Ctrl.update_update (s : Ctrl) (a : Addr) (f g : Device → Device)
    (hf : ∀ d, (f d).addr = d.addr) :
    (s.update a f).update a g = s.update a fun d => g (f d) := by
  unfold Ctrl.update
  rw [List.map_map]
  congr 1
  refine List.map_congr_left ?_
  intro d _
  by_cases hd : d.addr = a
  · simp only [Function.comp, hd, if_pos, hf]
  · simp only [Function.comp, if_neg hd]

/-- All that `bdtun_resize_k` can come to. -/
inductive Resized (s : Ctrl) (name : DiskName) (size : Nat) (k : Answers) : Ctrl × CtrlRet → Prop
  | absent (h : bdtunFindDevice s.deviceList name = none) :
      Resized s name size k (s, .ret (-enoent))
  /-- the capacity is set already -/
  | failed (dev : Device) (h : bdtunFindDevice s.deviceList name = some dev) (e : KernelError)
      (he : k.revalidateDisk = .error e) :
      Resized s name size k (s.update dev.addr fun d => d.setCapacity size, .ret e.code)
  | resized (dev : Device) (h : bdtunFindDevice s.deviceList name = some dev)
      (hok : k.revalidateDisk = .ok ()) :
      Resized s name size k (s.update dev.addr fun d => d.resized size, .ret 0)

omit [Kernel] in
theorem resize_cases (s : Ctrl) (name : DiskName) (size : Nat) (k : Answers) :
    Resized s name size k (bdtunResizeK s name size k) := by
  unfold bdtunResizeK
  cases hfind : bdtunFindDevice s.deviceList name with
  | none => exact .absent hfind
  | some dev =>
    cases hrev : k.revalidateDisk with
    | error e => exact .failed dev hfind e hrev
    | ok u =>
      simp only
      rw [Ctrl.update_update s dev.addr (fun d => d.setCapacity size)
        (fun d => { d with bdSize := size }) fun _ => rfl]
      exact .resized dev hfind hrev

/-- All that `bdtun_remove_k` can come to. -/
inductive Removed (s : Ctrl) (name : DiskName) : Ctrl × CtrlRet → Prop
  | absent (h : bdtunFindDevice s.deviceList name = none) : Removed s name (s, .ret (-enoent))
  | busy (dev : Device) (h : bdtunFindDevice s.deviceList name = some dev)
      (hwhy : dev.removing = true ∨ dev.ucnt ≠ 0) : Removed s name (s, .ret (-ebusy))
  | removed (dev : Device) (h : bdtunFindDevice s.deviceList name = some dev)
      (hr : dev.removing = false) (hu : dev.ucnt = 0) :
      Removed s name
        ({ s with
          deviceList := s.deviceList.filter fun d => d.addr ≠ dev.addr
          ledger := s.ledger.releaseAll dev.resources }, .ret 0)

omit [Kernel] in
theorem remove_cases (s : Ctrl) (name : DiskName) : Removed s name (bdtunRemoveK s name) := by
  unfold bdtunRemoveK
  cases hfind : bdtunFindDevice s.deviceList name with
  | none => exact .absent hfind
  | some dev =>
    simp only
    rcases removeCheck_cases dev.toBdtun with ⟨hbusy, hwhy⟩ | ⟨hgone, hr, hu⟩
    · have hcode : (removeCheck dev.toBdtun).2 = -ebusy := by rw [hbusy]
      rw [hcode, if_pos (by decide)]
      exact .busy dev hfind hwhy
    · rw [hgone, if_neg (by simp)]
      exact .removed dev hfind hr hu

omit [Kernel] in
theorem done_ok (count : Nat) (s : Ctrl) : done count (s, .ret 0) = (s, .wrote count []) := rfl

omit [Kernel] in
theorem done_error (count : Nat) (s : Ctrl) {code : Int} (h : code < 0) :
    done count (s, .ret code) = (s, .ret code) := by
  simp [done, h]

theorem bdtunCommSize_pos : 0 < bdtunCommSize := by
  unfold bdtunCommSize
  split <;> decide

/-- A write that is too short for its command is refused, whatever the command. -/
theorem ctrlWrite_short (s : Ctrl) {count : Nat} (c : CtrlCommand) (k : Answers)
    (h : count < bdtunCommSize) : ctrlWrite s count c k = (s, .ret (-eio)) := by
  unfold ctrlWrite
  by_cases hcount : count < 1
  · rw [if_pos hcount]
  · rw [if_neg hcount]
    cases c with
    | other command => rfl
    | _ => exact if_pos h

/-- What is done for a command that is long enough. -/
theorem ctrlWrite_long (s : Ctrl) {count : Nat} (c : CtrlCommand) (k : Answers)
    (h : bdtunCommSize ≤ count) : ctrlWrite s count c k =
      match c with
      | .create name blocksize size capabilities =>
        done count (bdtunCreateK s name blocksize.toNat size.toNat capabilities k)
      | .remove name => done count (bdtunRemoveK s name)
      | .info name =>
        match bdtunInfoK s.deviceList name with
        | .error e => (s, .ret e)
        | .ok info =>
          ({ s with
            ctrlResponseBuf := memcpy s.ctrlResponseBuf 0 (info.bytes k.stack)
            ctrlResponseSize := (info.bytes k.stack).length }, .wrote count (info.bytes k.stack))
      | .list offset maxdevices =>
        let (buf, bufpos) := bdtunListK s.deviceList s.ctrlResponseBuf bdtunResponseSize
          bdtunDevnames offset maxdevices
        let s := { s with ctrlResponseBuf := buf, ctrlResponseSize := bufpos }
        (s, .wrote count s.response)
      | .resize name size => done count (bdtunResizeK s name size.toNat k)
      | .other _ => (s, .ret (-eio)) := by
  have hpos := bdtunCommSize_pos
  have hcount : ¬ count < 1 := by omega
  have hlong : ¬ count < bdtunCommSize := by omega
  unfold ctrlWrite
  rw [if_neg hcount]
  cases c with
  | other command => rfl
  | _ => exact if_neg hlong

/-- What a write does, if it does not fault. -/
theorem write_effect (s : Ctrl) (count : Nat) (c : CtrlCommand) (k : Answers)
    (hr : (ctrlWrite s count c k).2 ≠ .oops) :
    CtrlEffect s (.ctrlWrite count c k) (ctrlWrite s count c k) := by
  by_cases hsize : count < bdtunCommSize
  · rw [ctrlWrite_short s c k hsize]
    exact .refused _ _ _ _ (by decide)
  · rw [ctrlWrite_long s c k (by omega)] at hr ⊢
    cases c with
    | other command => exact .refused _ _ _ _ (by decide)
    | create name blocksize size capabilities =>
      have hcases := create_cases s name blocksize.toNat size.toNat capabilities k
      simp only at hr ⊢
      generalize bdtunCreateK s name blocksize.toNat size.toNat capabilities k = res at hr hcases
      cases hcases with
      | «exists» h =>
        rw [done_error _ _ (by decide)]
        exact .refused _ _ _ _ (by decide)
      | invalid h hc =>
        rw [done_error _ _ (by decide)]
        exact .refused _ _ _ _ (by decide)
      | failed h hc hp code hneg hcode =>
        rw [done_error _ _ hneg]
        exact .refused _ _ _ _ hneg
      | noDisk h hc new queue major chNum hp hgd =>
        rw [done_error _ _ (by decide)]
        exact .noDisk _ _ _ _ _ _ _ _ _ _ hp hgd h
      | noWork h hc hp hgd hw s' => exact absurd rfl hr
      | created h hc new queue major chNum gd w hp hgd hw hnew =>
        rw [done_ok]
        exact .created _ _ _ _ _ _ _ _ _ _ _ _ h hc hnew hw
    | remove name =>
      have hcases := remove_cases s name
      simp only
      generalize bdtunRemoveK s name = res at hcases
      cases hcases with
      | absent h =>
        rw [done_error _ _ (by decide)]
        exact .refused _ _ _ _ (by decide)
      | busy dev h hwhy =>
        rw [done_error _ _ (by decide)]
        exact .refused _ _ _ _ (by decide)
      | removed dev h hrem hu =>
        rw [done_ok]
        exact .removed _ _ _ _ h hrem hu
    | list offset maxdevices => exact .answered _ _ _ rfl _ _ _ rfl
    | info name =>
      simp only [bdtunInfoK]
      cases hfind : bdtunFindDevice s.deviceList name with
      | none => exact .refused _ _ _ _ (by decide)
      | some dev =>
        refine .answered _ _ _ rfl _ _ _ ?_
        exact gather_memcpy_start _ _
    | resize name size =>
      have hcases := resize_cases s name size.toNat k
      simp only
      generalize bdtunResizeK s name size.toNat k = res at hcases
      cases hcases with
      | absent h =>
        rw [done_error _ _ (by decide)]
        exact .refused _ _ _ _ (by decide)
      | failed dev h e he =>
        rw [done_error _ _ e.neg]
        exact .notResized _ _ _ _ _ h e he
      | resized dev h hok =>
        rw [done_ok]
        exact .resized _ _ _ _ _ h

theorem node_effect (s : Ctrl) (name : DiskName) (h : Handle) :
    CtrlEffect s (.opens name h) (nodeCall s name (.opens h)) ∧
      CtrlEffect s (.releases name h) (nodeCall s name (.releases h)) := by
  unfold nodeCall
  cases hfind : bdtunFindDevice s.deviceList name with
  | none => exact ⟨.missed _ _ _ (Or.inl rfl) hfind, .missed _ _ _ (Or.inr rfl) hfind⟩
  | some dev =>
    constructor
    · rcases open_effect dev.toBdtun h with ⟨hr, hrefused, hsame⟩ | ⟨hr, hopened⟩
      · simp only [hsame]
        exact .going _ _ _ hfind hr _ hrefused
      · simp only [hopened]
        exact .opened _ _ _ hfind hr
    · obtain ⟨hu, hr⟩ := release_effect dev.toBdtun h
      obtain ⟨n, j⟩ := h
      cases n with
      | block => exact .released _ _ _ hfind _ hu hr ⟨rfl, rfl, rfl, rfl⟩
      | tunnel => exact .released _ _ _ hfind _ hu hr ⟨rfl, rfl, rfl, rfl⟩

omit [Kernel] in
/-- An open of the control device, when no other is under way. -/
theorem ctrlOpen_eq (s : Ctrl) :
    ctrlOpen s = if s.ctrlLock = 1 then ({ s with ctrlLock := 0 }, .ret 0) else (s, .ret (-ebusy)) := by
  by_cases hlock : s.ctrlLock = 1
  · simp [ctrlOpen, hlock]
  · have hne : s.ctrlLock - 1 ≠ 0 := by omega
    simp [ctrlOpen, hne, hlock]

/-- **What a call can do**, if it does not fault. -/
theorem ctrl_effect (s : Ctrl) (c : CtrlCall) (hr : (controlNext s c).2 ≠ .oops) :
    CtrlEffect s c (controlNext s c) := by
  cases c with
  | ctrlOpen =>
    by_cases hlock : s.ctrlLock = 1
    · rw [controlNext, ctrlOpen_eq, if_pos hlock]
      exact .session hlock
    · rw [controlNext, ctrlOpen_eq, if_neg hlock]
      exact .busy hlock
  | ctrlRelease => exact .closed
  | ctrlWrite count c k => exact write_effect s count c k hr
  | ctrlRead count valid =>
    simp only [controlNext, ctrlRead]
    split
    · exact .read _ _ s.ctrlResponseSize _
    · split
      · exact .read _ _ 0 _
      · exact .read _ _ s.ctrlResponseSize _
  | opens name h => exact (node_effect s name h).1
  | releases name h => exact (node_effect s name h).2
  | addDisk w =>
    simp only [controlNext, bdtunDoAddDisk] at hr ⊢
    cases hw : s.addDiskQ.find? fun work => work.addr = w with
    | none => simp [hw] at hr
    | some work =>
      simp only [hw] at hr ⊢
      split
      · exact .added _ _ hw
      · next hdead => simp [hdead] at hr

end

/-! ## Names, addresses and use counts -/

section

theorem find_some {l : List Device} {name : DiskName} {dev : Device}
    (h : bdtunFindDevice l name = some dev) : dev ∈ l ∧ dev.diskName = name := by
  refine ⟨List.mem_of_find?_eq_some h, ?_⟩
  simpa using List.find?_some h

theorem find_none {l : List Device} {name : DiskName} :
    bdtunFindDevice l name = none ↔ ∀ d ∈ l, d.diskName ≠ name := by
  rw [bdtunFindDevice, List.find?_eq_none]
  simp only [decide_eq_true_eq, ne_eq]

/-- A device with a new name is found at the end of the list. -/
theorem find_append {l : List Device} {new : Device}
    (h : bdtunFindDevice l new.diskName = none) :
    bdtunFindDevice (l ++ [new]) new.diskName = some new := by
  unfold bdtunFindDevice at h ⊢
  rw [List.find?_append, h]
  simp

/-- A write to a device that leaves its name alone does not change which one is found. -/
theorem find_update {s : Ctrl} {a : Addr} {f : Device → Device} {name : DiskName}
    (hf : ∀ d, (f d).diskName = d.diskName) :
    bdtunFindDevice (s.update a f).deviceList name =
      (bdtunFindDevice s.deviceList name).map fun d => if d.addr = a then f d else d := by
  unfold bdtunFindDevice Ctrl.update
  rw [List.find?_map]
  congr 2
  funext d
  simp only [Function.comp]
  split
  · rw [hf]
  · rfl

theorem mem_update {s : Ctrl} {a : Addr} {f : Device → Device} {d : Device} :
    d ∈ (s.update a f).deviceList ↔ ∃ e ∈ s.deviceList, (if e.addr = a then f e else e) = d :=
  List.mem_map

theorem map_update {β : Type} {s : Ctrl} {a : Addr} {f : Device → Device} (g : Device → β)
    (h : ∀ d, d.addr = a → g (f d) = g d) :
    (s.update a f).deviceList.map g = s.deviceList.map g := by
  rw [Ctrl.update, List.map_map]
  refine List.map_congr_left ?_
  intro d _
  simp only [Function.comp]
  split
  · next hd => exact h d hd
  · rfl

/-- The handles of a device that are open. -/
def CtrlHist.users (h : CtrlHist) (name : DiskName) : Nat :=
  h.handles.countP fun k => k.1 = name

/-- The list, against what the outside has seen. -/
structure Listed (h : CtrlHist) (s : Ctrl) : Prop where
  names : (s.deviceList.map Device.diskName).Nodup
  addrs : (s.deviceList.map Device.addr).Nodup
  idle : ∀ d ∈ s.deviceList, d.removing = false
  count : ∀ d ∈ s.deviceList, d.ucnt = h.users d.diskName
  homes : ∀ k ∈ h.handles, ∃ d ∈ s.deviceList, d.diskName = k.1
  lock : s.ctrlLock = if h.session then 0 else 1

variable {h : CtrlHist} {s : Ctrl}

theorem Listed.eq_of_addr (hl : Listed h s) {d e : Device} (hd : d ∈ s.deviceList)
    (he : e ∈ s.deviceList) (ha : d.addr = e.addr) : d = e :=
  List.inj_on_of_nodup_map hl.addrs hd he ha

theorem Listed.eq_of_name (hl : Listed h s) {d e : Device} (hd : d ∈ s.deviceList)
    (he : e ∈ s.deviceList) (hn : d.diskName = e.diskName) : d = e :=
  List.inj_on_of_nodup_map hl.names hd he hn

/-- A listed device is not being removed between commands. -/
theorem Listed.not_going (hl : Listed h s) {d : Device} (hd : d ∈ s.deviceList) :
    ¬ d.removing = true := by
  rw [hl.idle d hd]
  decide

/-- The device found by a name is the one of that name. -/
theorem Listed.find (hl : Listed h s) {d : Device} (hd : d ∈ s.deviceList) :
    bdtunFindDevice s.deviceList d.diskName = some d := by
  cases hf : bdtunFindDevice s.deviceList d.diskName with
  | none => exact absurd rfl (find_none.mp hf d hd)
  | some e =>
    obtain ⟨he, hn⟩ := find_some hf
    rw [hl.eq_of_name he hd hn]

/-- A step that changes neither names, addresses nor use. -/
theorem Listed.congr (hl : Listed h s) {s' : Ctrl} {g : Device → Device}
    (hlist : s'.deviceList = s.deviceList.map g)
    (hg : ∀ d ∈ s.deviceList, (g d).diskName = d.diskName ∧ (g d).addr = d.addr ∧
      (g d).removing = d.removing ∧ (g d).ucnt = d.ucnt)
    (hlock : s'.ctrlLock = s.ctrlLock) : Listed h s' := by
  refine ⟨?_, ?_, ?_, ?_, ?_, by rw [hlock]; exact hl.lock⟩
  · have hnames : (s.deviceList.map g).map Device.diskName = s.deviceList.map Device.diskName := by
      rw [List.map_map]
      exact List.map_congr_left fun d hd => (hg d hd).1
    rw [hlist, hnames]
    exact hl.names
  · have haddrs : (s.deviceList.map g).map Device.addr = s.deviceList.map Device.addr := by
      rw [List.map_map]
      exact List.map_congr_left fun d hd => (hg d hd).2.1
    rw [hlist, haddrs]
    exact hl.addrs
  · rw [hlist]
    intro d hd
    obtain ⟨e, he, rfl⟩ := List.mem_map.mp hd
    rw [(hg e he).2.2.1]
    exact hl.idle e he
  · rw [hlist]
    intro d hd
    obtain ⟨e, he, rfl⟩ := List.mem_map.mp hd
    rw [(hg e he).2.2.2, (hg e he).1]
    exact hl.count e he
  · rw [hlist]
    intro k hk
    obtain ⟨d, hd, hn⟩ := hl.homes k hk
    exact ⟨g d, List.mem_map_of_mem hd, by rw [(hg d hd).1, hn]⟩

/-- The same list and the same lock. -/
theorem Listed.same (hl : Listed h s) {s' : Ctrl} (hlist : s'.deviceList = s.deviceList)
    (hlock : s'.ctrlLock = s.ctrlLock) : Listed h s' :=
  hl.congr (g := id) (by rw [hlist, List.map_id]) (fun _ _ => ⟨rfl, rfl, rfl, rfl⟩) hlock

/-- A write to one device that changes neither its name, its address nor its use. -/
theorem Listed.write (hl : Listed h s) (a : Addr) {f : Device → Device}
    (hf : ∀ d, (f d).diskName = d.diskName ∧ (f d).addr = d.addr ∧ (f d).removing = d.removing ∧
      (f d).ucnt = d.ucnt) : Listed h (s.update a f) := by
  refine hl.congr (g := fun d => if d.addr = a then f d else d) rfl (fun d _ => ?_) rfl
  split
  · exact hf d
  · exact ⟨rfl, rfl, rfl, rfl⟩

theorem Listed.create (hl : Listed h s) {new : Device} {s' : Ctrl}
    (hlist : s'.deviceList = s.deviceList ++ [new]) (hlock : s'.ctrlLock = s.ctrlLock)
    (hname : bdtunFindDevice s.deviceList new.diskName = none)
    (haddr : ∀ d ∈ s.deviceList, d.addr ≠ new.addr) (hr : new.removing = false)
    (hu : new.ucnt = 0) : Listed h s' := by
  rw [find_none] at hname
  refine ⟨?_, ?_, ?_, ?_, ?_, by rw [hlock]; exact hl.lock⟩
  · rw [hlist, List.map_append, List.nodup_append']
    refine ⟨hl.names, List.nodup_singleton _, fun n hn hone => ?_⟩
    obtain ⟨d, hd, rfl⟩ := List.mem_map.mp hn
    exact hname d hd (List.mem_singleton.mp hone)
  · rw [hlist, List.map_append, List.nodup_append']
    refine ⟨hl.addrs, List.nodup_singleton _, fun n hn hone => ?_⟩
    obtain ⟨d, hd, rfl⟩ := List.mem_map.mp hn
    exact haddr d hd (List.mem_singleton.mp hone)
  · rw [hlist]
    intro d hd
    rcases List.mem_append.mp hd with hold | hone
    · exact hl.idle d hold
    · rw [List.mem_singleton.mp hone, hr]
  · rw [hlist]
    intro d hd
    rcases List.mem_append.mp hd with hold | hone
    · exact hl.count d hold
    · -- nobody has a handle of a name that was not on the list
      have hnone : h.users new.diskName = 0 := by
        rw [CtrlHist.users, List.countP_eq_zero]
        intro k hk hkn
        obtain ⟨e, he, hen⟩ := hl.homes k hk
        exact hname e he (hen.trans (by simpa using hkn))
      rw [List.mem_singleton.mp hone, hu, hnone]
      rfl
  · rw [hlist]
    intro k hk
    obtain ⟨d, hd, hn⟩ := hl.homes k hk
    exact ⟨d, List.mem_append_left _ hd, hn⟩

theorem Listed.remove (hl : Listed h s) {dev : Device} (hd : dev ∈ s.deviceList)
    (hu : dev.ucnt = 0) {s' : Ctrl}
    (hlist : s'.deviceList = s.deviceList.filter fun d => d.addr ≠ dev.addr)
    (hlock : s'.ctrlLock = s.ctrlLock) : Listed h s' := by
  have hmem : ∀ d, d ∈ s'.deviceList ↔ d ∈ s.deviceList ∧ d.addr ≠ dev.addr := by
    intro d
    rw [hlist, List.mem_filter]
    simp
  refine ⟨?_, ?_, fun d h => hl.idle d ((hmem d).mp h).1, fun d h => hl.count d ((hmem d).mp h).1,
    ?_, by rw [hlock]; exact hl.lock⟩
  · rw [hlist]
    exact hl.names.sublist (List.filter_sublist.map _)
  · rw [hlist]
    exact hl.addrs.sublist (List.filter_sublist.map _)
  · intro k hk
    obtain ⟨d, hd', hn⟩ := hl.homes k hk
    refine ⟨d, (hmem d).mpr ⟨hd', fun ha => ?_⟩, hn⟩
    obtain rfl := hl.eq_of_addr hd' hd ha
    have hcount := hl.count d hd
    have hpos : 0 < h.users d.diskName := by
      rw [CtrlHist.users, List.countP_pos_iff]
      exact ⟨k, hk, by simp [hn]⟩
    omega

/-- A change of the use count of one device that goes with a change of its handles. -/
theorem Listed.reuse (hl : Listed h s) {dev : Device} (hd : dev ∈ s.deviceList) {b : Bdtun}
    (hr : b.removing = false) {h' : CtrlHist} (hsession : h'.session = h.session)
    (hdev : b.ucnt = h'.users dev.diskName)
    (hother : ∀ n, n ≠ dev.diskName → h'.users n = h.users n)
    (hhomes : ∀ k ∈ h'.handles, k ∈ h.handles ∨ k.1 = dev.diskName) :
    Listed h' (s.update dev.addr fun d => d.withBdtun b) := by
  have hmem : ∀ d, d ∈ (s.update dev.addr fun d => d.withBdtun b).deviceList →
      d = dev.withBdtun b ∨ (d ∈ s.deviceList ∧ d.diskName ≠ dev.diskName) := by
    intro d hmem
    obtain ⟨e, he, rfl⟩ := mem_update.mp hmem
    by_cases ha : e.addr = dev.addr
    · rw [if_pos ha, hl.eq_of_addr he hd ha]
      exact Or.inl rfl
    · rw [if_neg ha]
      refine Or.inr ⟨he, fun hn => ha ?_⟩
      rw [hl.eq_of_name he hd hn]
  refine ⟨?_, ?_, ?_, ?_, ?_, ?_⟩
  · rw [map_update (f := fun d => d.withBdtun b) Device.diskName fun _ _ => rfl]
    exact hl.names
  · rw [map_update (f := fun d => d.withBdtun b) Device.addr fun _ _ => rfl]
    exact hl.addrs
  · intro d hd'
    rcases hmem d hd' with rfl | ⟨hold, -⟩
    · exact hr
    · exact hl.idle d hold
  · intro d hd'
    rcases hmem d hd' with rfl | ⟨hold, hn⟩
    · exact hdev
    · rw [hother _ hn]
      exact hl.count d hold
  · intro k hk
    have hname : ∃ e ∈ s.deviceList, e.diskName = k.1 := by
      rcases hhomes k hk with hold | hnew
      · exact hl.homes k hold
      · exact ⟨dev, hd, hnew.symm⟩
    obtain ⟨e, he, hen⟩ := hname
    refine ⟨_, mem_update.mpr ⟨e, he, rfl⟩, ?_⟩
    split <;> exact hen
  · rw [hsession]
    exact hl.lock

variable [Kernel]

/-- **Every call keeps it.** -/
theorem Listed.next {tr : List (CtrlCall × CtrlRet)} (hl : Listed (ctrlHist tr) s) (c : CtrlCall)
    (hp : ctrlUsers tr c) (hok : AnswersOk s c) (hr : (controlNext s c).2 ≠ .oops) :
    Listed ((ctrlHist tr).record (c, (controlNext s c).2)) (controlNext s c).1 := by
  have heff := ctrl_effect s c hr
  generalize controlNext s c = res at heff
  cases heff with
  | session hlock => exact ⟨hl.names, hl.addrs, hl.idle, hl.count, hl.homes, rfl⟩
  | busy hlock => exact hl
  | closed =>
    refine ⟨hl.names, hl.addrs, hl.idle, hl.count, hl.homes, ?_⟩
    have hopen : (ctrlHist tr).session = true := hp
    have hlock := hl.lock
    rw [hopen] at hlock
    show s.ctrlLock + 1 = 1
    rw [hlock]
    rfl
  | refused count c k code hneg => exact hl
  | noDisk count name blocksize size capabilities k new queue major chNum _ _ _ =>
    exact hl.same rfl rfl
  | created count name blocksize size capabilities k new queue major chNum gd w hf _ hnew _ =>
    exact hl.create rfl rfl hf (hok.1 new hnew) rfl rfl
  | resized count name size k dev hf => exact hl.write _ fun _ => ⟨rfl, rfl, rfl, rfl⟩
  | notResized count name size k dev hf e _ => exact hl.write _ fun _ => ⟨rfl, rfl, rfl, rfl⟩
  | removed count name k dev hf hrem hu => exact hl.remove (find_some hf).1 hu rfl rfl
  | answered count c k hc buf size response _ => exact hl.same rfl rfl
  | read count valid size r => exact hl.same rfl rfl
  | opened name k dev hf hrem =>
    obtain ⟨hd, rfl⟩ := find_some hf
    refine hl.reuse hd (b := { dev.toBdtun with ucnt := dev.ucnt + 1 }) hrem rfl ?_ ?_ ?_
    · simp [CtrlHist.record, CtrlHist.users, hl.count dev hd]
    · intro n hn
      simp [CtrlHist.record, CtrlHist.users, hn.symm]
    · intro j hj
      rcases List.mem_cons.mp hj with rfl | hold
      · exact Or.inr rfl
      · exact Or.inl hold
  | going name k dev hf hrem code hcode =>
    obtain ⟨hd, -⟩ := find_some hf
    exact absurd hrem (hl.not_going hd)
  | released name k dev hf b hu hrem hs =>
    obtain ⟨hd, rfl⟩ := find_some hf
    have hmem : (dev.diskName, k) ∈ (ctrlHist tr).handles := hp
    refine hl.reuse hd (hrem.trans (hl.idle dev hd)) rfl ?_ ?_ ?_
    · have hpos : 0 < (ctrlHist tr).users dev.diskName := by
        rw [CtrlHist.users, List.countP_pos_iff]
        exact ⟨_, hmem, by simp⟩
      have herase : (CtrlHist.record (ctrlHist tr)
          (.releases dev.diskName k, .ret 0)).users dev.diskName =
          (ctrlHist tr).users dev.diskName - 1 := by
        simp [CtrlHist.record, CtrlHist.users, List.countP_erase, hmem]
      rw [hu, hl.count dev hd, herase]
      omega
    · intro n hn
      simp [CtrlHist.record, CtrlHist.users, List.countP_erase, hn.symm]
    · intro j hj
      exact Or.inl (List.mem_of_mem_erase hj)
  | missed name k c hc hf =>
    rcases hc with rfl | rfl
    · exact hl
    · -- an open handle has its device on the list
      obtain ⟨d, hd, hn⟩ := hl.homes _ (show (name, k) ∈ (ctrlHist tr).handles from hp)
      exact absurd hn (find_none.mp hf d hd)
  | added w work hw =>
    exact (hl.write work.dev fun _ => ⟨rfl, rfl, rfl, rfl⟩ :
      Listed (ctrlHist tr) (s.update work.dev fun d => { d with addDiskFinished := true })).same
        rfl rfl

/-- **In every run** names and addresses on the list are distinct, a device's use count is the number
of its open handles, and no listed device is half removed. -/
theorem run_listed {P : Policy CtrlCall CtrlRet} (hP : ∀ tr c, P tr c → ctrlUsers tr c)
    {tr : List (CtrlCall × CtrlRet)} (hrun : Run control P .init tr s) : Listed (ctrlHist tr) s := by
  refine hrun.invariant (fun tr s => Listed (ctrlHist tr) s) ?_ ?_
  · exact ⟨List.nodup_nil, List.nodup_nil, by simp [Ctrl.init], by simp [Ctrl.init],
      by simp [ctrlHist], rfl⟩
  · intro tr s c hl hp he
    rw [ctrlHist_snoc]
    exact hl.next c (hP tr c hp) he.1 he.2

end

end BDTun
