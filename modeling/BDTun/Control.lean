import BDTun.Lib.Ledger
import BDTun.UseCount

/-!
# The control device and the device list of `kernel/bdtun.c`

`Ctrl` is what the control plane keeps: `device_list`, the queued `add_disk` work
items, the response buffer, `ctrl_lock`, and a ledger of the kernel resources
taken and released.  The commands (`bdtunCreateK`, `bdtunResizeK`, `bdtunRemoveK`,
`bdtunInfoK`, `bdtunListK`) and the operations of the control device (`ctrlOpen`,
`ctrlRead`, `ctrlWrite`, `ctrlRelease`) are functions on it.  What the kernel
answers to the calls of a command is an argument, `Answers`; where a failed
allocation is dereferenced the outcome is `oops`.
-/

namespace BDTun

open Memory

/-! ## Data -/

/-- A name in a command: a string that ends within its 32 bytes. -/
structure DiskName where
  bytes : List UInt8
  noNul : 0 ∉ bytes
  fits : bytes.length ≤ 31
deriving DecidableEq

/-- `struct request_queue`, as far as the driver sets it up. -/
structure RequestQueue where
  addr : Addr
  logicalBlockSize : Nat
  /-- what `blk_queue_flush` was given -/
  flushFlags : Nat
  /-- `QUEUE_FLAG_DISCARD` -/
  discard : Bool
  /-- `QUEUE_FLAG_SECDISCARD` -/
  secdiscard : Bool

/-- A listed `struct bdtun`, at `addr`, with its queue and the rest of its gendisk. -/
structure Device extends Bdtun where
  addr : Addr
  chNum : Nat
  addDiskFinished : Bool
  capabilities : BitVec 32
  diskName : DiskName
  major : Nat
  gendisk : Addr
  queue : RequestQueue

/-- What `bdtun_create_k` takes, by the number or the address it goes by. -/
inductive Resource
  | deviceStructure (a : Addr)
  | requestQueue (q : Addr)
  | blkMajor (major : Nat)
  | chrdevRegion (chNum : Nat)
  | cdev (a : Addr)
  | deviceNode (chNum : Nat)
  | gendisk (gd : Addr)
  | listLink (a : Addr)
  | workItem (w : Addr)
  | moduleReference
deriving DecidableEq

/-- A queued `struct bdtun_add_disk_work`: its address and its `dev`. -/
structure AddDiskWork where
  addr : Addr
  dev : Addr

structure Ctrl where
  deviceList : List Device
  addDiskQ : List AddDiskWork
  ledger : ResourceLedger Resource
  ctrlLock : Int
  ctrlResponseBuf : Nat → UInt8
  ctrlResponseSize : Int

/-- The module when it is loaded. -/
def Ctrl.init : Ctrl where
  deviceList := []
  addDiskQ := []
  ledger := .empty
  ctrlLock := 1
  ctrlResponseBuf := fun _ => 0
  ctrlResponseSize := 0

/-- An error of a kernel call; not one of those by which a command itself refuses. -/
structure KernelError where
  code : Int
  neg : code < 0
  foreign : code ≠ -enoent ∧ code ≠ -eexist ∧ code ≠ -einval

/-- What the kernel answers to the calls of a command. -/
structure Answers where
  kmallocDevice : Option Addr
  blkAllocQueue : Option Addr
  registerBlkdev : Except KernelError Nat
  allocChrdevRegion : Except KernelError Nat
  cdevAdd : Except KernelError Unit
  /-- not `IS_ERR` -/
  deviceCreate : Bool
  allocDisk : Option Addr
  kmallocWork : Option Addr
  revalidateDisk : Except KernelError Unit
  /-- what the stack holds where `struct bdtun_info` has padding -/
  stack : List UInt8

/-- How a call on the control device ends. -/
inductive CtrlRet
  | ret (code : Int)
  /-- a command was accepted, and this is its response -/
  | wrote (count : Nat) (response : List UInt8)
  /-- a read: what it returned and what it copied -/
  | data (code : Int) (bytes : List UInt8)
  | oops
deriving DecidableEq

/-! ## Device list -/

/-- `bdtun_find_device` -/
def bdtunFindDevice (l : List Device) (name : DiskName) : Option Device :=
  l.find? fun entry => entry.diskName = name

/-- A write through a pointer to a device. -/
def Ctrl.update (s : Ctrl) (a : Addr) (f : Device → Device) : Ctrl :=
  { s with deviceList := s.deviceList.map fun d => if d.addr = a then f d else d }

section
variable [Kernel]

/-! ## Create -/

def bdtunFlush : BitVec 32 := 1
def bdtunFua : BitVec 32 := 2

/-- `qflags` -/
def qflags (capabilities : BitVec 32) : Nat :=
  (if capabilities &&& bdtunFlush ≠ 0 then 1 <<< reqBit .reqFlush else 0) |||
    (if capabilities &&& bdtunFua ≠ 0 then 1 <<< reqBit .reqFua else 0)

/-- The queue of a new device; `blk_queue_discard` and `test_bit` only look at it.  `blk_queue_flush` is
taken to keep the flags it is given; Linux drops FUA where it comes without FLUSH. -/
def newQueue (addr : Addr) (blockSize : Nat) (capabilities : BitVec 32) : RequestQueue where
  addr := addr
  logicalBlockSize := blockSize
  flushFlags := qflags capabilities
  discard := false
  secdiscard := false

/-- The device `bdtun_create_k` puts on the list. -/
def newDevice (new queue major chNum gd : Nat) (name : DiskName) (blockSize size : Nat)
    (capabilities : BitVec 32) : Device :=
  { newBdtun blockSize size with
    addr := new
    chNum := chNum
    addDiskFinished := false
    capabilities := capabilities
    diskName := name
    major := major
    gendisk := gd
    queue := newQueue queue blockSize capabilities }

-- The labels of `bdtun_create_k`, each going on to the next.

def outKfree (l : ResourceLedger Resource) (new : Addr) : ResourceLedger Resource :=
  l.release (.deviceStructure new)

def outCleanupQueue (l : ResourceLedger Resource) (new queue : Addr) : ResourceLedger Resource :=
  outKfree (l.release (.requestQueue queue)) new

def outUnregisterBlkdev (l : ResourceLedger Resource) (new queue major : Nat) :
    ResourceLedger Resource :=
  outCleanupQueue (l.release (.blkMajor major)) new queue

def outUnregisterChrdevRegion (l : ResourceLedger Resource) (new queue major chNum : Nat) :
    ResourceLedger Resource :=
  outUnregisterBlkdev (l.release (.chrdevRegion chNum)) new queue major

def outCdevDel (l : ResourceLedger Resource) (new queue major chNum : Nat) :
    ResourceLedger Resource :=
  outUnregisterChrdevRegion (l.release (.cdev new)) new queue major chNum

/-- `bdtun_create_k` -/
def bdtunCreateK (s : Ctrl) (name : DiskName) (blockSize size : Nat) (capabilities : BitVec 32)
    (k : Answers) : Ctrl × CtrlRet :=
  if (bdtunFindDevice s.deviceList name).isSome then (s, .ret (-eexist))
  else
  match createCheck blockSize size with
  | .error e => (s, .ret e)
  | .ok () =>
  match k.kmallocDevice with
  | none => (s, .ret (-enomem))
  | some new =>
  let l := s.ledger.take (.deviceStructure new)
  match k.blkAllocQueue with
  | none => ({ s with ledger := outKfree l new }, .ret (-enomem))
  | some queue =>
  let l := l.take (.requestQueue queue)
  match k.registerBlkdev with
  | .error e => ({ s with ledger := outCleanupQueue l new queue }, .ret e.code)
  | .ok major =>
  let l := l.take (.blkMajor major)
  match k.allocChrdevRegion with
  | .error e => ({ s with ledger := outUnregisterBlkdev l new queue major }, .ret e.code)
  | .ok chNum =>
  let l := l.take (.chrdevRegion chNum)
  match k.cdevAdd with
  | .error e => ({ s with ledger := outUnregisterChrdevRegion l new queue major chNum }, .ret e.code)
  | .ok () =>
  let l := l.take (.cdev new)
  if k.deviceCreate = false then
    ({ s with ledger := outCdevDel l new queue major chNum }, .ret (-enomem))
  else
  let l := l.take (.deviceNode chNum)
  match k.allocDisk with
  -- to the same label as the failure before it: the node stays
  | none => ({ s with ledger := outCdevDel l new queue major chNum }, .ret (-enomem))
  | some gd =>
  let l := (l.take (.gendisk gd)).take (.listLink new)
  let s :=
    { s with
      deviceList :=
        s.deviceList ++ [newDevice new queue major chNum gd name blockSize size capabilities] }
  match k.kmallocWork with
  -- `INIT_WORK` writes to the work item, allocated or not
  | none => ({ s with ledger := l }, .oops)
  | some w =>
    ({ s with
      addDiskQ := s.addDiskQ ++ [⟨w, new⟩]
      ledger := (l.take (.workItem w)).take .moduleReference }, .ret 0)

/-- `bdtun_do_add_disk` for a queued work item, from the start of `add_disk` to its end. -/
def bdtunDoAddDisk (s : Ctrl) (w : Addr) : Ctrl × CtrlRet :=
  match s.addDiskQ.find? fun work => work.addr = w with
  | none => (s, .oops)
  | some work =>
    if s.deviceList.any fun d => d.addr = work.dev then
      ({ s.update work.dev fun d => { d with addDiskFinished := true } with
        addDiskQ := s.addDiskQ.filter fun work => work.addr ≠ w
        ledger := s.ledger.release (.workItem w) }, .ret 0)
    else (s, .oops)

/-! ## Resize -/

/-- `set_capacity` on the disk of a device, for a size in bytes. -/
def Device.setCapacity (d : Device) (size : Nat) : Device :=
  { d with bdGd := { d.bdGd with capacity := size / kernelSectorSize } }

/-- `bdtun_resize_k` -/
def bdtunResizeK (s : Ctrl) (name : DiskName) (size : Nat) (k : Answers) : Ctrl × CtrlRet :=
  match bdtunFindDevice s.deviceList name with
  | none => (s, .ret (-enoent))
  | some dev =>
    let s := s.update dev.addr fun d => d.setCapacity size
    match k.revalidateDisk with
    | .error e => (s, .ret e.code)
    | .ok () => (s.update dev.addr fun d => { d with bdSize := size }, .ret 0)

/-! ## Remove -/

/-- The calls that take a device down. -/
inductive TeardownStep
  | unregisterChrdevRegion | cdevDel | deviceDestroy | clearQueuedata | unregisterBlkdev
  | blkCleanupQueue | delGendisk | putDisk | modulePut | listDel | kfree
deriving DecidableEq

/-- `bdtun_remove_dev` -/
def removeDevSteps : List TeardownStep :=
  [.unregisterChrdevRegion, .cdevDel, .deviceDestroy, .clearQueuedata, .unregisterBlkdev,
    .blkCleanupQueue, .delGendisk, .putDisk, .modulePut]

/-- What `bdtun_remove_k` does after its checks. -/
def teardownSteps : List TeardownStep := removeDevSteps ++ [.listDel, .kfree]

/-- The resource that a step releases. -/
def TeardownStep.gives (dev : Device) : TeardownStep → Option Resource
  | .unregisterChrdevRegion => some (.chrdevRegion dev.chNum)
  | .cdevDel => some (.cdev dev.addr)
  | .deviceDestroy => some (.deviceNode dev.chNum)
  | .clearQueuedata => none
  | .unregisterBlkdev => some (.blkMajor dev.major)
  | .blkCleanupQueue => some (.requestQueue dev.queue.addr)
  | .delGendisk => none
  | .putDisk => some (.gendisk dev.gendisk)
  | .modulePut => some .moduleReference
  | .listDel => some (.listLink dev.addr)
  | .kfree => some (.deviceStructure dev.addr)

/-- `bdtun_remove_k` -/
def bdtunRemoveK (s : Ctrl) (name : DiskName) : Ctrl × CtrlRet :=
  match bdtunFindDevice s.deviceList name with
  | none => (s, .ret (-enoent))
  | some dev =>
    if (removeCheck dev.toBdtun).2 ≠ 0 then (s, .ret (removeCheck dev.toBdtun).2)
    else
      ({ s with
        deviceList := s.deviceList.filter fun d => d.addr ≠ dev.addr
        ledger := s.ledger.releaseAll (teardownSteps.filterMap (TeardownStep.gives dev)) }, .ret 0)

/-! ## Info -/

/-- `struct bdtun_info` -/
structure BdtunInfo where
  bdSize : Nat
  bdBlockSize : Nat
  bdMajor : Nat
  bdMinor : Nat
  chMajor : Nat
  chMinor : Nat
  capabilities : BitVec 32

/-- `MAJOR` and `MINOR` -/
def devMajor (dev : Nat) : Nat := dev >>> 20
def devMinor (dev : Nat) : Nat := dev % 2 ^ 20

/-- `bdtun_info_k` -/
def bdtunInfoK (l : List Device) (name : DiskName) : Except Int BdtunInfo :=
  match bdtunFindDevice l name with
  | none => .error (-enoent)
  | some dev => .ok
    { bdSize := dev.bdSize
      bdBlockSize := dev.bdBlockSize
      bdMajor := dev.major
      bdMinor := 0
      chMajor := devMajor dev.chNum
      chMinor := devMinor dev.chNum
      capabilities := dev.capabilities }

/-- The bytes at the end of `struct bdtun_info` that no member has. -/
def infoPadding : Nat := if bitsPerLong = 64 then 4 else 0

/-- The bytes of the structure, on a stack with these contents. -/
def BdtunInfo.bytes (info : BdtunInfo) (stack : List UInt8) : List UInt8 :=
  wordBytes 8 info.bdSize ++ wordBytes 8 info.bdBlockSize ++ wordBytes 4 info.bdMajor ++
    wordBytes 4 info.bdMinor ++ wordBytes 4 info.chMajor ++ wordBytes 4 info.chMinor ++
    wordBytes 4 info.capabilities.toNat ++ (List.range infoPadding).map fun i => stack.getD i 0

/-! ## List -/

def bdtunDevnames : Nat := 32
def bdtunResponseSize : Nat := 1024

/-- `memcpy(buf + pos, bytes, ...)` -/
def memcpy (buf : Nat → UInt8) (pos : Nat) (bytes : List UInt8) : Nat → UInt8 :=
  scatter buf (List.range' pos bytes.length) bytes

omit [Kernel] in
/-- A copy to the end of what is in a buffer. -/
theorem gather_memcpy (buf : Nat → UInt8) (pos : Nat) (bytes : List UInt8) :
    gather (memcpy buf pos bytes) (List.range (pos + bytes.length)) =
      gather buf (List.range pos) ++ bytes := by
  have hsplit : List.range (pos + bytes.length) =
      List.range pos ++ List.range' pos bytes.length := by
    rw [List.range_eq_range', List.range_eq_range', ← List.range'_append_1, Nat.zero_add]
  rw [hsplit, gather_append, memcpy, gather_scatter _ _ _ (List.nodup_range' ..) (by simp)]
  congr 1
  refine gather_scatter_of_disjoint _ _ _ _ ?_
  intro i hi hmem
  have hlt := List.mem_range.mp hi
  have hle := (List.mem_range'_1.mp hmem).1
  omega

omit [Kernel] in
theorem gather_memcpy_start (buf : Nat → UInt8) (bytes : List UInt8) :
    gather (memcpy buf 0 bytes) (List.range bytes.length) = bytes := by
  have hcopy := gather_memcpy buf 0 bytes
  rwa [Nat.zero_add] at hcopy

omit [Kernel] in
/-- One copy behind another is one copy. -/
theorem memcpy_append (buf : Nat → UInt8) (pos : Nat) (bytes more : List UInt8) :
    memcpy (memcpy buf pos bytes) (pos + bytes.length) more = memcpy buf pos (bytes ++ more) := by
  unfold memcpy
  rw [List.length_append, ← List.range'_append_1, scatter_append _ _ _ _ _ (by simp)]

omit [Kernel] in
/-- A copy leaves the bytes before and behind it alone. -/
theorem memcpy_of_notMem (buf : Nat → UInt8) (pos : Nat) (bytes : List UInt8) {i : Nat}
    (h : i < pos ∨ pos + bytes.length ≤ i) : memcpy buf pos bytes i = buf i := by
  apply scatter_of_notMem
  rw [List.mem_range'_1]
  omega

/-- The loop of `bdtun_list_k`: the buffer, and `bufpos` at its end. -/
def listLoop (bufsize maxdevicesInternal maxdevices : Nat) :
    List Device → (offset i bufpos : Nat) → (Nat → UInt8) → (Nat → UInt8) × Nat
  | [], _, _, bufpos, buf => (buf, bufpos)
  | _ :: rest, offset + 1, i, bufpos, buf =>
    listLoop bufsize maxdevicesInternal maxdevices rest offset i bufpos buf
  | entry :: rest, 0, i, bufpos, buf =>
    if i > maxdevices ∨ i > maxdevicesInternal then (buf, bufpos)
    else
      let len := entry.diskName.bytes.length + 1
      if bufpos + len > bufsize then (buf, bufpos)
      else
        listLoop bufsize maxdevicesInternal maxdevices rest 0 (i + 1) (bufpos + len)
          (memcpy buf bufpos (entry.diskName.bytes ++ [0]))

/-- `bdtun_list_k` -/
def bdtunListK (l : List Device) (buf : Nat → UInt8) (bufsize maxdevicesInternal offset
    maxdevices : Nat) : (Nat → UInt8) × Nat :=
  listLoop bufsize maxdevicesInternal maxdevices l offset 0 0 buf

/-! ## The control device -/

/-- `struct bdtun_ctrl_command`, by its `command` byte; `other` is a byte that is no command. -/
inductive CtrlCommand
  | create (name : DiskName) (blocksize size : UInt64) (capabilities : BitVec 32)
  | remove (name : DiskName)
  | list (offset maxdevices : Nat)
  | info (name : DiskName)
  | resize (name : DiskName) (size : UInt64)
  | other (command : UInt8)

/-- `sizeof(struct bdtun_ctrl_command)`, which is every `BDTUN_COMM_..._SIZE` -/
def bdtunCommSize : Nat := if bitsPerLong = 64 then 64 else 56

/-- `ctrl_open`; the decrement and the increment that undoes it are told apart in the concurrent
model. -/
def ctrlOpen (s : Ctrl) : Ctrl × CtrlRet :=
  let s := { s with ctrlLock := s.ctrlLock - 1 }
  if s.ctrlLock ≠ 0 then ({ s with ctrlLock := s.ctrlLock + 1 }, .ret (-ebusy))
  else (s, .ret 0)

/-- `ctrl_release` -/
def ctrlRelease (s : Ctrl) : Ctrl × CtrlRet := ({ s with ctrlLock := s.ctrlLock + 1 }, .ret 0)

/-- The response in the buffer. -/
def Ctrl.response (s : Ctrl) : List UInt8 :=
  gather s.ctrlResponseBuf (List.range s.ctrlResponseSize.toNat)

/-- `ctrl_read`, into memory whose first `valid` bytes can be written; nothing looks at `count`. -/
def ctrlRead (s : Ctrl) (_count valid : Nat) : Ctrl × CtrlRet :=
  let tmp := s.ctrlResponseSize
  if tmp < 0 then (s, .ret (-eio))
  else if tmp ≤ valid then ({ s with ctrlResponseSize := 0 }, .data tmp s.response)
  else (s, .data (-efault) (s.response.take valid))

/-- A command that answers nothing: an error code is passed on.  (The resize branch tests for any
code but 0; none is positive.) -/
def done (count : Nat) : Ctrl × CtrlRet → Ctrl × CtrlRet
  | (s, .ret code) => (s, if code < 0 then .ret code else .wrote count [])
  | r => r

/-- `ctrl_write` -/
def ctrlWrite (s : Ctrl) (count : Nat) (c : CtrlCommand) (k : Answers) : Ctrl × CtrlRet :=
  if count < 1 then (s, .ret (-eio))
  else
  match c with
  | .create name blocksize size capabilities =>
    if count < bdtunCommSize then (s, .ret (-eio))
    else done count (bdtunCreateK s name blocksize.toNat size.toNat capabilities k)
  | .remove name =>
    if count < bdtunCommSize then (s, .ret (-eio)) else done count (bdtunRemoveK s name)
  | .info name =>
    if count < bdtunCommSize then (s, .ret (-eio))
    else
      match bdtunInfoK s.deviceList name with
      | .error e => (s, .ret e)
      | .ok info =>
        let bytes := info.bytes k.stack
        ({ s with
          ctrlResponseBuf := memcpy s.ctrlResponseBuf 0 bytes
          ctrlResponseSize := bytes.length }, .wrote count bytes)
  | .list offset maxdevices =>
    if count < bdtunCommSize then (s, .ret (-eio))
    else
      let (buf, bufpos) := bdtunListK s.deviceList s.ctrlResponseBuf bdtunResponseSize bdtunDevnames
        offset maxdevices
      let s := { s with ctrlResponseBuf := buf, ctrlResponseSize := bufpos }
      (s, .wrote count s.response)
  | .resize name size =>
    if count < bdtunCommSize then (s, .ret (-eio))
    else done count (bdtunResizeK s name size.toNat k)
  | .other _ => (s, .ret (-eio))

end

end BDTun
