import BDTun.Handle
import BDTun.Sizes

/-!
# The whole driver

All devices at once: the control plane of `Ctrl` with the data path of each device
on its list, and what the devices share, which is the heap their list entries come
from, the pages, which anybody may write to, and the clock.  A call on a device
works on the device's own lists and on whatever its cursor points to; `list_del`
takes an entry from the list it is on, whichever device's that is.

A removal frees the device and with it the heads of its lists.  The entries that
were on them stay allocated and linked (`Driver.leftBehind`): one between two others
can still be completed, the first and the last lead to the freed head.

* `Ctrl.plane`: the control plane without the data paths; `controlNext_plane`: its
  calls do not look further.
* `control_unaffected`: what the control device and the opens and closes answer in
  a run of the driver is a run of `control`.
-/

namespace BDTun

open Memory Machine

section
variable [Kernel]

structure Driver where
  ctrl : Ctrl
  /-- the list entries that are allocated, of all devices -/
  entries : Addr → Option BioListEntry
  /-- what is left of the lists of devices that were removed -/
  leftBehind : List (List Addr)
  mem : Mem
  jiffies : Nat
  /-- the calls of `bio_endio`, oldest first -/
  ended : List (Bio × Int)
  /-- the bios whose header was handed out, oldest first -/
  delivered : List Bio

/-- The module when it is loaded. -/
def Driver.init (mem : Mem) : Driver where
  ctrl := .init
  entries := fun _ => none
  leftBehind := []
  mem := mem
  jiffies := 0
  ended := []
  delivered := []

/-- What a call on a device works on. -/
def Driver.world (s : Driver) (dev : Device) : World where
  dev := dev.toBdtun
  entries := s.entries
  mem := s.mem
  jiffies := s.jiffies
  ended := s.ended
  delivered := s.delivered

/-- The entries on the lists of a device. -/
def Device.bioList (d : Device) : List Addr := d.incomingBioList ++ d.pendingBioList

/-- The entries on the lists of all devices. -/
def Driver.linked (s : Driver) : List Addr := s.ctrl.deviceList.flatMap Device.bioList

/-- `list_del` of an entry writes to its two neighbours: those of an entry on a list, or between two
others that were left behind, are there. -/
def Driver.unlinkable (s : Driver) (a : Addr) : Prop :=
  a ∈ s.linked ∨ ∃ l ∈ s.leftBehind, a ∈ l.tail.dropLast

instance (s : Driver) (a : Addr) : Decidable (s.unlinkable a) :=
  inferInstanceAs (Decidable (_ ∨ _))

/-- `list_del` of an entry, on the lists of one device. -/
def Device.unlink (a : Addr) (d : Device) : Device :=
  d.withBdtun
    { d.toBdtun with
      incomingBioList := d.incomingBioList.filter fun b => b ≠ a
      pendingBioList := d.pendingBioList.filter fun b => b ≠ a }

/-- The entry that a call takes from its list and frees, if it is a completion. -/
def Call.frees (cursor : Addr) : Call → Option Addr
  | .write _ [_] _ => some cursor
  | _ => none

/-- After a call on `dev` that has come to `w`. -/
def Driver.put (s : Driver) (dev : Device) (w : World) (freed : Option Addr) : Driver where
  ctrl :=
    { s.ctrl with
      deviceList := s.ctrl.deviceList.map fun d =>
        if d.addr = dev.addr then d.withBdtun w.dev else freed.elim d fun a => d.unlink a }
  entries := w.entries
  leftBehind := freed.elim s.leftBehind fun a => s.leftBehind.map fun l => l.filter fun b => b ≠ a
  mem := w.mem
  jiffies := w.jiffies
  ended := w.ended
  delivered := w.delivered

/-- The lists that a call leaves behind, if it is a removal that goes on. -/
def Driver.abandons (s : Driver) : CtrlCall → List (List Addr)
  | .ctrlWrite count (.remove name) k =>
    match (ctrlWrite s.ctrl count (.remove name) k).2, bdtunFindDevice s.ctrl.deviceList name with
    | .wrote _ _, some dev => [dev.incomingBioList, dev.pendingBioList]
    | _, _ => []
  | _ => []

/-! ## Calls -/

inductive DriverCall
  /-- a call on the control device, an open or a close of a node, or a queued work item -/
  | control (c : CtrlCall)
  /-- a call on an open tunnel file of a device, or a submission to its block device -/
  | tunnel (name : DiskName) (c : Call)
  /-- somebody writes to pages -/
  | pages (ps : List Place) (bytes : List UInt8)
  /-- `jiffies` advances -/
  | tick

inductive DriverRet
  | control (r : CtrlRet)
  | tunnel (r : Ret)
deriving DecidableEq

/-- Not an open or a close, and not the clock. -/
def Call.onFile : Call → Bool
  | .chOpen _ => false
  | .chRelease _ => false
  | .tick => false
  | _ => true

def driverNext (s : Driver) : DriverCall → Driver × DriverRet
  | .control c =>
    ({ s with
        ctrl := (controlNext s.ctrl c).1
        leftBehind := s.leftBehind ++ s.abandons c },
      .control (controlNext s.ctrl c).2)
  | .tunnel name c =>
    match bdtunFindDevice s.ctrl.deviceList name with
    | none => (s, .tunnel .oops)
    | some dev =>
      -- a neighbour of the entry is the head of a list whose device was freed
      if (c.frees dev.dataCurrentBio).any fun a => ¬ s.unlinkable a then (s, .tunnel .oops)
      else
        (s.put dev (tunnelNext (s.world dev) c).1 (c.frees dev.dataCurrentBio),
          .tunnel (tunnelNext (s.world dev) c).2)
  | .pages ps bytes => ({ s with mem := scatter s.mem ps bytes }, .tunnel (.ret 0 .nothing))
  | .tick => ({ s with jiffies := (s.jiffies + 1) % 2 ^ bitsPerLong }, .tunnel (.ret 0 .nothing))

def DriverOk (s : Driver) : DriverCall → Prop
  | .control c => control.enabled s.ctrl c
  | .tunnel name c =>
    c.onFile = true ∧
      (∀ dev ∈ bdtunFindDevice s.ctrl.deviceList name, KmallocOk (s.world dev) c) ∧
      (driverNext s (.tunnel name c)).2 ≠ .tunnel .oops
  | .pages _ _ => True
  | .tick => True

instance (s : Driver) (c : DriverCall) : Decidable (DriverOk s c) := by
  cases c <;> unfold DriverOk <;> infer_instance

/-- Runs end where the driver dereferences what is not there. -/
def wholeDriver : Machine Driver DriverCall DriverRet where
  enabled := DriverOk
  next := driverNext

instance (s : Driver) (c : DriverCall) : Decidable (wholeDriver.enabled s c) :=
  inferInstanceAs (Decidable (DriverOk s c))

/-! ## What the outside has seen -/

/-- The calls of the control plane, with their answers. -/
def controlPart (tr : List (DriverCall × DriverRet)) : List (CtrlCall × CtrlRet) :=
  tr.filterMap fun
    | (.control c, .control r) => some (c, r)
    | _ => none

/-- The bios that were submitted, each with the name of its device. -/
def submittedBios (tr : List (DriverCall × DriverRet)) : List (DiskName × Bio) :=
  tr.filterMap fun
    | (.tunnel name (.submit bio _), _) => some (name, bio)
    | _ => none

/-- A bio is submitted once, to a block device that is open; calls go to open files. -/
def mayCall (handles : List (DiskName × Handle)) (submitted : List Bio) (name : DiskName) :
    Call → Prop
  | .submit bio _ =>
    (∃ k ∈ handles, k.1 = name ∧ k.2.1 = .block) ∧ bio ∉ submitted
  | .read f _ _ _ => (name, (Node.tunnel, f)) ∈ handles
  | .write f _ _ => (name, (Node.tunnel, f)) ∈ handles
  | .mmap f _ _ => (name, (Node.tunnel, f)) ∈ handles
  | _ => True

instance (handles : List (DiskName × Handle)) (submitted : List Bio) (name : DiskName) (c : Call) :
    Decidable (mayCall handles submitted name c) :=
  match c with
  | .submit _ _ => inferInstanceAs (Decidable ((∃ _ ∈ _, _ ∧ _) ∧ _ ∉ _))
  | .read _ _ _ _ | .write _ _ _ | .mmap _ _ _ => inferInstanceAs (Decidable (_ ∈ _))
  | .chOpen _ | .chRelease _ | .tick => inferInstanceAs (Decidable True)

/-- What the users of the driver obey. -/
def driverUsers : Policy DriverCall DriverRet := fun tr c =>
  match c with
  | .control c => ctrlUsers (controlPart tr) c
  | .tunnel name c =>
    mayCall (ctrlHist (controlPart tr)).handles ((submittedBios tr).map Prod.snd) name c
  | .pages _ _ => True
  | .tick => True

instance (tr : List (DriverCall × DriverRet)) (c : DriverCall) : Decidable (driverUsers tr c) := by
  cases c <;> unfold driverUsers <;> infer_instance

theorem controlPart_control (tr : List (DriverCall × DriverRet)) (c : CtrlCall) (r : CtrlRet) :
    controlPart (tr ++ [(.control c, .control r)]) = controlPart tr ++ [(c, r)] := by
  simp [controlPart]

theorem controlPart_other (tr : List (DriverCall × DriverRet)) {c : DriverCall} {r : DriverRet}
    (h : ∀ c', c ≠ .control c') : controlPart (tr ++ [(c, r)]) = controlPart tr := by
  cases c with
  | control c => exact absurd rfl (h c)
  | _ => simp [controlPart]

theorem submittedBios_append (tr : List (DriverCall × DriverRet)) (e : DriverCall × DriverRet) :
    submittedBios (tr ++ [e]) = submittedBios tr ++ submittedBios [e] := List.filterMap_append

/-! ## The control plane without the data paths -/

/-- The use count, the flag of a removal and the sizes. -/
def Bdtun.plane (b : Bdtun) : Bdtun :=
  { b with
    incomingBioList := []
    pendingBioList := []
    dataCurrentBio := 0
    bdGd := { b.bdGd with part0 := .zero } }

def Device.plane (d : Device) : Device := d.withBdtun d.toBdtun.plane

def Ctrl.plane (s : Ctrl) : Ctrl := { s with deviceList := s.deviceList.map Device.plane }

variable {s : Driver}

omit [Kernel] in
theorem find_plane (l : List Device) (name : DiskName) :
    bdtunFindDevice (l.map Device.plane) name = (bdtunFindDevice l name).map Device.plane := by
  unfold bdtunFindDevice
  rw [List.find?_map]
  rfl

omit [Kernel] in
/-- Changes that commute with `plane` do so on the list. -/
theorem plane_update (s : Ctrl) (a : Addr) {f g : Device → Device}
    (h : ∀ d, (f d).plane = g d.plane) : (s.update a f).plane = s.plane.update a g := by
  unfold Ctrl.plane Ctrl.update
  simp only [List.map_map]
  congr 1
  refine List.map_congr_left fun d _ => ?_
  by_cases hd : d.addr = a
  · have hp : d.plane.addr = a := hd
    simp only [Function.comp, if_pos hd, if_pos hp, h]
  · have hp : ¬ d.plane.addr = a := hd
    simp only [Function.comp, if_neg hd, if_neg hp]

omit [Kernel] in
theorem nodeNext_plane (b : Bdtun) (c : NodeCall) :
    nodeNext b.plane c = ((nodeNext b c).1.plane, (nodeNext b c).2) := by
  have hremoving : b.plane.removing = b.removing := rfl
  have hucnt : b.plane.ucnt = b.ucnt := rfl
  cases c with
  | opens h =>
    obtain ⟨node, n⟩ := h
    cases node with
    | block =>
      simp only [nodeNext, bdtunOpen, hremoving]
      split <;> rfl
    | tunnel =>
      simp only [nodeNext, bdtunchOpen, hremoving]
      split <;> rfl
  | releases h =>
    obtain ⟨node, n⟩ := h
    cases node with
    | block => rfl
    | tunnel => rfl
  | remove =>
    simp only [nodeNext, removeCheck, hremoving, hucnt]
    split
    · rfl
    · split <;> rfl

omit [Kernel] in
theorem nodeCall_plane (s : Ctrl) (name : DiskName) (c : NodeCall) :
    nodeCall s.plane name c = ((nodeCall s name c).1.plane, (nodeCall s name c).2) := by
  have hlist : s.plane.deviceList = s.deviceList.map Device.plane := rfl
  simp only [nodeCall, hlist, find_plane]
  cases bdtunFindDevice s.deviceList name with
  | none => rfl
  | some dev =>
    have hnext : nodeNext dev.plane.toBdtun c =
        ((nodeNext dev.toBdtun c).1.plane, (nodeNext dev.toBdtun c).2) := nodeNext_plane _ c
    simp only [Option.map_some, hnext]
    rw [plane_update (g := fun d => d.withBdtun (nodeNext dev.toBdtun c).1.plane) s dev.addr
      fun _ => rfl]
    rfl

theorem create_plane (s : Ctrl) (name : DiskName) (blockSize size : Nat)
    (capabilities : BitVec 32) (k : Answers) :
    bdtunCreateK s.plane name blockSize size capabilities k =
      ((bdtunCreateK s name blockSize size capabilities k).1.plane,
        (bdtunCreateK s name blockSize size capabilities k).2) := by
  have hlist : s.plane.deviceList = s.deviceList.map Device.plane := rfl
  have hledger : s.plane.ledger = s.ledger := rfl
  have happend : ∀ d : Device, d.plane = d →
      (s.deviceList ++ [d]).map Device.plane = s.deviceList.map Device.plane ++ [d] := by
    intro d hd
    rw [List.map_append, List.map_singleton, hd]
  unfold bdtunCreateK
  simp only [hlist, hledger, find_plane, Option.isSome_map]
  split
  · rfl
  · cases createCheck blockSize size with
    | error e => rfl
    | ok u =>
      cases k.kmallocDevice with
      | none => rfl
      | some new =>
        cases k.blkAllocQueue with
        | none => rfl
        | some queue =>
          cases k.registerBlkdev with
          | error e => rfl
          | ok major =>
            cases k.allocChrdevRegion with
            | error e => rfl
            | ok chNum =>
              cases k.cdevAdd with
              | error e => rfl
              | ok u =>
                cases k.deviceCreate with
                | false => simp only [if_true, Ctrl.plane]
                | true =>
                  simp only [Bool.true_eq_false, if_false]
                  cases k.allocDisk with
                  | none => simp only [Ctrl.plane]
                  | some gd =>
                    have hnew := happend
                      (newDevice new queue major chNum gd name blockSize size capabilities) rfl
                    cases k.kmallocWork with
                    | none => simp [Ctrl.plane, hnew]
                    | some w => simp [Ctrl.plane, hnew]

omit [Kernel] in
theorem resize_plane (s : Ctrl) (name : DiskName) (size : Nat) (k : Answers) :
    bdtunResizeK s.plane name size k =
      ((bdtunResizeK s name size k).1.plane, (bdtunResizeK s name size k).2) := by
  have hlist : s.plane.deviceList = s.deviceList.map Device.plane := rfl
  simp only [bdtunResizeK, hlist, find_plane]
  cases bdtunFindDevice s.deviceList name with
  | none => rfl
  | some dev =>
    have haddr : dev.plane.addr = dev.addr := rfl
    have hcapacity := plane_update (g := fun d => d.setCapacity size) s dev.addr
      (f := fun d => d.setCapacity size) fun _ => rfl
    simp only [Option.map_some, haddr, ← hcapacity]
    cases k.revalidateDisk with
    | error e => rfl
    | ok u =>
      simp only
      rw [plane_update (f := fun d => { d with bdSize := size })
        (g := fun d => { d with bdSize := size }) _ dev.addr fun _ => rfl]

omit [Kernel] in
theorem remove_plane (s : Ctrl) (name : DiskName) :
    bdtunRemoveK s.plane name = ((bdtunRemoveK s name).1.plane, (bdtunRemoveK s name).2) := by
  have hlist : s.plane.deviceList = s.deviceList.map Device.plane := rfl
  simp only [bdtunRemoveK, hlist, find_plane]
  cases bdtunFindDevice s.deviceList name with
  | none => rfl
  | some dev =>
    have hcheck : removeCheck dev.plane.toBdtun =
        ((removeCheck dev.toBdtun).1.plane, (removeCheck dev.toBdtun).2) :=
      nodeNext_plane dev.toBdtun .remove
    have hgives : TeardownStep.gives dev.plane = TeardownStep.gives dev := by
      funext x
      cases x <;> rfl
    simp only [Option.map_some, hcheck, hgives]
    split
    · rfl
    · simp only [Ctrl.plane, List.filter_map]
      rfl

omit [Kernel] in
theorem listLoop_plane (bufsize internal maxdevices : Nat) (l : List Device)
    (offset i bufpos : Nat) (buf : Nat → UInt8) :
    listLoop bufsize internal maxdevices (l.map Device.plane) offset i bufpos buf =
      listLoop bufsize internal maxdevices l offset i bufpos buf := by
  induction l generalizing offset i bufpos buf with
  | nil => cases offset <;> rfl
  | cons d l ih =>
    have hname : d.plane.diskName = d.diskName := rfl
    cases offset with
    | succ offset => simp only [List.map_cons, listLoop, ih]
    | zero => simp only [List.map_cons, listLoop, hname, ih]

omit [Kernel] in
theorem done_plane (count : Nat) (s : Ctrl) (r : CtrlRet) :
    done count (s.plane, r) = ((done count (s, r)).1.plane, (done count (s, r)).2) := by
  cases r <;> rfl

theorem ctrlWrite_plane (s : Ctrl) (count : Nat) (c : CtrlCommand) (k : Answers) :
    ctrlWrite s.plane count c k =
      ((ctrlWrite s count c k).1.plane, (ctrlWrite s count c k).2) := by
  by_cases hsize : count < bdtunCommSize
  · rw [ctrlWrite_short _ c k hsize, ctrlWrite_short _ c k hsize]
  · have hlist : s.plane.deviceList = s.deviceList.map Device.plane := rfl
    rw [ctrlWrite_long _ c k (by omega), ctrlWrite_long _ c k (by omega)]
    cases c with
    | create name blocksize size capabilities => simp only [create_plane, done_plane]
    | remove name => simp only [remove_plane, done_plane]
    | resize name size => simp only [resize_plane, done_plane]
    | other command => rfl
    | info name =>
      have hinfo : bdtunInfoK s.plane.deviceList name = bdtunInfoK s.deviceList name := by
        simp only [bdtunInfoK, hlist, find_plane]
        cases bdtunFindDevice s.deviceList name <;> rfl
      simp only [hinfo]
      cases bdtunInfoK s.deviceList name <;> rfl
    | list offset maxdevices =>
      have hloop : bdtunListK s.plane.deviceList s.plane.ctrlResponseBuf bdtunResponseSize
          bdtunDevnames offset maxdevices =
          bdtunListK s.deviceList s.ctrlResponseBuf bdtunResponseSize bdtunDevnames offset
            maxdevices := listLoop_plane ..
      simp only [hloop]
      rfl

omit [Kernel] in
theorem addDisk_plane (s : Ctrl) (w : Addr) :
    bdtunDoAddDisk s.plane w = ((bdtunDoAddDisk s w).1.plane, (bdtunDoAddDisk s w).2) := by
  have hqueue : s.plane.addDiskQ = s.addDiskQ := rfl
  simp only [bdtunDoAddDisk, hqueue]
  cases s.addDiskQ.find? fun work => work.addr = w with
  | none => rfl
  | some work =>
    have hany : s.plane.deviceList.any (fun d => d.addr = work.dev) =
        s.deviceList.any fun d => d.addr = work.dev := by
      rw [show s.plane.deviceList = s.deviceList.map Device.plane from rfl, List.any_map]
      rfl
    simp only [hany]
    split
    · rw [← plane_update s work.dev (f := fun d => { d with addDiskFinished := true })
        (fun _ => rfl)]
      rfl
    · rfl

/-- **No call of the control plane looks at a data path**, or changes more than the lists of one. -/
theorem controlNext_plane (s : Ctrl) (c : CtrlCall) :
    controlNext s.plane c = ((controlNext s c).1.plane, (controlNext s c).2) := by
  cases c with
  | ctrlOpen =>
    simp only [controlNext, ctrlOpen_eq]
    have hlock : s.plane.ctrlLock = s.ctrlLock := rfl
    rw [hlock]
    split <;> rfl
  | ctrlRelease => rfl
  | ctrlWrite count c k => exact ctrlWrite_plane s count c k
  | ctrlRead count valid =>
    simp only [controlNext, ctrlRead, show s.plane.ctrlResponseSize = s.ctrlResponseSize from rfl]
    split
    · rfl
    · split <;> rfl
  | opens name h => exact nodeCall_plane s name (.opens h)
  | releases name h => exact nodeCall_plane s name (.releases h)
  | addDisk w => exact addDisk_plane s w

omit [Kernel] in
theorem answersOk_plane (s : Ctrl) (c : CtrlCall) : AnswersOk s.plane c ↔ AnswersOk s c := by
  cases c with
  | ctrlWrite count c k =>
    cases c with
    | create name blocksize size capabilities =>
      simp only [AnswersOk, Ctrl.plane, List.forall_mem_map]
      rfl
    | _ => rfl
  | _ => rfl

/-! ## Calls on a device leave the control plane alone -/

/-- A call that is neither an open nor a close touches the data path only. -/
theorem tunnelNext_plane (w : World) {c : Call} (hc : c.onFile = true)
    (hr : (tunnelNext w c).2 ≠ .oops) : (tunnelNext w c).1.dev.plane = w.dev.plane := by
  have heff := effect_of_next w c hr
  generalize tunnelNext w c = res at heff
  cases heff with
  | opened f h => cases hc
  | closed f => cases hc
  | _ => rfl

/-- Calls go to devices that are listed. -/
theorem Listed.called {h : CtrlHist} {s : Ctrl} (hl : Listed h s) {submitted : List Bio}
    {name : DiskName} {c : Call} (hfile : c.onFile = true) (hp : mayCall h.handles submitted name c) :
    ∃ dev, dev ∈ s.deviceList ∧ dev.diskName = name := by
  cases c with
  | chOpen f => cases hfile
  | chRelease f => cases hfile
  | tick => cases hfile
  | submit bio new =>
    obtain ⟨⟨k, hk, rfl, -⟩, -⟩ := hp
    exact hl.homes k hk
  | read f count valid signal => exact hl.homes _ hp
  | write f buf valid => exact hl.homes _ hp
  | mmap f vma fail => exact hl.homes _ hp

/-- A call on a listed device, whose entry to free, if any, is on a list. -/
theorem tunnel_next {name : DiskName} {c : Call} {dev : Device}
    (hfound : bdtunFindDevice s.ctrl.deviceList name = some dev)
    (hlinked : ∀ a ∈ c.frees dev.dataCurrentBio, a ∈ s.linked) :
    wholeDriver.next s (.tunnel name c) =
      (s.put dev (tunnelNext (s.world dev) c).1 (c.frees dev.dataCurrentBio),
        .tunnel (tunnelNext (s.world dev) c).2) := by
  have hon : (c.frees dev.dataCurrentBio).any (fun a => ¬ s.unlinkable a) = false := by
    cases hf : c.frees dev.dataCurrentBio with
    | none => rfl
    | some a =>
      have hat : s.unlinkable a := Or.inl (hlinked a hf)
      simpa using hat
  simp only [wholeDriver, driverNext, hfound, hon, Bool.false_eq_true, if_false]

/-- What a call on a device does, where it does not go wrong. -/
structure Calls (s : Driver) (name : DiskName) (c : Call) (dev : Device) : Prop where
  found : bdtunFindDevice s.ctrl.deviceList name = some dev
  onFile : c.onFile = true
  fresh : KmallocOk (s.world dev) c
  unlinkable : ∀ a ∈ c.frees dev.dataCurrentBio, s.unlinkable a
  ok : (tunnelNext (s.world dev) c).2 ≠ .oops
  next : wholeDriver.next s (.tunnel name c) =
    (s.put dev (tunnelNext (s.world dev) c).1 (c.frees dev.dataCurrentBio),
      .tunnel (tunnelNext (s.world dev) c).2)

theorem tunnel_calls {name : DiskName} {c : Call} (h : wholeDriver.enabled s (.tunnel name c)) :
    ∃ dev, Calls s name c dev := by
  obtain ⟨hfile, hfresh, hok⟩ := h
  cases hf : bdtunFindDevice s.ctrl.deviceList name with
  | none => simp [driverNext, hf] at hok
  | some dev =>
    have hnext : wholeDriver.next s (.tunnel name c) =
        if (c.frees dev.dataCurrentBio).any fun a => ¬ s.unlinkable a then (s, .tunnel .oops)
        else (s.put dev (tunnelNext (s.world dev) c).1 (c.frees dev.dataCurrentBio),
          .tunnel (tunnelNext (s.world dev) c).2) := by
      simp only [wholeDriver, driverNext, hf]
    have hgood : (wholeDriver.next s (.tunnel name c)).2 ≠ .tunnel .oops := hok
    by_cases hgone : (c.frees dev.dataCurrentBio).any (fun a => ¬ s.unlinkable a) = true
    · rw [hnext, if_pos hgone] at hgood
      exact absurd rfl hgood
    · rw [if_neg hgone] at hnext
      rw [hnext] at hgood
      refine ⟨dev, hf, hfile, hfresh _ hf, fun a ha => ?_, by simpa using hgood, hnext⟩
      by_contra hnot
      exact hgone (by rw [Option.mem_def.mp ha]; simpa using hnot)

omit [Kernel] in
/-- The list is what it is without the data paths. -/
theorem Listed.of_plane {h : CtrlHist} {s : Ctrl} (hl : Listed h s.plane) : Listed h s := by
  have hmap : ∀ {β : Type} (f : Device → β), (∀ d : Device, f d.plane = f d) →
      s.plane.deviceList.map f = s.deviceList.map f := by
    intro β f hf
    rw [show s.plane.deviceList = s.deviceList.map Device.plane from rfl, List.map_map]
    exact List.map_congr_left fun d _ => hf d
  have hmem : ∀ d ∈ s.deviceList, d.plane ∈ s.plane.deviceList := fun d hd =>
    List.mem_map_of_mem hd
  refine ⟨?_, ?_, fun d hd => hl.idle d.plane (hmem d hd),
    fun d hd => hl.count d.plane (hmem d hd), ?_, hl.lock⟩
  · have hnames := hl.names
    rwa [hmap Device.diskName fun _ => rfl] at hnames
  · have haddrs := hl.addrs
    rwa [hmap Device.addr fun _ => rfl] at haddrs
  · intro k hk
    obtain ⟨d, hd, hn⟩ := hl.homes k hk
    obtain ⟨e, he, rfl⟩ := List.mem_map.mp hd
    exact ⟨e, he, hn⟩

theorem put_plane {h : CtrlHist} (hl : Listed h s.ctrl) {dev : Device}
    (hd : dev ∈ s.ctrl.deviceList) {w : World} (hw : w.dev.plane = dev.toBdtun.plane)
    (freed : Option Addr) : (s.put dev w freed).ctrl.plane = s.ctrl.plane := by
  unfold Ctrl.plane Driver.put
  simp only [List.map_map]
  congr 1
  refine List.map_congr_left fun d hmem => ?_
  by_cases haddr : d.addr = dev.addr
  · obtain rfl := hl.eq_of_addr hmem hd haddr
    simp only [Function.comp, if_true, Device.plane]
    show d.withBdtun w.dev.plane = _
    rw [hw]
  · simp only [Function.comp, if_neg haddr]
    cases freed <;> rfl

/-- **The control plane does not see the I/O.**  In every run of the driver with any number of devices
and any clients, the calls on the control device, the opens and closes of all nodes and the work
items are, with the same answers, a run of `control`; the states agree in all but the data paths. -/
theorem control_unaffected {mem : Mem} {tr : List (DriverCall × DriverRet)}
    (hrun : Run wholeDriver driverUsers (.init mem) tr s) :
    Run control ctrlUsers .init (controlPart tr) s.ctrl.plane := by
  refine hrun.invariant (fun tr s => Run control ctrlUsers .init (controlPart tr) s.ctrl.plane)
    .refl ?_
  intro tr s c hs hp he
  cases c with
  | control c =>
    obtain ⟨hok, hr⟩ := he
    have hnext := controlNext_plane s.ctrl c
    have hr' : (controlNext s.ctrl.plane c).2 ≠ .oops := by rwa [hnext]
    have hstep := hs.step c hp ⟨(answersOk_plane _ c).mpr hok, hr'⟩
    have hcontrol : control.next s.ctrl.plane c =
        ((controlNext s.ctrl c).1.plane, (controlNext s.ctrl c).2) := hnext
    rw [hcontrol] at hstep
    have hpart := controlPart_control tr c (controlNext s.ctrl c).2
    show Run control ctrlUsers .init (controlPart (tr ++ [(.control c, .control _)]))
      (controlNext s.ctrl c).1.plane
    rw [hpart]
    exact hstep
  | tunnel name c =>
    obtain ⟨dev, hc⟩ := tunnel_calls he
    have hl := (run_listed (fun _ _ h => h) hs).of_plane
    rw [controlPart_other tr (by simp), hc.next]
    show Run control ctrlUsers .init (controlPart tr) (s.put dev _ _).ctrl.plane
    rw [put_plane hl (find_some hc.found).1 (tunnelNext_plane _ hc.onFile hc.ok)]
    exact hs
  | pages ps bytes =>
    rw [controlPart_other tr (by simp)]
    exact hs
  | tick =>
    rw [controlPart_other tr (by simp)]
    exact hs

end

/-! ## Two devices -/

section
attribute [local instance] linux32

def otherName : DiskName := ⟨[98], by decide, by decide⟩

def otherAnswers : Answers :=
  { sampleAnswers with
    kmallocDevice := some 20480
    blkAllocQueue := some 24576
    kmallocWork := some 28672 }

/-- A tunnel is open on the first device and the block device of the second. -/
def samplePair : List DriverCall :=
  [.control .ctrlOpen, .control (.ctrlWrite 64 (.create sampleName 512 1024 0) sampleAnswers),
    .control (.ctrlWrite 64 (.create otherName 512 1024 0) otherAnswers),
    .control (.opens sampleName (.tunnel, 0)), .control (.opens otherName (.block, 0))]

/-- A client of the first completes the bio of the second. -/
def sampleCrossing : List DriverCall :=
  samplePair ++ [.tunnel otherName (.submit sampleWrite (some 16)),
    .tunnel sampleName (.write 0 (wordBytes 8 16) 8), .tunnel sampleName (.write 0 [0] 1)]

theorem crossing_run : Run wholeDriver driverUsers (.init fun _ => 0)
    (traceOf wholeDriver (.init fun _ => 0) sampleCrossing)
    (exec wholeDriver (.init fun _ => 0) sampleCrossing) :=
  @path_exec _ _ _ wholeDriver driverUsers [] (.init fun _ => 0) sampleCrossing (by decide +kernel)

theorem control_unaffected_sample :
    Run control ctrlUsers .init (controlPart (traceOf wholeDriver (.init fun _ => 0) sampleCrossing))
      (exec wholeDriver (.init fun _ => 0) sampleCrossing).ctrl.plane :=
  control_unaffected crossing_run

end

end BDTun
