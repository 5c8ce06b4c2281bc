import BDTun.Resources

/-!
# Loading and unloading the module

`kmod` is the module from one load to the next: `bdtun_init`, the calls of
`control` while it is loaded, and unloads.  The kernel counts the references to
the module: one for each device, taken by its create, and one for each open file
of its nodes.  It lets an unload through to `bdtun_exit` when there are none.

* `init_cases`: a load takes all it needs, or gives back what it took.
* `Leaky`: what is held while the module is loaded, and what creates cut short
  have left behind (`control_leaky`).
* `unload_when_idle`: an unload goes through when no device, session or handle is
  left; it faults on the work items of removed devices.
* `module_resources`: what the kernel holds for the module, over any number of loads.
* `unload_never_faults`: the work items have their devices all along exactly when
  removals wait for them.
-/

namespace BDTun

open Machine

/-! ## Init -/

/-- What `bdtun_init` takes. -/
inductive ModuleResource
  | addDiskQ
  | chclass
  | chrdevRegion (ctrlDevnum : Nat)
  | ctrlDev
  | ctrlDevice (ctrlDevnum : Nat)
deriving DecidableEq

/-- What the kernel answers to the calls of `bdtun_init`. -/
structure InitAnswers where
  allocWorkqueue : Bool
  /-- not `IS_ERR` -/
  classCreate : Bool
  /-- the error, and the number it gave otherwise -/
  allocChrdevRegion : Int × Nat
  cdevAdd : Int
  /-- not `IS_ERR` -/
  deviceCreate : Bool

-- The labels of `bdtun_init`, each going on to the next.  The last returns `-ENOMEM`, whatever
-- `error` is.

def initOutErr (l : ResourceLedger ModuleResource) : ResourceLedger ModuleResource × Int :=
  (l, -enomem)

def initOutAdq (l : ResourceLedger ModuleResource) : ResourceLedger ModuleResource × Int :=
  initOutErr (l.release .addDiskQ)

def initOutDestroyClass (l : ResourceLedger ModuleResource) : ResourceLedger ModuleResource × Int :=
  initOutAdq (l.release .chclass)

def initOutUnregisterChrdevRegion (l : ResourceLedger ModuleResource) (ctrlDevnum : Nat) :
    ResourceLedger ModuleResource × Int :=
  initOutDestroyClass (l.release (.chrdevRegion ctrlDevnum))

def initOutCdevDel (l : ResourceLedger ModuleResource) (ctrlDevnum : Nat) :
    ResourceLedger ModuleResource × Int :=
  initOutUnregisterChrdevRegion (l.release .ctrlDev) ctrlDevnum

/-- `bdtun_init` -/
def bdtunInit (l : ResourceLedger ModuleResource) (k : InitAnswers) :
    ResourceLedger ModuleResource × Int :=
  if k.allocWorkqueue = false then initOutErr l
  else
  let l := l.take .addDiskQ
  if k.classCreate = false then initOutAdq l
  else
  let l := l.take .chclass
  if k.allocChrdevRegion.1 ≠ 0 then initOutDestroyClass l
  else
  let ctrlDevnum := k.allocChrdevRegion.2
  let l := l.take (.chrdevRegion ctrlDevnum)
  if k.cdevAdd ≠ 0 then initOutUnregisterChrdevRegion l ctrlDevnum
  else
  let l := l.take .ctrlDev
  if k.deviceCreate = false then initOutCdevDel l ctrlDevnum
  else (l.take (.ctrlDevice ctrlDevnum), 0)

/-- The resources of a loaded module, in the order `bdtun_exit` releases them. -/
def moduleResources (ctrlDevnum : Nat) : List ModuleResource :=
  [.addDiskQ, .ctrlDevice ctrlDevnum, .ctrlDev, .chrdevRegion ctrlDevnum, .chclass]

/-- All that `bdtun_init` can come to. -/
inductive Initialized (l : ResourceLedger ModuleResource) (k : InitAnswers) :
    ResourceLedger ModuleResource × Int → Prop
  | failed : Initialized l k (l, -enomem)
  | done (l' : ResourceLedger ModuleResource)
      (hheld : l'.held = ↑(moduleResources k.allocChrdevRegion.2) + l.held)
      (hmis : l'.misfreed = l.misfreed) : Initialized l k (l', 0)

theorem init_cases (l : ResourceLedger ModuleResource) (k : InitAnswers) :
    Initialized l k (bdtunInit l k) := by
  unfold bdtunInit
  by_cases hq : k.allocWorkqueue = false
  · rw [if_pos hq]
    exact .failed
  · rw [if_neg hq]
    by_cases hclass : k.classCreate = false
    · simp only [if_pos hclass, initOutAdq, initOutErr, ResourceLedger.release_take]
      exact .failed
    · rw [if_neg hclass]
      by_cases hregion : k.allocChrdevRegion.1 ≠ 0
      · simp only [if_pos hregion, initOutDestroyClass, initOutAdq, initOutErr,
          ResourceLedger.release_take]
        exact .failed
      · rw [if_neg hregion]
        by_cases hadd : k.cdevAdd ≠ 0
        · simp only [if_pos hadd, initOutUnregisterChrdevRegion, initOutDestroyClass, initOutAdq,
            initOutErr, ResourceLedger.release_take]
          exact .failed
        · rw [if_neg hadd]
          by_cases hnode : k.deviceCreate = false
          · simp only [if_pos hnode, initOutCdevDel, initOutUnregisterChrdevRegion,
              initOutDestroyClass, initOutAdq, initOutErr, ResourceLedger.release_take]
            exact .failed
          · rw [if_neg hnode]
            refine .done _ ?_ rfl
            simp only [moduleResources, ResourceLedger.held_take, ← Multiset.cons_coe,
              ← Multiset.singleton_add, Multiset.coe_nil]
            abel

/-! ## Exit -/

/-- `bdtun_remove_dev`, as far as the ledger goes. -/
def bdtunRemoveDev (s : Ctrl) (dev : Device) : Ctrl :=
  { s with ledger := s.ledger.releaseAll (removeDevSteps.filterMap (TeardownStep.gives dev)) }

/-- `flush_workqueue`: the queued items run.  `add_disk` needs the disk of a device that is there. -/
def flushWorkqueue : List AddDiskWork → Ctrl → Ctrl × CtrlRet
  | [], s => (s, .ret 0)
  | work :: rest, s =>
    if s.deviceList.any fun d => d.addr = work.dev ∧ Resource.gendisk d.gendisk ∈ s.ledger.held then
      flushWorkqueue rest (bdtunDoAddDisk s work.addr).1
    else (s, .oops)

structure Kmod where
  loaded : Bool
  ctrlDevnum : Nat
  ledger : ResourceLedger ModuleResource
  ctrl : Ctrl
  /-- the open files of the module's nodes, as the kernel counts them -/
  files : Nat
  /-- what is still held for the devices of earlier loads -/
  left : Multiset Resource

/-- Before the first load. -/
def Kmod.unloaded : Kmod where
  loaded := false
  ctrlDevnum := 0
  ledger := .empty
  ctrl := .init
  files := 0
  left := 0

inductive ModuleCall
  | load (k : InitAnswers)
  | call (c : CtrlCall)
  | unload

inductive ModuleRet
  | ret (code : Int)
  | of (r : CtrlRet)
  /-- the module is in use -/
  | refused
  | oops
deriving DecidableEq

/-- `bdtun_exit`, and the kernel giving up the data of the module. -/
def bdtunExit (s : Kmod) : Kmod × ModuleRet :=
  let ctrl := s.ctrl.deviceList.foldl bdtunRemoveDev s.ctrl
  let (ctrl, r) := flushWorkqueue ctrl.addDiskQ ctrl
  if r = .oops then ({ s with ctrl := ctrl }, .oops)
  else
    ({ loaded := false
       ctrlDevnum := s.ctrlDevnum
       ledger := ((((s.ledger.release .addDiskQ).release (.ctrlDevice s.ctrlDevnum)).release
         .ctrlDev).release (.chrdevRegion s.ctrlDevnum)).release .chclass
       ctrl := .init
       files := 0
       left := s.left + ctrl.ledger.held }, .ret 0)

/-- The references to the module. -/
def Kmod.references (s : Kmod) : Nat := s.ctrl.ledger.held.count .moduleReference + s.files

/-- The open files after a call: an open that fails has none. -/
def filesAfter (files : Nat) : CtrlCall × CtrlRet → Nat
  | (.ctrlOpen, r) => if r = .ret 0 then files + 1 else files
  | (.ctrlRelease, _) => files - 1
  | (.opens _ _, r) => if r = .ret 0 then files + 1 else files
  | (.releases _ _, _) => files - 1
  | _ => files

section
variable [Kernel]

def kmodNext (s : Kmod) : ModuleCall → Kmod × ModuleRet
  | .load k =>
    let (ledger, code) := bdtunInit s.ledger k
    if code = 0 then
      ({ s with
        loaded := true
        ctrlDevnum := k.allocChrdevRegion.2
        ledger := ledger
        ctrl := .init
        files := 0 }, .ret 0)
    else ({ s with ledger := ledger }, .ret code)
  | .call c =>
    let (ctrl, r) := controlNext s.ctrl c
    ({ s with ctrl := ctrl, files := filesAfter s.files (c, r) }, .of r)
  | .unload => if s.references = 0 then bdtunExit s else (s, .refused)

/-- A module is loaded once, and called while it is. -/
def KmodOk (s : Kmod) : ModuleCall → Prop
  | .load _ => s.loaded = false
  | .call c => s.loaded = true ∧ control.enabled s.ctrl c
  | .unload => s.loaded = true ∧ (kmodNext s .unload).2 ≠ .oops

instance (s : Kmod) (c : ModuleCall) : Decidable (KmodOk s c) := by
  cases c <;> unfold KmodOk <;> infer_instance

def kmod : Machine Kmod ModuleCall ModuleRet where
  enabled := KmodOk
  next := kmodNext

instance (s : Kmod) (c : ModuleCall) : Decidable (kmod.enabled s c) :=
  inferInstanceAs (Decidable (KmodOk s c))

omit [Kernel] in
/-- The calls since the module was loaded. -/
def sinceRecord (tr : List (CtrlCall × CtrlRet)) :
    ModuleCall × ModuleRet → List (CtrlCall × CtrlRet)
  | (.load _, _) => []
  | (.call c, .of r) => tr ++ [(c, r)]
  | (.unload, .ret _) => []
  | _ => tr

def sinceLoad (tr : List (ModuleCall × ModuleRet)) : List (CtrlCall × CtrlRet) :=
  tr.foldl sinceRecord []

omit [Kernel] in
@[simp] theorem sinceLoad_snoc (tr : List (ModuleCall × ModuleRet)) (e : ModuleCall × ModuleRet) :
    sinceLoad (tr ++ [e]) = sinceRecord (sinceLoad tr) e := by
  simp [sinceLoad]

/-- The users of a loaded module are those of `control`. -/
def kmodUsers : Policy ModuleCall ModuleRet := fun tr c =>
  match c with
  | .call c => ctrlUsers (sinceLoad tr) c
  | _ => True

instance (tr : List (ModuleCall × ModuleRet)) (c : ModuleCall) : Decidable (kmodUsers tr c) := by
  cases c <;> unfold kmodUsers <;> infer_instance

end

/-! ## What is held while the module is loaded -/

/-- A set for each device, the work items, and `m`. -/
structure Leaky (m : List Resource) (s : Ctrl) : Prop where
  held : s.ledger.held = ↑s.holdings + ↑m
  misfreed : s.ledger.misfreed = []

/-- The state with nothing held but what is due. -/
def Ctrl.settled (s : Ctrl) : Ctrl := { s with ledger := ⟨↑s.holdings, []⟩ }

theorem balanced_settled (s : Ctrl) : Balanced s.settled := ⟨rfl, rfl⟩

section
variable {m : List Resource} {h : CtrlHist} {s : Ctrl}

theorem Leaky.congr (hm : Leaky m s) {s' : Ctrl}
    (hset : s'.deviceList.map Device.resources = s.deviceList.map Device.resources)
    (hq : s'.addDiskQ = s.addDiskQ) (hl : s'.ledger = s.ledger) : Leaky m s' := by
  refine ⟨?_, by rw [hl]; exact hm.misfreed⟩
  have hsettled : Balanced { s' with ledger := s.settled.ledger } :=
    (balanced_settled s).congr hset hq rfl
  rw [hl, hm.held]
  exact congrArg (· + (m : Multiset Resource)) hsettled.held

theorem Leaky.write (hm : Leaky m s) (a : Addr) {f : Device → Device}
    (hf : ∀ d, (f d).resources = d.resources) : Leaky m (s.update a f) :=
  hm.congr (map_update Device.resources fun d _ => hf d) rfl rfl

theorem Leaky.add (hm : Leaky m s) (new : Device) (w : Addr) {l : ResourceLedger Resource}
    (hheld : l.held = new.takings w + s.ledger.held) (hmis : l.misfreed = s.ledger.misfreed) :
    Leaky m { s with
      deviceList := s.deviceList ++ [new]
      addDiskQ := s.addDiskQ ++ [⟨w, new.addr⟩]
      ledger := l } := by
  refine ⟨?_, hmis.trans hm.misfreed⟩
  have hset := ((balanced_settled s).add new w (l := ⟨new.takings w + ↑s.holdings, []⟩) rfl rfl).held
  show l.held = _
  rw [hheld, hm.held, ← add_assoc]
  exact congrArg (· + (m : Multiset Resource)) hset

/-- What the devices and the work items hold, when a device goes. -/
theorem holdings_remove (hl : Listed h s) {dev : Device} (hd : dev ∈ s.deviceList) :
    (s.holdings : Multiset Resource) = ↑dev.resources +
      ↑({ s with deviceList := s.deviceList.filter fun d => d.addr ≠ dev.addr } : Ctrl).holdings := by
  rw [Multiset.coe_add, Multiset.coe_eq_coe, Ctrl.holdings, Ctrl.holdings, ← List.append_assoc]
  refine List.Perm.append_right _ ?_
  rw [← List.flatMap_cons]
  exact (perm_cons_filter Device.addr hl.addrs hd).flatMap_right _

theorem Leaky.release (hm : Leaky m s) (hl : Listed h s) {dev : Device} (hd : dev ∈ s.deviceList) :
    Leaky m { s with
      deviceList := s.deviceList.filter fun d => d.addr ≠ dev.addr
      ledger := s.ledger.releaseAll dev.resources } := by
  have hheld := hm.held
  rw [holdings_remove hl hd, add_assoc] at hheld
  rw [ResourceLedger.releaseAll_of_held hheld]
  exact ⟨rfl, hm.misfreed⟩

theorem Leaky.workDone (hm : Leaky m s) (hq : (s.addDiskQ.map AddDiskWork.addr).Nodup)
    {work : AddDiskWork} (hw : work ∈ s.addDiskQ) :
    Leaky m { s with
      addDiskQ := s.addDiskQ.filter fun e => e.addr ≠ work.addr
      ledger := s.ledger.release (.workItem work.addr) } := by
  have hset : (s.holdings : Multiset Resource) = Resource.workItem work.addr ::ₘ
      ↑({ s with addDiskQ := s.addDiskQ.filter fun e => e.addr ≠ work.addr } : Ctrl).holdings := by
    rw [Multiset.cons_coe, Multiset.coe_eq_coe]
    refine List.Perm.trans ?_ List.perm_middle
    exact List.Perm.append_left _ ((perm_cons_filter AddDiskWork.addr hq hw).map _)
  have hheld := hm.held
  rw [hset, Multiset.cons_add] at hheld
  rw [ResourceLedger.release_of_held hheld]
  exact ⟨rfl, hm.misfreed⟩

/-- A device node that stays. -/
theorem Leaky.leak (hm : Leaky m s) (chNum : Nat) :
    Leaky (m ++ [.deviceNode chNum]) { s with ledger := s.ledger.take (.deviceNode chNum) } := by
  refine ⟨?_, hm.misfreed⟩
  show Resource.deviceNode chNum ::ₘ s.ledger.held = _
  rw [hm.held, ← Multiset.coe_add, Multiset.coe_singleton, ← add_assoc, ← Multiset.singleton_add,
    add_comm]
  rfl

/-- Only devices have references to the module. -/
theorem Leaky.references (hm : Leaky m s) (hnodes : ∀ r ∈ m, ∃ chNum, r = .deviceNode chNum) :
    s.ledger.held.count .moduleReference = s.deviceList.length := by
  have hone : ∀ d : Device, d.resources.count .moduleReference = 1 := fun d => by
    have hset : d.resources = [.chrdevRegion d.chNum, .cdev d.addr, .deviceNode d.chNum,
      .blkMajor d.major, .requestQueue d.queue.addr, .gendisk d.gendisk, .moduleReference,
      .listLink d.addr, .deviceStructure d.addr] := rfl
    simp [hset]
  have hwork : (s.addDiskQ.map fun work => Resource.workItem work.addr).count .moduleReference = 0 := by
    simp [List.count_eq_zero]
  have hleft : m.count .moduleReference = 0 := by
    rw [List.count_eq_zero]
    intro hmem
    obtain ⟨chNum, hr⟩ := hnodes _ hmem
    cases hr
  rw [hm.held, Multiset.count_add, Multiset.coe_count, Multiset.coe_count, hleft, Ctrl.holdings,
    List.count_append, hwork, List.count_flatMap]
  have hall : s.deviceList.map (List.count .moduleReference ∘ Device.resources) =
      s.deviceList.map fun _ => 1 := List.map_congr_left fun d _ => hone d
  rw [hall]
  simp

end

section
variable [Kernel]

/-- What a call leaves behind: the device node of a create that gets no disk. -/
def Ctrl.leaves (s : Ctrl) : CtrlCall → List Resource
  | .ctrlWrite count (.create name blocksize size _) k =>
    if count < bdtunCommSize ∨ (bdtunFindDevice s.deviceList name).isSome then []
    else
      match createCheck blocksize.toNat size.toNat, k.parts, k.allocDisk with
      | .ok (), some (_, _, _, chNum), none => [.deviceNode chNum]
      | _, _, _ => []
  | _ => []

theorem leaves_nodes (s : Ctrl) (c : CtrlCall) : ∀ r ∈ s.leaves c, ∃ chNum, r = .deviceNode chNum := by
  intro r hr
  unfold Ctrl.leaves at hr
  split at hr
  · split at hr
    · cases hr
    · split at hr
      · exact ⟨_, List.mem_singleton.mp hr⟩
      · cases hr
  · cases hr

variable {m : List Resource} {s : Ctrl}

/-- **A create**, and what it leaves behind. -/
theorem Leaky.create (hm : Leaky m s) (count : Nat) (name : DiskName) (blocksize size : UInt64)
    (capabilities : BitVec 32) (k : Answers)
    (hr : (ctrlWrite s count (.create name blocksize size capabilities) k).2 ≠ .oops) :
    Leaky (m ++ s.leaves (.ctrlWrite count (.create name blocksize size capabilities) k))
      (ctrlWrite s count (.create name blocksize size capabilities) k).1 := by
  by_cases hcount : count < bdtunCommSize
  · rw [ctrlWrite_short s _ k hcount]
    simpa [Ctrl.leaves, hcount] using hm
  · rw [ctrlWrite_long s _ k (by omega)] at hr ⊢
    simp only at hr ⊢
    have hcases := create_cases s name blocksize.toNat size.toNat capabilities k
    generalize bdtunCreateK s name blocksize.toNat size.toNat capabilities k = res at hr hcases
    cases hcases with
    | «exists» hfound =>
      rw [done_error _ _ (by decide)]
      simpa [Ctrl.leaves, hfound] using hm
    | invalid hf hc =>
      rw [done_error _ _ (by decide)]
      simpa [Ctrl.leaves, hf, hc] using hm
    | failed hf hc hp code hneg hcode =>
      rw [done_error _ _ hneg]
      simpa [Ctrl.leaves, hf, hc, hp] using hm
    | noDisk hf hc new queue major chNum hp hgd =>
      rw [done_error _ _ (by decide)]
      simpa [Ctrl.leaves, hcount, hf, hc, hp, hgd] using hm.leak chNum
    | noWork hf hc hp hgd hw s' => exact absurd rfl hr
    | created hf hc new queue major chNum gd w hp hgd hw hnew =>
      rw [done_ok]
      have hadd := hm.add (newDevice new queue major chNum gd name blocksize.toNat size.toNat
        capabilities) w (createTakes_held s.ledger _ _ _ _ _ _ _ _ _ _) rfl
      have hnone : s.leaves (.ctrlWrite count (.create name blocksize size capabilities) k) = [] := by
        simp [Ctrl.leaves, hf, hc, hp, hgd]
      rw [hnone, List.append_nil]
      exact hadd

/-- **Every call**, and what it leaves behind. -/
theorem Leaky.next {tr : List (CtrlCall × CtrlRet)} (hm : Leaky m s) (hl : Listed (ctrlHist tr) s)
    (hq : (s.addDiskQ.map AddDiskWork.addr).Nodup) (c : CtrlCall)
    (hr : (controlNext s c).2 ≠ .oops) : Leaky (m ++ s.leaves c) (controlNext s c).1 := by
  by_cases hc : ∃ count name blocksize size capabilities k,
      c = .ctrlWrite count (.create name blocksize size capabilities) k
  · obtain ⟨count, name, blocksize, size, capabilities, k, rfl⟩ := hc
    exact hm.create count name blocksize size capabilities k hr
  · have hnone : s.leaves c = [] := by
      unfold Ctrl.leaves
      split
      · exact absurd ⟨_, _, _, _, _, _, rfl⟩ hc
      · rfl
    rw [hnone, List.append_nil]
    have heff := ctrl_effect s c hr
    generalize controlNext s c = res at heff
    cases heff with
    | created count name blocksize size capabilities k new queue major chNum gd w =>
      exact absurd ⟨_, _, _, _, _, _, rfl⟩ hc
    | noDisk count name blocksize size capabilities k new queue major chNum =>
      exact absurd ⟨_, _, _, _, _, _, rfl⟩ hc
    | resized count name size k dev hf => exact hm.write _ fun _ => rfl
    | notResized count name size k dev hf e _ => exact hm.write _ fun _ => rfl
    | removed count name k dev hf _ _ => exact hm.release hl (find_some hf).1
    | opened name k dev hf _ => exact hm.write _ fun _ => rfl
    | going name k dev hf _ code _ => exact hm.write _ fun _ => rfl
    | released name k dev hf b _ _ _ => exact hm.write _ fun _ => rfl
    | added w work hw =>
      have hmem := List.mem_of_find?_eq_some hw
      obtain rfl : work.addr = w := by simpa using List.find?_some hw
      exact Leaky.congr (hm.workDone hq hmem) (map_update Device.resources fun _ _ => rfl) rfl rfl
    | _ => exact hm.congr rfl rfl rfl

/-- **What is held**, after any run of a loaded module. -/
theorem control_leaky {tr : List (CtrlCall × CtrlRet)} (hrun : Run control ctrlUsers .init tr s) :
    Leaky (gathered control Ctrl.leaves .init tr) s := by
  refine hrun.keeps (fun tr s => Leaky (gathered control Ctrl.leaves .init tr) s) ⟨rfl, rfl⟩ ?_
  intro tr s c hrun hm _ he
  rw [gathered_snoc hrun]
  exact hm.next (run_listed (fun _ _ hp => hp) hrun) (run_queue hrun) c he.2

/-! ## References -/

omit [Kernel] in
/-- The open files that the outside has seen. -/
def CtrlHist.files (h : CtrlHist) : Nat := h.handles.length + if h.session then 1 else 0

omit [Kernel] in
/-- What the kernel counts is what the outside has seen. -/
theorem filesAfter_eq {tr : List (CtrlCall × CtrlRet)} {c : CtrlCall} {r : CtrlRet}
    (hp : ctrlUsers tr c) (hopen : c = .ctrlOpen → r = .ret 0 → (ctrlHist tr).session = false) :
    filesAfter (ctrlHist tr).files (c, r) = (ctrlHist (tr ++ [(c, r)])).files := by
  rw [ctrlHist_snoc]
  cases c with
  | ctrlOpen =>
    cases r with
    | ret code =>
      by_cases hcode : code = 0
      · subst hcode
        have hclosed := hopen rfl rfl
        simp [filesAfter, CtrlHist.record, CtrlHist.files, hclosed]
      · simp [filesAfter, CtrlHist.record, hcode]
    | _ => simp [filesAfter, CtrlHist.record]
  | ctrlRelease =>
    have hsession : (ctrlHist tr).session = true := hp
    simp [filesAfter, CtrlHist.record, CtrlHist.files, hsession]
  | opens name h =>
    cases r with
    | ret code =>
      by_cases hcode : code = 0
      · simp only [filesAfter, CtrlHist.record, CtrlHist.files, hcode, if_pos, List.length_cons]
        omega
      · simp [filesAfter, CtrlHist.record, hcode]
    | _ => simp [filesAfter, CtrlHist.record]
  | releases name h =>
    have hmem : (name, h) ∈ (ctrlHist tr).handles := hp
    have hlen := List.length_erase_of_mem hmem
    have hpos := List.length_pos_of_mem hmem
    have hafter : ((ctrlHist tr).record (.releases name h, r)).files =
        ((ctrlHist tr).handles.erase (name, h)).length + if (ctrlHist tr).session then 1 else 0 := rfl
    rw [hafter, hlen]
    simp only [filesAfter, CtrlHist.files]
    omega
  | _ => rfl

/-! ## Exit with no device -/

omit [Kernel] in
theorem exit_empty {s : Kmod} (hd : s.ctrl.deviceList = []) (hq : s.ctrl.addDiskQ = []) :
    bdtunExit s =
      ({ loaded := false
         ctrlDevnum := s.ctrlDevnum
         ledger := s.ledger.releaseAll (moduleResources s.ctrlDevnum)
         ctrl := .init
         files := 0
         left := s.left + s.ctrl.ledger.held }, .ret 0) := by
  simp [bdtunExit, hd, hq, flushWorkqueue, ResourceLedger.releaseAll, moduleResources]

omit [Kernel] in
/-- A work item that is left has no device. -/
theorem exit_pending {s : Kmod} (hd : s.ctrl.deviceList = []) (hq : s.ctrl.addDiskQ ≠ []) :
    (bdtunExit s).2 = .oops := by
  obtain ⟨work, rest, hq⟩ := List.exists_cons_of_ne_nil hq
  simp [bdtunExit, hd, hq, flushWorkqueue]

/-! ## Every run -/

/-- What a call of the module leaves behind. -/
def Kmod.leaves (s : Kmod) : ModuleCall → List Resource
  | .call c => s.ctrl.leaves c
  | _ => []

omit [Kernel] in
/-- What is left from before goes along. -/
theorem held_shift {left held held' due due' m total more : Multiset Resource}
    (hnow : held = due + m) (hleft : left + held = due + total) (hnext : held' = due' + (m + more)) :
    left + held' = due' + (total + more) := by
  have htotal : left + m = total := by
    refine add_left_cancel (a := due) ?_
    rw [← hleft, hnow]
    abel
  rw [hnext, ← htotal]
  abel

/-- The module between two calls. -/
structure Between (tr : List (ModuleCall × ModuleRet)) (s : Kmod) : Prop where
  calls : Run control ctrlUsers .init (sinceLoad tr) s.ctrl
  fresh : s.loaded = false → sinceLoad tr = []
  files : s.files = (ctrlHist (sinceLoad tr)).files
  ledger : s.ledger.held = if s.loaded then ↑(moduleResources s.ctrlDevnum) else 0
  misfreed : s.ledger.misfreed = []
  left : s.left + s.ctrl.ledger.held =
    ↑s.ctrl.holdings + ↑(gathered kmod Kmod.leaves .unloaded tr)

variable {tr : List (ModuleCall × ModuleRet)} {k : Kmod}

/-- No device, no session, no handle. -/
def Idle (tr : List (ModuleCall × ModuleRet)) (k : Kmod) : Prop :=
  k.ctrl.deviceList = [] ∧ (ctrlHist (sinceLoad tr)).session = false ∧
    (ctrlHist (sinceLoad tr)).handles = []

theorem Between.leaky (hb : Between tr k) :
    Leaky (gathered control Ctrl.leaves .init (sinceLoad tr)) k.ctrl := control_leaky hb.calls

theorem gathered_nodes {tr : List (CtrlCall × CtrlRet)} (s : Ctrl) :
    ∀ r ∈ gathered control Ctrl.leaves s tr, ∃ chNum, r = .deviceNode chNum := by
  induction tr generalizing s with
  | nil => simp [gathered]
  | cons e tr ih =>
    intro r hr
    rcases List.mem_append.mp hr with hfirst | hrest
    · exact leaves_nodes s e.1 r hfirst
    · exact ih _ r hrest

/-- **The references**: the devices, the session and the handles. -/
theorem Between.references (hb : Between tr k) : k.references = 0 ↔ Idle tr k := by
  rw [Kmod.references, hb.leaky.references (gathered_nodes _), hb.files, CtrlHist.files, Idle]
  constructor
  · intro h
    refine ⟨List.length_eq_zero_iff.mp (by omega), ?_, List.length_eq_zero_iff.mp (by omega)⟩
    by_contra hopen
    rw [Bool.not_eq_false] at hopen
    simp [hopen] at h
  · rintro ⟨hd, hsession, hhandles⟩
    simp [hd, hsession, hhandles]

/-- A call of a loaded module. -/
theorem Between.call (hb : Between tr k) (hrun : Run kmod kmodUsers .unloaded tr k) (c : CtrlCall)
    (hp : ctrlUsers (sinceLoad tr) c) (hl : k.loaded = true) (he : control.enabled k.ctrl c) :
    Between (tr ++ [(.call c, (kmodNext k (.call c)).2)]) (kmodNext k (.call c)).1 := by
  have hsince : sinceLoad (tr ++ [(.call c, (kmodNext k (.call c)).2)]) =
      sinceLoad tr ++ [(c, (control.next k.ctrl c).2)] := by
    rw [sinceLoad_snoc]
    rfl
  have hlisted := run_listed (fun _ _ h => h) hb.calls
  refine ⟨?_, fun h => absurd (hl.symm.trans h) (by decide), ?_, hb.ledger, hb.misfreed, ?_⟩
  · rw [hsince]
    exact hb.calls.step c hp he
  · rw [hsince]
    refine Eq.trans ?_ (filesAfter_eq hp ?_)
    · rw [← hb.files]
      rfl
    · rintro rfl hret
      have hlock := hlisted.lock
      by_contra hopen
      rw [Bool.not_eq_false] at hopen
      rw [hopen, if_pos rfl] at hlock
      have hbusy : (control.next k.ctrl .ctrlOpen).2 = .ret (-ebusy) := by
        show (ctrlOpen k.ctrl).2 = _
        rw [ctrlOpen_eq, if_neg (by omega)]
      rw [hbusy] at hret
      exact absurd hret (by decide)
  · rw [gathered_snoc hrun]
    have hnext := (hb.leaky.next hlisted (run_queue hb.calls) c he.2).held
    rw [← Multiset.coe_add] at hnext ⊢
    exact held_shift hb.leaky.held hb.left hnext

/-- While the module is not loaded. -/
theorem Between.unloaded (hb : Between tr k) (hl : k.loaded = false) :
    k.ctrl = .init ∧ k.files = 0 ∧ k.ledger.held = 0 ∧
      k.left = ↑(gathered kmod Kmod.leaves .unloaded tr) := by
  have hcalls := hb.calls
  have hfiles := hb.files
  rw [hb.fresh hl] at hcalls hfiles
  have hctrl : k.ctrl = .init := hcalls.functional (.refl : Run control ctrlUsers .init [] .init)
  have hleft := hb.left
  have hinit : Ctrl.init.holdings = [] ∧ Ctrl.init.ledger.held = 0 := ⟨rfl, rfl⟩
  rw [hctrl, hinit.1, hinit.2] at hleft
  refine ⟨hctrl, hfiles, by simpa [hl] using hb.ledger, by simpa using hleft⟩

/-- A load takes what the module needs, or nothing. -/
theorem Between.load (hb : Between tr k) (hrun : Run kmod kmodUsers .unloaded tr k)
    (a : InitAnswers) (hl : k.loaded = false) :
    Between (tr ++ [(.load a, (kmodNext k (.load a)).2)]) (kmodNext k (.load a)).1 := by
  obtain ⟨hctrl, hfiles, hheld, hleft⟩ := hb.unloaded hl
  have hsince : ∀ r, sinceLoad (tr ++ [(.load a, r)]) = [] := fun r => by
    rw [sinceLoad_snoc]
    rfl
  have hleaves : ∀ r, gathered kmod Kmod.leaves .unloaded (tr ++ [(.load a, r)]) =
      gathered kmod Kmod.leaves .unloaded tr := fun r => by
    rw [gathered_snoc hrun]
    exact List.append_nil _
  have hcases := init_cases k.ledger a
  generalize hinit : bdtunInit k.ledger a = res at hcases
  cases hcases with
  | failed =>
    have hnext : kmodNext k (.load a) = (k, .ret (-enomem)) := by
      simp [kmodNext, hinit, enomem]
    rw [hnext]
    refine ⟨?_, fun _ => hsince _, ?_, hb.ledger, hb.misfreed, ?_⟩
    · rw [hsince, hctrl]
      exact .refl
    · rw [hsince]
      exact hfiles
    · rw [hleaves]
      exact hb.left
  | done l' hmore hmis =>
    have hnext : kmodNext k (.load a) =
        ({ k with
          loaded := true
          ctrlDevnum := a.allocChrdevRegion.2
          ledger := l'
          ctrl := .init
          files := 0 }, .ret 0) := by
      simp [kmodNext, hinit]
    rw [hnext]
    refine ⟨?_, fun _ => hsince _, ?_, ?_, hmis.trans hb.misfreed, ?_⟩
    · rw [hsince]
      exact .refl
    · rw [hsince]
      rfl
    · rw [if_pos rfl, hmore, hheld, add_zero]
    · rw [hleaves, ← hleft]
      exact add_comm _ _

/-- An unload that is not refused and finds no work item gives back what the module took. -/
theorem Between.unload (hb : Between tr k) (hrun : Run kmod kmodUsers .unloaded tr k)
    (hl : k.loaded = true) (hr : (kmodNext k .unload).2 ≠ .oops) :
    Between (tr ++ [(.unload, (kmodNext k .unload).2)]) (kmodNext k .unload).1 := by
  have hleaves : ∀ r, gathered kmod Kmod.leaves .unloaded (tr ++ [(.unload, r)]) =
      gathered kmod Kmod.leaves .unloaded tr := fun r => by
    rw [gathered_snoc hrun]
    exact List.append_nil _
  by_cases hrefs : k.references = 0
  · have hidle := hb.references.mp hrefs
    have hunload : kmodNext k .unload = bdtunExit k := if_pos hrefs
    rw [hunload] at hr ⊢
    by_cases hq : k.ctrl.addDiskQ = []
    · rw [exit_empty hidle.1 hq]
      have hsince : sinceLoad (tr ++ [(.unload, .ret 0)]) = [] := by
        rw [sinceLoad_snoc]
        rfl
      have hheld : k.ledger.held = ↑(moduleResources k.ctrlDevnum) + 0 := by
        simpa [hl] using hb.ledger
      have hnone : k.ctrl.holdings = [] := by simp [Ctrl.holdings, hidle.1, hq]
      have hrest := ResourceLedger.releaseAll_of_held hheld
      refine ⟨?_, fun _ => hsince, ?_, ?_, ?_, ?_⟩
      · rw [hsince]
        exact .refl
      · rw [hsince]
        rfl
      · rw [hrest]
        rfl
      · rw [hrest]
        exact hb.misfreed
      · rw [hleaves]
        have hleft := hb.left
        rw [hnone] at hleft
        simp only [hleft]
        exact add_comm _ _
    · exact absurd (exit_pending hidle.1 hq) hr
  · have hunload : kmodNext k .unload = (k, .refused) := if_neg hrefs
    have hsince : sinceLoad (tr ++ [(.unload, .refused)]) = sinceLoad tr := by
      rw [sinceLoad_snoc]
      rfl
    rw [hunload]
    refine ⟨?_, fun h => absurd (hl.symm.trans h) (by decide), ?_, hb.ledger, hb.misfreed, ?_⟩
    · rw [hsince]
      exact hb.calls
    · rw [hsince]
      exact hb.files
    · rw [hleaves]
      exact hb.left

theorem run_between (hrun : Run kmod kmodUsers .unloaded tr k) : Between tr k := by
  refine hrun.keeps Between ⟨.refl, fun _ => rfl, rfl, rfl, rfl, rfl⟩ ?_
  intro tr k c hrun hb hp he
  cases c with
  | load a => exact hb.load hrun a he
  | call c => exact hb.call hrun c hp he.1 he.2
  | unload => exact hb.unload hrun he.1 he.2

/-! ## Unloads -/

/-- **Unloading.**  In every run of loads, calls and unloads, an unload is refused exactly when a
device is listed, a session is open or a node is open.  So the loop of `bdtun_exit` finds no device to
remove; the exit goes wrong exactly when a work item is left, and otherwise returns. -/
theorem unload_when_idle (hrun : Run kmod kmodUsers .unloaded tr k) :
    ((kmodNext k .unload).2 = .refused ↔ ¬ Idle tr k) ∧
    ((kmodNext k .unload).2 = .oops ↔ Idle tr k ∧ k.ctrl.addDiskQ ≠ []) ∧
    ((kmodNext k .unload).2 = .ret 0 ↔ Idle tr k ∧ k.ctrl.addDiskQ = []) := by
  have hb := run_between hrun
  by_cases hrefs : k.references = 0
  · have hidle := hb.references.mp hrefs
    have hunload : kmodNext k .unload = bdtunExit k := if_pos hrefs
    rw [hunload]
    by_cases hq : k.ctrl.addDiskQ = []
    · simp [exit_empty hidle.1 hq, hidle, hq]
    · simp [exit_pending hidle.1 hq, hidle, hq]
  · have hbusy : ¬ Idle tr k := fun h => hrefs (hb.references.mpr h)
    have hunload : kmodNext k .unload = (k, .refused) := if_neg hrefs
    simp [hunload, hbusy]

/-- **Resources over any number of loads.**  While the module is loaded it has the five resources of
`bdtun_init`, a set for each device, and its work items; while it is not, it has none of them.  What
the kernel holds besides is the device nodes of creates that got no disk, all of them and no more,
and nothing is released twice. -/
theorem module_resources (hrun : Run kmod kmodUsers .unloaded tr k) :
    k.ledger.held = (if k.loaded then ↑(moduleResources k.ctrlDevnum) else 0) ∧
    k.left + k.ctrl.ledger.held =
      ↑k.ctrl.holdings + ↑(gathered kmod Kmod.leaves .unloaded tr) ∧
    (k.loaded = false → k.ctrl.holdings = [] ∧ k.left = ↑(gathered kmod Kmod.leaves .unloaded tr)) ∧
    k.ledger.misfreed = [] ∧ k.ctrl.ledger.misfreed = [] := by
  have hb := run_between hrun
  refine ⟨hb.ledger, hb.left, fun hl => ?_, hb.misfreed, hb.leaky.misfreed⟩
  obtain ⟨hctrl, -, -, hleft⟩ := hb.unloaded hl
  rw [hctrl]
  exact ⟨rfl, hleft⟩

/-! ## Work items without a device -/

omit [Kernel] in
/-- The devices of the queued work items are listed. -/
def Homed (s : Ctrl) : Prop := ∀ work ∈ s.addDiskQ, work.dev ∈ s.deviceList.map Device.addr

/-- A removal that goes on finds no work item of its device. -/
def Patient (k : Kmod) : ModuleCall → Prop
  | .call (.ctrlWrite count (.remove name) _) =>
    bdtunCommSize ≤ count → ∀ dev, bdtunFindDevice k.ctrl.deviceList name = some dev →
      dev.removing = false → dev.ucnt = 0 → ∀ work ∈ k.ctrl.addDiskQ, work.dev ≠ dev.addr
  | _ => True

section
variable {s : Ctrl}

omit [Kernel] in
theorem Homed.congr (hs : Homed s) {s' : Ctrl}
    (haddrs : s'.deviceList.map Device.addr = s.deviceList.map Device.addr)
    (hq : ∀ work ∈ s'.addDiskQ, work ∈ s.addDiskQ) : Homed s' := by
  intro work hwork
  rw [haddrs]
  exact hs work (hq work hwork)

omit [Kernel] in
theorem Homed.write (hs : Homed s) (a : Addr) {f : Device → Device} (hf : ∀ d, (f d).addr = d.addr) :
    Homed (s.update a f) :=
  hs.congr (map_update Device.addr fun d _ => hf d) fun _ h => h

omit [Kernel] in
/-- A device goes: its work items should have gone before it. -/
theorem homed_remove (hs : Homed s) (dev : Device) {l : ResourceLedger Resource} :
    Homed { s with deviceList := s.deviceList.filter fun d => d.addr ≠ dev.addr, ledger := l } ↔
      ∀ work ∈ s.addDiskQ, work.dev ≠ dev.addr := by
  constructor
  · intro hafter work hwork haddr
    obtain ⟨d, hd, hda⟩ := List.mem_map.mp (hafter work hwork)
    have hne : d.addr ≠ dev.addr := by simpa using (List.mem_filter.mp hd).2
    exact hne (hda.trans haddr)
  · intro hnone work hwork
    obtain ⟨d, hd, hda⟩ := List.mem_map.mp (hs work hwork)
    refine List.mem_map.mpr ⟨d, List.mem_filter.mpr ⟨hd, ?_⟩, hda⟩
    have hne := hnone work hwork
    rw [← hda] at hne
    simpa using hne

/-- **Every call** leaves the work items with their devices, exactly when it is no early removal. -/
theorem Homed.next (hs : Homed k.ctrl) (c : CtrlCall) (hr : (controlNext k.ctrl c).2 ≠ .oops) :
    Homed (controlNext k.ctrl c).1 ↔ Patient k (.call c) := by
  by_cases hc : ∃ count name a, c = .ctrlWrite count (.remove name) a
  · obtain ⟨count, name, a, rfl⟩ := hc
    simp only [controlNext]
    by_cases hcount : count < bdtunCommSize
    · rw [ctrlWrite_short _ _ _ hcount]
      exact iff_of_true hs fun hlong => absurd hlong (by omega)
    · rw [ctrlWrite_long _ _ _ (by omega)]
      simp only [Patient]
      have hcases := remove_cases k.ctrl name
      generalize bdtunRemoveK k.ctrl name = res at hcases
      cases hcases with
      | absent hf =>
        rw [done_error _ _ (by decide)]
        refine iff_of_true hs fun _ dev hdev => ?_
        rw [hf] at hdev
        cases hdev
      | busy dev hf hwhy =>
        rw [done_error _ _ (by decide)]
        refine iff_of_true hs fun _ dev' hdev hrem hu => ?_
        obtain rfl := Option.some.inj (hf.symm.trans hdev)
        rcases hwhy with hgoing | hused
        · exact absurd (hrem.symm.trans hgoing) (by decide)
        · exact absurd hu hused
      | removed dev hf hrem hu =>
        rw [done_ok]
        rw [homed_remove hs dev]
        constructor
        · intro hnone _ dev' hdev _ _
          obtain rfl := Option.some.inj (hf.symm.trans hdev)
          exact hnone
        · intro hall
          exact hall (by omega) dev hf hrem hu
  · have hpatient : Patient k (.call c) := by
      unfold Patient
      split
      · next hcall =>
        cases hcall
        exact absurd ⟨_, _, _, rfl⟩ hc
      · trivial
    refine iff_of_true ?_ hpatient
    have heff := ctrl_effect k.ctrl c hr
    generalize controlNext k.ctrl c = res at heff
    cases heff with
    | removed count name a dev => exact absurd ⟨_, _, _, rfl⟩ hc
    | created count name blocksize size capabilities a new queue major chNum gd w _ _ _ _ =>
      intro work hwork
      rw [List.map_append, List.mem_append]
      rcases List.mem_append.mp hwork with hold | hnew
      · exact Or.inl (hs work hold)
      · rw [List.mem_singleton.mp hnew]
        exact Or.inr (List.mem_singleton.mpr rfl)
    | resized count name size a dev hf => exact hs.write _ fun _ => rfl
    | notResized count name size a dev hf e _ => exact hs.write _ fun _ => rfl
    | opened name a dev hf _ => exact hs.write _ fun _ => rfl
    | going name a dev hf _ code _ => exact hs.write _ fun _ => rfl
    | released name a dev hf b _ _ _ => exact hs.write _ fun _ => rfl
    | added w work hw =>
      exact hs.congr (map_update Device.addr fun _ _ => rfl) fun _ h => (List.mem_filter.mp h).1
    | _ => exact hs.congr rfl fun _ h => h

end

/-- A load and an unload leave the work items as they are, or give them up. -/
theorem Between.reloaded (hb : Between tr k) {c : ModuleCall} (hc : ∀ call, c ≠ .call call)
    (hr : (kmodNext k c).2 ≠ .oops) :
    (kmodNext k c).1.ctrl = k.ctrl ∨ (kmodNext k c).1.ctrl = .init := by
  cases c with
  | call c => exact absurd rfl (hc c)
  | load a =>
    simp only [kmodNext]
    split
    · exact Or.inr rfl
    · exact Or.inl rfl
  | unload =>
    by_cases hrefs : k.references = 0
    · have hidle := hb.references.mp hrefs
      have hunload : kmodNext k .unload = bdtunExit k := if_pos hrefs
      rw [hunload] at hr ⊢
      by_cases hq : k.ctrl.addDiskQ = []
      · rw [exit_empty hidle.1 hq]
        exact Or.inr rfl
      · exact absurd (exit_pending hidle.1 hq) hr
    · have hunload : kmodNext k .unload = (k, .refused) := if_neg hrefs
      rw [hunload]
      exact Or.inl rfl

/-- **Unloads do not fault**, in runs where each removal waits for the work item of its device; and
that is so exactly when, all along, the work items have their devices. -/
theorem unload_never_faults (hrun : Run kmod kmodUsers .unloaded tr k) :
    (AllStates kmod kmodUsers .unloaded (fun k => Homed k.ctrl) tr ↔
      AllSteps kmod kmodUsers .unloaded Patient tr) ∧
    (AllSteps kmod kmodUsers .unloaded Patient tr → (kmodNext k .unload).2 ≠ .oops) := by
  have hnil : Homed Ctrl.init := fun work h => by cases h
  have hreload : ∀ {tr k c}, Between tr k → Homed k.ctrl → (∀ call, c ≠ ModuleCall.call call) →
      (kmodNext k c).2 ≠ .oops → Homed (kmodNext k c).1.ctrl := by
    intro tr k c hb hs hc hr
    rcases hb.reloaded hc hr with hsame | hinit
    · rw [hsame]
      exact hs
    · rw [hinit]
      exact hnil
  have hiff : AllStates kmod kmodUsers .unloaded (fun k => Homed k.ctrl) tr ↔
      AllSteps kmod kmodUsers .unloaded Patient tr := by
    refine Run.allStates_iff hnil ?_ hrun
    intro tr k c hrun _ he hs
    cases c with
    | load a =>
      refine iff_of_true (hreload (run_between hrun) hs (by simp) ?_) trivial
      simp only [kmodNext]
      split <;> simp
    | call c => exact hs.next c he.2.2
    | unload => exact iff_of_true (hreload (run_between hrun) hs (by simp) he.2) trivial
  refine ⟨hiff, fun hall hfault => ?_⟩
  have hhomed : Homed k.ctrl := hiff.mpr hall tr [] k (by simp) hrun
  by_cases hrefs : k.references = 0
  · have hidle := (run_between hrun).references.mp hrefs
    have hunload : kmodNext k .unload = bdtunExit k := if_pos hrefs
    have hq : k.ctrl.addDiskQ = [] := by
      refine List.eq_nil_iff_forall_not_mem.mpr fun work hwork => ?_
      have hhome := hhomed work hwork
      rw [hidle.1] at hhome
      cases hhome
    rw [hunload, exit_empty hidle.1 hq] at hfault
    cases hfault
  · rw [show kmodNext k .unload = (k, .refused) from if_neg hrefs] at hfault
    cases hfault

end

section
attribute [local instance] linux32

def sampleInit : InitAnswers where
  allocWorkqueue := true
  classCreate := true
  allocChrdevRegion := (0, 263192576)
  cdevAdd := 0
  deviceCreate := true

def sampleLoad (calls : List CtrlCall) : List ModuleCall := .load sampleInit :: calls.map .call

/-- A device is removed before its disk is added. -/
def earlyRemoval : List ModuleCall :=
  sampleLoad (sampleCreate ++ [.ctrlWrite 64 (.remove sampleName) sampleAnswers, .ctrlRelease])

/-- A device is removed when its disk is added, and the module unloaded. -/
def wholeLife : List ModuleCall :=
  sampleLoad (sampleCreate ++ [.addDisk 16384, .ctrlWrite 64 (.remove sampleName) sampleAnswers,
    .ctrlRelease]) ++ [.unload]

/-- A create gets no disk, and the module is unloaded. -/
def nodeLeft : List ModuleCall :=
  sampleLoad [.ctrlOpen, .ctrlWrite 64 (.create sampleName 512 1024 0)
    { sampleAnswers with allocDisk := none }, .ctrlRelease] ++ [.unload]

/-- The unload after an early removal runs into its work item. -/
theorem unload_when_idle_sample :
    (kmodNext (exec kmod .unloaded earlyRemoval) .unload).2 = .oops := by
  have hrun := @path_exec _ _ _ kmod kmodUsers [] .unloaded earlyRemoval (by decide)
  exact (unload_when_idle hrun).2.1.mpr ⟨⟨rfl, rfl, rfl⟩, List.cons_ne_nil _ _⟩

theorem module_resources_sample :
    (exec kmod .unloaded nodeLeft).left = {Resource.deviceNode 262144000} := by
  have hrun := @path_exec _ _ _ kmod kmodUsers [] .unloaded nodeLeft (by decide)
  exact ((module_resources hrun).2.2.1 rfl).2

/-- The device of `wholeLife` is removed when its work item is done; another unload does not fault. -/
theorem unload_never_faults_sample :
    AllStates kmod kmodUsers .unloaded (fun k => Homed k.ctrl) (traceOf kmod .unloaded wholeLife) ∧
      (kmodNext (exec kmod .unloaded wholeLife) .unload).2 ≠ .oops := by
  have hrun := @path_exec _ _ _ kmod kmodUsers [] .unloaded wholeLife (by decide)
  have hpatient : AllSteps kmod kmodUsers .unloaded Patient (traceOf kmod .unloaded wholeLife) := by
    refine allSteps_exec wholeLife
      ⟨trivial, trivial, trivial, trivial, ?_, trivial, trivial, trivial⟩
    intro _ dev _ _ _ work hwork
    cases hwork
  exact ⟨(unload_never_faults hrun).1.mpr hpatient, (unload_never_faults hrun).2 hpatient⟩

end

end BDTun
