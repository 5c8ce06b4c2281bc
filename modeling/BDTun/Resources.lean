import Mathlib.Algebra.Order.Group.Multiset
import Mathlib.Tactic.Abel
import BDTun.Registry

/-!
# What create takes and what remove releases

Between commands the ledger should hold one full set of resources for each listed
device, and the queued work items (`Balanced`).  A create that fails unwinds
through its labels; two failures come out wrong.  Without a disk the device node
is not destroyed, and without a work item the create writes through `NULL`
(`CutShort`).

* `create_ledger`: the four ways a create can end, by what they do to the ledger.
* `resource_ledger`: a run is balanced all along exactly when no create of it was
  cut short, and a command settles its resources exactly when it is not.
-/

namespace BDTun

open Machine

/-- One set for each listed device, and the queued work items. -/
def Ctrl.holdings (s : Ctrl) : List Resource :=
  s.deviceList.flatMap Device.resources ++ s.addDiskQ.map fun work => .workItem work.addr

/-- What a create takes for a device and its work item. -/
def Device.takings (d : Device) (w : Addr) : Multiset Resource :=
  Resource.workItem w ::ₘ (d.resources : Multiset Resource)

/-- The resources held are what they should be, and none was released without being held. -/
structure Balanced (s : Ctrl) : Prop where
  held : s.ledger.held = (s.holdings : Multiset Resource)
  misfreed : s.ledger.misfreed = []

/-- How a command should leave the ledger: a failed create as it was, a successful one with a full
set more and a work item, a successful remove with the set of the device less. -/
def Settles (s : Ctrl) (c : CtrlCommand) (res : Ctrl × CtrlRet) : Prop :=
  match c with
  | .create name _ _ _ =>
    (∃ code < 0, res.2 = .ret code ∧ res.1.ledger = s.ledger) ∨
    ∃ new w, (∃ count, res.2 = .wrote count []) ∧ new.diskName = name ∧
      res.1.deviceList = s.deviceList ++ [new] ∧ res.1.addDiskQ = s.addDiskQ ++ [⟨w, new.addr⟩] ∧
      res.1.ledger.held = new.takings w + s.ledger.held ∧
      res.1.ledger.misfreed = s.ledger.misfreed
  | .remove name =>
    (∃ code < 0, res.2 = .ret code ∧ res.1.ledger = s.ledger) ∨
    ∃ dev ∈ s.deviceList, (∃ count, res.2 = .wrote count []) ∧ dev.diskName = name ∧
      dev ∉ res.1.deviceList ∧ s.ledger.held = ↑dev.resources + res.1.ledger.held ∧
      res.1.ledger.misfreed = s.ledger.misfreed
  | _ => res.2 ≠ .oops ∧ res.1.ledger = s.ledger

section
variable [Kernel]

/-- An accepted create that gets no disk, or a disk and no work item. -/
def CutShort (s : Ctrl) : CtrlCall → Prop
  | .ctrlWrite count (.create name blocksize size _) k =>
    bdtunCommSize ≤ count ∧ bdtunFindDevice s.deviceList name = none ∧
      GoodSizes blocksize.toNat size.toNat ∧ k.parts.isSome = true ∧
      (k.allocDisk = none ∨ k.kmallocWork = none)
  | _ => False

/-! ## Create and the ledger -/

theorem createTakes_held (l : ResourceLedger Resource) (new queue major chNum gd w : Nat)
    (name : DiskName) (blockSize size : Nat) (capabilities : BitVec 32) :
    (createTakes l new queue major chNum gd w).held =
      (newDevice new queue major chNum gd name blockSize size capabilities).takings w + l.held := by
  have hset : (newDevice new queue major chNum gd name blockSize size capabilities).resources =
      [.chrdevRegion chNum, .cdev new, .deviceNode chNum, .blkMajor major, .requestQueue queue,
        .gendisk gd, .moduleReference, .listLink new, .deviceStructure new] := rfl
  rw [Device.takings, hset]
  simp only [createTakes, ResourceLedger.held_take, ← Multiset.cons_coe, ← Multiset.singleton_add,
    Multiset.coe_nil]
  abel

/-- **A create**, as far as the ledger goes: it fails and changes nothing, it adds a device with its
set and a work item, it leaves a device node behind, or it faults. -/
inductive CreateLedger (s : Ctrl) (count : Nat) (name : DiskName) (c : CtrlCall) :
    Ctrl × CtrlRet → Prop
  | failed (hcut : ¬ CutShort s c) (code : Int) (hneg : code < 0) :
      CreateLedger s count name c (s, .ret code)
  | added (hcut : ¬ CutShort s c) (new : Device) (w : Addr) (l : ResourceLedger Resource)
      (hname : new.diskName = name)
      (hheld : l.held = new.takings w + s.ledger.held)
      (hmis : l.misfreed = s.ledger.misfreed) :
      CreateLedger s count name c
        ({ s with
          deviceList := s.deviceList ++ [new]
          addDiskQ := s.addDiskQ ++ [⟨w, new.addr⟩]
          ledger := l }, .wrote count [])
  | leaked (hcut : CutShort s c) (chNum : Nat) :
      CreateLedger s count name c
        ({ s with ledger := s.ledger.take (.deviceNode chNum) }, .ret (-enomem))
  | faulted (hcut : CutShort s c) (s' : Ctrl) : CreateLedger s count name c (s', .oops)

theorem create_ledger (s : Ctrl) (count : Nat) (name : DiskName) (blocksize size : UInt64)
    (capabilities : BitVec 32) (k : Answers) :
    CreateLedger s count name (.ctrlWrite count (.create name blocksize size capabilities) k)
      (ctrlWrite s count (.create name blocksize size capabilities) k) := by
  by_cases hcount : count < bdtunCommSize
  · rw [ctrlWrite_short s _ k hcount]
    refine .failed ?_ _ (by decide)
    rintro ⟨hlong, -⟩
    omega
  · rw [ctrlWrite_long s _ k (by omega)]
    simp only
    have hcases := create_cases s name blocksize.toNat size.toNat capabilities k
    generalize bdtunCreateK s name blocksize.toNat size.toNat capabilities k = res at hcases
    cases hcases with
    | «exists» hfound =>
      rw [done_error _ _ (by decide)]
      refine .failed (fun h => ?_) _ (by decide)
      rw [h.2.1] at hfound
      cases hfound
    | invalid hf hc =>
      rw [done_error _ _ (by decide)]
      refine .failed (fun h => ?_) _ (by decide)
      rw [createCheck_ok.mpr h.2.2.1] at hc
      cases hc
    | failed hf hc hp code hneg hcode =>
      rw [done_error _ _ hneg]
      refine .failed (fun h => ?_) _ hneg
      have hsome := h.2.2.2.1
      rw [hp] at hsome
      cases hsome
    | noDisk hf hc new queue major chNum hp hgd =>
      rw [done_error _ _ (by decide)]
      have hcut : CutShort s (.ctrlWrite count (.create name blocksize size capabilities) k) :=
        ⟨by omega, hf, createCheck_ok.mp hc, by rw [hp]; rfl, Or.inl hgd⟩
      exact .leaked hcut chNum
    | noWork hf hc hp hgd hw s' =>
      have hcut : CutShort s (.ctrlWrite count (.create name blocksize size capabilities) k) :=
        ⟨by omega, hf, createCheck_ok.mp hc, hp, Or.inr hw⟩
      exact .faulted hcut s'
    | created hf hc new queue major chNum gd w hp hgd hw hnew =>
      rw [done_ok]
      refine .added (fun h => ?_) (newDevice new queue major chNum gd name blocksize.toNat
        size.toNat capabilities) w _ rfl (createTakes_held _ _ _ _ _ _ _ _ _ _ _) rfl
      rcases h.2.2.2.2 with hnone | hnone
      · rw [hgd] at hnone
        cases hnone
      · rw [hw] at hnone
        cases hnone

/-! ## The balance -/

variable {h : CtrlHist} {s : Ctrl}

omit [Kernel] in
/-- Taking one element out of a list by a key that no other has. -/
theorem perm_cons_filter {α β : Type} [DecidableEq β] (f : α → β) {l : List α}
    (hnodup : (l.map f).Nodup) {a : α} (ha : a ∈ l) : l.Perm (a :: l.filter fun b => f b ≠ f a) := by
  induction l with
  | nil => cases ha
  | cons x l ih =>
    rw [List.map_cons, List.nodup_cons] at hnodup
    obtain ⟨hx, hl⟩ := hnodup
    rcases List.mem_cons.mp ha with rfl | hmem
    · have hrest : l.filter (fun b => f b ≠ f a) = l := by
        rw [List.filter_eq_self]
        intro b hb
        have hne : f b ≠ f a := fun heq => hx (heq ▸ List.mem_map_of_mem hb)
        simpa using hne
      rw [List.filter_cons_of_neg (by simp), hrest]
    · have hne : f x ≠ f a := fun heq => hx (heq ▸ List.mem_map_of_mem hmem)
      rw [List.filter_cons_of_pos (by simpa using hne)]
      exact ((ih hl hmem).cons x).trans (.swap a x _)

omit [Kernel] in
theorem Balanced.congr (hb : Balanced s) {s' : Ctrl}
    (hset : s'.deviceList.map Device.resources = s.deviceList.map Device.resources)
    (hq : s'.addDiskQ = s.addDiskQ) (hl : s'.ledger = s.ledger) : Balanced s' := by
  refine ⟨?_, by rw [hl]; exact hb.misfreed⟩
  rw [hl, hb.held, Ctrl.holdings, Ctrl.holdings, hq, List.flatMap_def, List.flatMap_def, hset]

omit [Kernel] in
/-- A write to one device that keeps its numbers and addresses. -/
theorem Balanced.write (hb : Balanced s) (a : Addr) {f : Device → Device}
    (hf : ∀ d, (f d).resources = d.resources) : Balanced (s.update a f) :=
  hb.congr (map_update Device.resources fun d _ => hf d) rfl rfl

omit [Kernel] in
theorem Balanced.add (hb : Balanced s) (new : Device) (w : Addr) {l : ResourceLedger Resource}
    (hheld : l.held = new.takings w + s.ledger.held)
    (hmis : l.misfreed = s.ledger.misfreed) :
    Balanced { s with
      deviceList := s.deviceList ++ [new]
      addDiskQ := s.addDiskQ ++ [⟨w, new.addr⟩]
      ledger := l } := by
  refine ⟨?_, hmis.trans hb.misfreed⟩
  show l.held = _
  rw [hheld, hb.held]
  simp only [Ctrl.holdings, Device.takings, List.flatMap_append, List.flatMap_singleton,
    List.map_append, List.map_cons, List.map_nil, ← Multiset.coe_add, ← Multiset.cons_coe,
    ← Multiset.singleton_add, Multiset.coe_nil]
  abel

omit [Kernel] in
/-- What a removal releases is held, and the rest stays. -/
theorem Balanced.release (hb : Balanced s) (hl : Listed h s) {dev : Device}
    (hd : dev ∈ s.deviceList) :
    Balanced { s with
      deviceList := s.deviceList.filter fun d => d.addr ≠ dev.addr
      ledger := s.ledger.releaseAll dev.resources } ∧
    s.ledger.held = ↑dev.resources + (s.ledger.releaseAll dev.resources).held ∧
    (s.ledger.releaseAll dev.resources).misfreed = s.ledger.misfreed := by
  have hperm := perm_cons_filter Device.addr hl.addrs hd
  have hheld : s.ledger.held = (dev.resources : Multiset Resource) +
      (({ s with deviceList := s.deviceList.filter fun d => d.addr ≠ dev.addr } : Ctrl).holdings :
        Multiset Resource) := by
    rw [hb.held, Multiset.coe_add, Multiset.coe_eq_coe, Ctrl.holdings, Ctrl.holdings,
      ← List.append_assoc]
    refine List.Perm.append_right _ ?_
    rw [← List.flatMap_cons]
    exact hperm.flatMap_right _
  have hrest := ResourceLedger.releaseAll_of_held hheld
  refine ⟨⟨?_, ?_⟩, ?_, ?_⟩
  · show (s.ledger.releaseAll dev.resources).held = _
    rw [hrest]
    rfl
  · show (s.ledger.releaseAll dev.resources).misfreed = []
    rw [hrest]
    exact hb.misfreed
  · rw [hrest]
    exact hheld
  · rw [hrest]

omit [Kernel] in
/-- A work item that has run is freed. -/
theorem Balanced.workDone (hb : Balanced s) (hq : (s.addDiskQ.map AddDiskWork.addr).Nodup)
    {work : AddDiskWork} (hw : work ∈ s.addDiskQ) :
    Balanced { s with
      addDiskQ := s.addDiskQ.filter fun e => e.addr ≠ work.addr
      ledger := s.ledger.release (.workItem work.addr) } := by
  have hheld : s.ledger.held = Resource.workItem work.addr ::ₘ
      (({ s with addDiskQ := s.addDiskQ.filter fun e => e.addr ≠ work.addr } : Ctrl).holdings :
        Multiset Resource) := by
    rw [hb.held, Multiset.cons_coe, Multiset.coe_eq_coe]
    refine List.Perm.trans ?_ List.perm_middle
    refine List.Perm.append_left _ ?_
    exact (perm_cons_filter AddDiskWork.addr hq hw).map _
  have hrest := ResourceLedger.release_of_held hheld
  refine ⟨?_, ?_⟩
  · show (s.ledger.release (.workItem work.addr)).held = _
    rw [hrest]
    rfl
  · show (s.ledger.release (.workItem work.addr)).misfreed = []
    rw [hrest]
    exact hb.misfreed

omit [Kernel] in
/-- A device node too much. -/
theorem not_balanced_leaked (hb : Balanced s) (chNum : Nat) :
    ¬ Balanced { s with ledger := s.ledger.take (.deviceNode chNum) } := by
  intro hafter
  have hheld : Resource.deviceNode chNum ::ₘ s.ledger.held = (s.holdings : Multiset Resource) :=
    hafter.held
  rw [hb.held] at hheld
  have hcard := congrArg Multiset.card hheld
  rw [Multiset.card_cons] at hcard
  omega

/-! ## Every call -/

/-- The queued work items have addresses of their own. -/
theorem run_queue {tr : List (CtrlCall × CtrlRet)} (hrun : Run control ctrlUsers .init tr s) :
    (s.addDiskQ.map AddDiskWork.addr).Nodup := by
  refine hrun.invariant (fun _ s => (s.addDiskQ.map AddDiskWork.addr).Nodup) List.nodup_nil ?_
  intro tr s c hq _ he
  have hok : AnswersOk s c := he.1
  have heff := ctrl_effect s c he.2
  show ((controlNext s c).1.addDiskQ.map AddDiskWork.addr).Nodup
  generalize controlNext s c = res at heff
  cases heff with
  | created count name blocksize size capabilities k new queue major chNum gd w _ _ _ hw =>
    have hfresh : ∀ work ∈ s.addDiskQ, work.addr ≠ w := hok.2 w hw
    show ((s.addDiskQ ++ [AddDiskWork.mk w new]).map AddDiskWork.addr).Nodup
    rw [List.map_append, List.nodup_append']
    refine ⟨hq, List.nodup_singleton _, fun a ha hone => ?_⟩
    obtain ⟨work, hwork, rfl⟩ := List.mem_map.mp ha
    exact hfresh work hwork (List.mem_singleton.mp hone)
  | added w work hw => exact hq.sublist (List.filter_sublist.map _)
  | _ => exact hq

/-- **Every call**, from a balanced state. -/
theorem Balanced.next {tr : List (CtrlCall × CtrlRet)} (hb : Balanced s)
    (hl : Listed (ctrlHist tr) s) (hq : (s.addDiskQ.map AddDiskWork.addr).Nodup) (c : CtrlCall)
    (hr : (controlNext s c).2 ≠ .oops) : Balanced (controlNext s c).1 ↔ ¬ CutShort s c := by
  by_cases hc : ∃ count name blocksize size capabilities k,
      c = .ctrlWrite count (.create name blocksize size capabilities) k
  · obtain ⟨count, name, blocksize, size, capabilities, k, rfl⟩ := hc
    have hcases := create_ledger s count name blocksize size capabilities k
    simp only [controlNext] at hr ⊢
    generalize ctrlWrite s count (.create name blocksize size capabilities) k = res at hr hcases
    cases hcases with
    | failed hcut code hneg => exact iff_of_true hb hcut
    | added hcut new w l hname hheld hmis => exact iff_of_true (hb.add new w hheld hmis) hcut
    | leaked hcut chNum => exact iff_of_false (not_balanced_leaked hb chNum) (not_not.mpr hcut)
    | faulted hcut s' => exact absurd rfl hr
  · have hcut : ¬ CutShort s c := by
      unfold CutShort
      split
      · exact absurd ⟨_, _, _, _, _, _, rfl⟩ hc
      · exact id
    refine iff_of_true ?_ hcut
    have heff := ctrl_effect s c hr
    generalize controlNext s c = res at heff
    cases heff with
    | created count name blocksize size capabilities k new queue major chNum gd w =>
      exact absurd ⟨_, _, _, _, _, _, rfl⟩ hc
    | noDisk count name blocksize size capabilities k new queue major chNum =>
      exact absurd ⟨_, _, _, _, _, _, rfl⟩ hc
    | resized count name size k dev hf => exact hb.write _ fun _ => rfl
    | notResized count name size k dev hf e _ => exact hb.write _ fun _ => rfl
    | removed count name k dev hf _ _ => exact (hb.release hl (find_some hf).1).1
    | opened name k dev hf _ => exact hb.write _ fun _ => rfl
    | going name k dev hf _ code _ => exact hb.write _ fun _ => rfl
    | released name k dev hf b _ _ _ => exact hb.write _ fun _ => rfl
    | added w work hw =>
      have hmem := List.mem_of_find?_eq_some hw
      obtain rfl : work.addr = w := by simpa using List.find?_some hw
      exact Balanced.congr (hb.workDone hq hmem) (map_update Device.resources fun _ _ => rfl) rfl rfl
    | _ => exact hb.congr rfl rfl rfl

omit [Kernel] in
theorem done_ret_ne_oops (count : Nat) (s : Ctrl) (code : Int) :
    (done count (s, .ret code)).2 ≠ .oops := by
  unfold done
  simp only
  split <;> simp

/-- Only a create can fault. -/
theorem write_ne_oops (s : Ctrl) (count : Nat) {c : CtrlCommand} (k : Answers)
    (hc : ∀ name blocksize size capabilities, c ≠ .create name blocksize size capabilities) :
    (ctrlWrite s count c k).2 ≠ .oops := by
  by_cases hcount : count < bdtunCommSize
  · rw [ctrlWrite_short s c k hcount]
    simp
  · rw [ctrlWrite_long s c k (by omega)]
    cases c with
    | create name blocksize size capabilities => exact absurd rfl (hc _ _ _ _)
    | remove name =>
      have hcases := remove_cases s name
      simp only
      generalize bdtunRemoveK s name = res at hcases
      cases hcases <;> exact done_ret_ne_oops _ _ _
    | list offset maxdevices => simp
    | info name =>
      simp only
      split <;> simp
    | resize name size =>
      have hcases := resize_cases s name size.toNat k
      simp only
      generalize bdtunResizeK s name size.toNat k = res at hcases
      cases hcases <;> exact done_ret_ne_oops _ _ _
    | other command => simp

/-- Only creates and removes touch the ledger. -/
theorem write_ledger (s : Ctrl) (count : Nat) {c : CtrlCommand} (k : Answers)
    (hc : ∀ name blocksize size capabilities, c ≠ .create name blocksize size capabilities)
    (hremove : ∀ name, c ≠ .remove name) : (ctrlWrite s count c k).1.ledger = s.ledger := by
  have heff := write_effect s count c k (write_ne_oops s count k hc)
  generalize ctrlWrite s count c k = res at heff
  cases heff with
  | created count name blocksize size capabilities => exact absurd rfl (hc _ _ _ _)
  | noDisk count name blocksize size capabilities => exact absurd rfl (hc _ _ _ _)
  | removed count name => exact absurd rfl (hremove _)
  | _ => rfl

/-- **Every command**, from a balanced state. -/
theorem Balanced.settles {tr : List (CtrlCall × CtrlRet)} (hb : Balanced s)
    (hl : Listed (ctrlHist tr) s) (count : Nat) (c : CtrlCommand) (k : Answers) :
    Settles s c (ctrlWrite s count c k) ↔ ¬ CutShort s (.ctrlWrite count c k) := by
  have hquiet := fun hc hremove =>
    And.intro (write_ne_oops s count (c := c) k hc) (write_ledger s count (c := c) k hc hremove)
  cases c with
  | create name blocksize size capabilities =>
    have hcases := create_ledger s count name blocksize size capabilities k
    generalize ctrlWrite s count (.create name blocksize size capabilities) k = res at hcases
    cases hcases with
    | failed hcut code hneg => exact iff_of_true (Or.inl ⟨code, hneg, rfl, rfl⟩) hcut
    | added hcut new w l hname hheld hmis =>
      exact iff_of_true (Or.inr ⟨new, w, ⟨count, rfl⟩, hname, rfl, rfl, hheld, hmis⟩) hcut
    | leaked hcut chNum =>
      refine iff_of_false ?_ (not_not.mpr hcut)
      rintro (⟨code, -, -, hledger⟩ | ⟨new, w, ⟨count, hwrote⟩, -⟩)
      · have hcard := congrArg (fun l => Multiset.card l.held) hledger
        simp at hcard
      · cases hwrote
    | faulted hcut s' =>
      refine iff_of_false ?_ (not_not.mpr hcut)
      rintro (⟨code, -, hret, -⟩ | ⟨new, w, ⟨count, hwrote⟩, -⟩)
      · cases hret
      · cases hwrote
  | remove name =>
    refine iff_of_true ?_ id
    have heff := write_effect s count (.remove name) k (write_ne_oops s count k (by simp))
    generalize ctrlWrite s count (.remove name) k = res at heff
    cases heff with
    | refused count c k code hneg => exact Or.inl ⟨code, hneg, rfl, rfl⟩
    | removed count name k dev hf _ _ =>
      obtain ⟨hd, hname⟩ := find_some hf
      obtain ⟨-, hheld, hmis⟩ := hb.release hl hd
      refine Or.inr ⟨dev, hd, ⟨count, rfl⟩, hname, ?_, hheld, hmis⟩
      simp
    | answered count c k hc => cases hc
    | missed name h c hc hf => simp at hc
  | list offset maxdevices => exact iff_of_true (hquiet (by simp) (by simp)) id
  | info name => exact iff_of_true (hquiet (by simp) (by simp)) id
  | resize name size => exact iff_of_true (hquiet (by simp) (by simp)) id
  | other command => exact iff_of_true (hquiet (by simp) (by simp)) id

omit [Kernel] in
theorem balanced_init : Balanced .init := ⟨rfl, rfl⟩

/-- What creates and removes are expected to keep, in every run. -/
def NothingLost : Prop :=
  ∀ tr s, Run control ctrlUsers .init tr s → Balanced s ∧
    ∀ count c k, AnswersOk s (.ctrlWrite count c k) → Settles s c (ctrlWrite s count c k)

/-- **Resources.**  In every run, what is held all along is one full set for each listed device and the
queued work items, exactly when no create was cut short.  From a state where it is so, a failed
create gives back what it took, a successful one takes a full set and a work item, and a successful
remove releases the set of its device, exactly when the command is not a create cut short; that one
leaves its device node behind or writes through `NULL`. -/
theorem resource_ledger {tr : List (CtrlCall × CtrlRet)} (hrun : Run control ctrlUsers .init tr s) :
    (AllStates control ctrlUsers .init Balanced tr ↔
      AllSteps control ctrlUsers .init (fun s c => ¬ CutShort s c) tr) ∧
    (Balanced s → ∀ count c k,
      (Settles s c (ctrlWrite s count c k) ↔ ¬ CutShort s (.ctrlWrite count c k))) := by
  have hlisted := fun {tr s} (hrun : Run control ctrlUsers .init tr s) =>
    run_listed (fun _ _ h => h) hrun
  refine ⟨Run.allStates_iff balanced_init ?_ hrun, fun hb count c k => ?_⟩
  · intro tr s c hrun _ he hb
    exact hb.next (hlisted hrun) (run_queue hrun) c he.2
  · exact hb.settles (hlisted hrun) count c k

end

section
attribute [local instance] linux32

/-- The first create finds no memory for a disk. -/
theorem create_leaks : ¬ NothingLost := by
  intro h
  have hrun := @path_exec _ _ _ control ctrlUsers [] .init [.ctrlOpen, .ctrlWrite 64
    (.create sampleName 512 1024 0) { sampleAnswers with allocDisk := none }] (by decide)
  have hheld := (h _ _ hrun).1.held
  have hone : Resource.deviceNode 262144000 ∈ (exec control .init [.ctrlOpen, .ctrlWrite 64
      (.create sampleName 512 1024 0) { sampleAnswers with allocDisk := none }]).ledger.held := by
    decide
  rw [hheld] at hone
  exact absurd hone (by decide)

/-- A device is created and its disk added; and a create whose disk cannot be allocated would leave
its device node behind. -/
theorem resource_ledger_sample :
    let calls := sampleCreate ++ [.addDisk 16384]
    let other : DiskName := ⟨[98], by decide, by decide⟩
    AllStates control ctrlUsers .init Balanced (traceOf control .init calls) ∧
      ¬ Settles (exec control .init calls) (.create other 512 1024 0)
        (ctrlWrite (exec control .init calls) 64 (.create other 512 1024 0)
          { sampleAnswers with allocDisk := none }) := by
  intro calls other
  have hrun := @path_exec _ _ _ control ctrlUsers [] .init calls (by decide)
  have hbalanced : AllStates control ctrlUsers .init Balanced (traceOf control .init calls) := by
    refine (resource_ledger hrun).1.mpr (allSteps_exec calls ⟨id, ?_, id, trivial⟩)
    rintro ⟨-, -, -, -, hdisk | hwork⟩
    · cases hdisk
    · cases hwork
  refine ⟨hbalanced, fun hsettles => ?_⟩
  have hnow : Balanced (exec control .init calls) := hbalanced _ [] _ (by simp) hrun
  exact ((resource_ledger hrun).2 hnow _ _ _).mp hsettles
    ⟨by decide, by decide, createCheck_ok.mp rfl, by decide, Or.inl rfl⟩

end

end BDTun
