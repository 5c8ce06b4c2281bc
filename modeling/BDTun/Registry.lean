import BDTun.Lib.OrderedMap
import BDTun.Sizes

/-!
# The control plane is a finite map

`Registry` is what an administrator sees: an insertion-ordered map from names to
block size, size and capabilities.  `Registry.apply` says what a successful
command makes of it, `replay` what the commands of a history made of it, and
`Acts` when a command succeeds and how it is refused.

* `run_represents`: in every run `device_list` is the list of entries of `replay`.
* `control_plane`: and every command acts as the map says, exactly when it is not
  a create that goes through all its steps and gets no work item.
-/

namespace BDTun

open Machine

structure Entry where
  blockSize : Nat
  size : Nat
  capabilities : BitVec 32
deriving DecidableEq

abbrev Registry := OrderedMap DiskName Entry

/-- What a command makes of the registry when it succeeds. -/
def Registry.apply (m : Registry) : CtrlCommand → Registry
  | .create name blocksize size capabilities =>
    m.append name ⟨blocksize.toNat, size.toNat, capabilities⟩
  | .remove name => m.erase name
  | .resize name size => m.modify name fun e => { e with size := size.toNat }
  | .list _ _ => m
  | .info _ => m
  | .other _ => m

/-- What the successful commands of a history made of it. -/
def replay (tr : List (CtrlCall × CtrlRet)) : Registry :=
  tr.foldl (fun m e => match e with
    | (.ctrlWrite _ c _, .wrote _ _) => m.apply c
    | _ => m) .empty

/-- The name a command is about. -/
def CtrlCommand.name? : CtrlCommand → Option DiskName
  | .create name _ _ _ => some name
  | .remove name => some name
  | .info name => some name
  | .resize name _ => some name
  | .list _ _ => none
  | .other _ => none

/-- A command leaves the other names alone. -/
theorem Registry.apply_other (m : Registry) (c : CtrlCommand) {n : DiskName}
    (h : c.name? ≠ some n) : (m.apply c).lookup n = m.lookup n := by
  cases c with
  | create name blocksize size capabilities =>
    exact m.lookup_append_of_ne _ fun hn => h (congrArg some hn.symm)
  | remove name => exact m.lookup_erase_of_ne fun hn => h (congrArg some hn.symm)
  | resize name size => exact m.lookup_modify_of_ne _ fun hn => h (congrArg some hn.symm)
  | list offset maxdevices => rfl
  | info name => rfl
  | other command => rfl

section
variable [Kernel]

/-- How a well-formed command acts on the registry `m`, of whose names some are busy: what it
answers, and the registry `m'` it leaves. -/
def Acts (m : Registry) (busy : DiskName → Prop) (count : Nat) (c : CtrlCommand) (r : CtrlRet)
    (m' : Registry) : Prop :=
  (∀ n, c.name? ≠ some n → m'.lookup n = m.lookup n) ∧
  match c with
  | .create name blocksize size _ =>
    (r = .ret (-eexist) ↔ name ∈ m.keys) ∧
    (name ∉ m.keys → (r = .ret (-einval) ↔ ¬ GoodSizes blocksize.toNat size.toNat)) ∧
    (r = .wrote count [] ∧ m' = m.apply c ∨ ∃ code < 0, r = .ret code ∧ m' = m)
  | .remove name =>
    (r = .ret (-enoent) ↔ name ∉ m.keys) ∧
    (name ∈ m.keys → (r = .ret (-ebusy) ↔ busy name)) ∧
    (name ∈ m.keys → ¬ busy name → r = .wrote count [] ∧ m' = m.apply c) ∧
    (name ∉ m.keys ∨ busy name → m' = m)
  | .resize name _ =>
    (r = .ret (-enoent) ↔ name ∉ m.keys) ∧
    (r = .wrote count [] ∧ m' = m.apply c ∨ ∃ code < 0, r = .ret code ∧ m' = m)
  | .info name =>
    m' = m ∧ (r = .ret (-enoent) ↔ name ∉ m.keys) ∧
    ∀ e, m.lookup name = some e → ∃ info stack, r = .wrote count (BdtunInfo.bytes info stack) ∧
      info.bdBlockSize = e.blockSize ∧ info.bdSize = e.size ∧ info.capabilities = e.capabilities
  | .list _ _ => m' = m ∧ ∃ response, r = .wrote count response
  | .other _ => m' = m ∧ r = .ret (-eio)

/-! ## The list represents the map -/

def Device.entry (d : Device) : DiskName × Entry :=
  (d.diskName, ⟨d.bdBlockSize, d.bdSize, d.capabilities⟩)

def Represents (s : Ctrl) (m : Registry) : Prop := m.entries = s.deviceList.map Device.entry

variable {h : CtrlHist} {s : Ctrl} {m : Registry}

omit [Kernel] in
theorem Represents.lookup (hr : Represents s m) (name : DiskName) :
    m.lookup name = (bdtunFindDevice s.deviceList name).map fun d => d.entry.2 := by
  rw [OrderedMap.lookup, hr, List.find?_map, Option.map_map]
  rfl

omit [Kernel] in
theorem Represents.notMem_keys (hr : Represents s m) (name : DiskName) :
    name ∉ m.keys ↔ bdtunFindDevice s.deviceList name = none := by
  rw [← OrderedMap.lookup_eq_none, hr.lookup, Option.map_eq_none_iff]

omit [Kernel] in
theorem Represents.mem_keys (hr : Represents s m) {name : DiskName} {dev : Device}
    (hf : bdtunFindDevice s.deviceList name = some dev) : name ∈ m.keys := by
  by_contra hn
  rw [hr.notMem_keys, hf] at hn
  cases hn

omit [Kernel] in
/-- A step that leaves name, block size, size and capabilities of each device as they are. -/
theorem Represents.congr (hr : Represents s m) {s' : Ctrl}
    (hsame : s'.deviceList.map Device.entry = s.deviceList.map Device.entry) : Represents s' m :=
  Eq.trans hr hsame.symm

omit [Kernel] in
theorem Represents.append (hr : Represents s m) (new : Device) {s' : Ctrl}
    (hlist : s'.deviceList = s.deviceList ++ [new])
    (hname : bdtunFindDevice s.deviceList new.diskName = none) :
    Represents s' (m.append new.diskName new.entry.2) := by
  rw [Represents, OrderedMap.entries_append_of_notMem _ ((hr.notMem_keys _).mpr hname), hlist,
    List.map_append, ← hr]
  rfl

omit [Kernel] in
theorem Represents.erase (hr : Represents s m) (hl : Listed h s) {dev : Device}
    (hd : dev ∈ s.deviceList) {s' : Ctrl}
    (hlist : s'.deviceList = s.deviceList.filter fun d => d.addr ≠ dev.addr) :
    Represents s' (m.erase dev.diskName) := by
  -- the device at that address is the device of that name
  have hsame : ∀ d ∈ s.deviceList, (d.addr ≠ dev.addr ↔ d.diskName ≠ dev.diskName) := by
    intro d hmem
    refine not_congr ⟨fun ha => ?_, fun hn => ?_⟩
    · rw [hl.eq_of_addr hmem hd ha]
    · rw [hl.eq_of_name hmem hd hn]
  have hfilter : (s.deviceList.filter fun d => d.addr ≠ dev.addr) =
      s.deviceList.filter fun d => d.diskName ≠ dev.diskName :=
    List.filter_congr fun d hmem => decide_eq_decide.mpr (hsame d hmem)
  rw [Represents, hlist, hfilter, OrderedMap.entries_erase, hr, List.filter_map]
  rfl

omit [Kernel] in
theorem Represents.resize (hr : Represents s m) (hl : Listed h s) {dev : Device}
    (hd : dev ∈ s.deviceList) (size : Nat) :
    Represents (s.update dev.addr fun d => d.resized size)
      (m.modify dev.diskName fun e => { e with size := size }) := by
  rw [Represents, OrderedMap.entries_modify, hr, Ctrl.update, List.map_map, List.map_map]
  refine List.map_congr_left ?_
  intro d hmem
  show (if d.diskName = dev.diskName then _ else _) =
    Device.entry (if d.addr = dev.addr then _ else _)
  by_cases hn : d.diskName = dev.diskName
  · have ha : d.addr = dev.addr := by rw [hl.eq_of_name hmem hd hn]
    rw [if_pos hn, if_pos ha]
    rfl
  · have ha : d.addr ≠ dev.addr := fun ha => hn (by rw [hl.eq_of_addr hmem hd ha])
    rw [if_neg hn, if_neg ha]

omit [Kernel] in
/-- A write to one device that leaves its entry alone. -/
theorem Represents.write (hr : Represents s m) (a : Addr) {f : Device → Device}
    (hf : ∀ d ∈ s.deviceList, d.addr = a → (f d).entry = d.entry) :
    Represents (s.update a f) m := by
  refine hr.congr ?_
  rw [Ctrl.update, List.map_map]
  refine List.map_congr_left ?_
  intro d hd
  simp only [Function.comp]
  split
  · next ha => exact hf d hd ha
  · rfl

omit [Kernel] in
theorem replay_snoc (tr : List (CtrlCall × CtrlRet)) (e : CtrlCall × CtrlRet) :
    replay (tr ++ [e]) = match e with
      | (.ctrlWrite _ c _, .wrote _ _) => (replay tr).apply c
      | _ => replay tr := by
  simp [replay]

/-- **Every call** changes the list as the history changes the registry. -/
theorem Represents.next {tr : List (CtrlCall × CtrlRet)} (hr : Represents s (replay tr))
    (hl : Listed (ctrlHist tr) s) (c : CtrlCall) (hok : (controlNext s c).2 ≠ .oops) :
    Represents (controlNext s c).1 (replay (tr ++ [(c, (controlNext s c).2)])) := by
  have heff := ctrl_effect s c hok
  generalize controlNext s c = res at heff
  rw [replay_snoc]
  cases heff with
  | session hlock => exact hr
  | busy hlock => exact hr
  | closed => exact hr
  | refused count c k code hneg => exact hr
  | noDisk count name blocksize size capabilities k new queue major chNum _ _ _ => exact hr
  | created count name blocksize size capabilities k new queue major chNum gd w hf _ _ _ =>
    exact hr.append (newDevice new queue major chNum gd name _ _ capabilities) rfl hf
  | resized count name size k dev hf =>
    obtain ⟨hd, rfl⟩ := find_some hf
    exact hr.resize hl hd size.toNat
  | notResized count name size k dev hf e _ => exact hr.write _ fun _ _ _ => rfl
  | removed count name k dev hf _ _ =>
    obtain ⟨hd, rfl⟩ := find_some hf
    exact hr.erase hl hd rfl
  | answered count c k hc buf size response _ =>
    cases c with
    | list offset maxdevices => exact hr
    | info name => exact hr
    | create name blocksize size capabilities => cases hc
    | remove name => cases hc
    | resize name size => cases hc
    | other command => cases hc
  | read count valid size r => exact hr
  | opened name k dev hf _ =>
    refine hr.write _ ?_
    intro d hd ha
    rw [hl.eq_of_addr hd (find_some hf).1 ha]
    rfl
  | going name k dev hf hrem code hcode =>
    obtain ⟨hd, -⟩ := find_some hf
    exact absurd hrem (hl.not_going hd)
  | released name k dev hf b _ _ hsizes =>
    refine hr.write _ ?_
    intro d hd ha
    rw [hl.eq_of_addr hd (find_some hf).1 ha]
    simp only [Device.entry, Device.withBdtun, hsizes.bdBlockSize, hsizes.bdSize]
  | missed name k c hc hf =>
    rcases hc with rfl | rfl
    · exact hr
    · exact hr
  | added w work hw =>
    exact (hr.write work.dev fun _ _ _ => rfl :
      Represents (s.update work.dev fun d => { d with addDiskFinished := true }) (replay tr))

theorem run_represents {tr : List (CtrlCall × CtrlRet)}
    (hrun : Run control ctrlUsers .init tr s) : Represents s (replay tr) := by
  refine hrun.keeps (fun tr s => Represents s (replay tr)) ?_ ?_
  · rfl
  · intro tr s c hrun hr _ he
    exact hr.next (run_listed (fun _ _ h => h) hrun) c he.2

/-! ## How commands act -/

/-- The device of this name is in use, or is being removed already. -/
def Busy (tr : List (CtrlCall × CtrlRet)) (s : Ctrl) (name : DiskName) : Prop :=
  (∃ k, (name, k) ∈ (ctrlHist tr).handles) ∨
    ∃ d ∈ s.deviceList, d.diskName = name ∧ d.removing = true

/-- A create that is accepted and for which every call succeeds but the last allocation. -/
def NoWorkItem (s : Ctrl) (k : Answers) : CtrlCommand → Prop
  | .create name blocksize size _ =>
    bdtunFindDevice s.deviceList name = none ∧ GoodSizes blocksize.toNat size.toNat ∧
      k.parts.isSome = true ∧ k.allocDisk.isSome = true ∧ k.kmallocWork = none
  | _ => False

omit [Kernel] in
theorem Listed.busy {tr : List (CtrlCall × CtrlRet)} (hl : Listed (ctrlHist tr) s) {dev : Device}
    (hd : dev ∈ s.deviceList) : Busy tr s dev.diskName ↔ dev.ucnt ≠ 0 := by
  have hcount : dev.ucnt ≠ 0 ↔ 0 < (ctrlHist tr).users dev.diskName := by
    rw [hl.count dev hd]
    omega
  rw [hcount, CtrlHist.users, List.countP_pos_iff]
  constructor
  · rintro (⟨k, hk⟩ | ⟨d, hmem, -, hrem⟩)
    · exact ⟨_, hk, by simp⟩
    · exact absurd hrem (hl.not_going hmem)
  · rintro ⟨⟨n, k⟩, hk, hn⟩
    obtain rfl : n = dev.diskName := by simpa using hn
    exact Or.inl ⟨k, hk⟩

variable {tr : List (CtrlCall × CtrlRet)}

/-- A create acts on the map as it should unless it gets no work item, where it faults. -/
theorem create_acts (hr : Represents s m) {busy : DiskName → Prop} (count : Nat)
    (name : DiskName) (blocksize size : UInt64) (capabilities : BitVec 32) (k : Answers) :
    (∃ m', Represents (done count
        (bdtunCreateK s name blocksize.toNat size.toNat capabilities k)).1 m' ∧
      Acts m busy count (.create name blocksize size capabilities)
        (done count (bdtunCreateK s name blocksize.toNat size.toNat capabilities k)).2 m') ↔
      ¬ NoWorkItem s k (.create name blocksize size capabilities) := by
  have hcases := create_cases s name blocksize.toNat size.toNat capabilities k
  generalize bdtunCreateK s name blocksize.toNat size.toNat capabilities k = res at hcases
  have habsent := hr.notMem_keys name
  -- a refusal that leaves the list: the two error codes, and the two conditions
  have hrefused : ∀ (s' : Ctrl) (code : Int), Represents s' m → code < 0 →
      (code = -eexist ↔ name ∈ m.keys) →
      (name ∉ m.keys → (code = -einval ↔ ¬ GoodSizes blocksize.toNat size.toNat)) →
      ∃ m', Represents s' m' ∧
        Acts m busy count (.create name blocksize size capabilities) (.ret code) m' := by
    intro s' code hrep hneg hexist hinval
    refine ⟨m, hrep, fun _ _ => rfl, ?_, fun hn => ?_, Or.inr ⟨code, hneg, rfl, rfl⟩⟩
    · rw [← hexist, CtrlRet.ret.injEq]
    · rw [← hinval hn, CtrlRet.ret.injEq]
  cases hcases with
  | «exists» hfound =>
    rw [done_error _ _ (by decide)]
    have hmem : name ∈ m.keys := by
      obtain ⟨dev, hf⟩ := Option.isSome_iff_exists.mp hfound
      exact hr.mem_keys hf
    refine iff_of_true (hrefused s _ hr (by decide) (iff_of_true rfl hmem) ?_) ?_
    · exact fun hn => absurd hmem hn
    · rintro ⟨hf, -⟩
      rw [hf] at hfound
      cases hfound
  | invalid hf hc =>
    rw [done_error _ _ (by decide)]
    have hbad : ¬ GoodSizes blocksize.toNat size.toNat := by
      rw [← createCheck_ok, hc]
      simp
    refine iff_of_true (hrefused s _ hr (by decide) ?_ ?_) fun hno => hbad hno.2.1
    · exact iff_of_false (by decide) (habsent.mpr hf)
    · exact fun _ => iff_of_true rfl hbad
  | failed hf hc hp code hneg hcode =>
    rw [done_error _ _ hneg]
    refine iff_of_true (hrefused s _ hr hneg ?_ ?_) ?_
    · exact iff_of_false hcode.1 (habsent.mpr hf)
    · exact fun _ => iff_of_false hcode.2 (not_not.mpr (createCheck_ok.mp hc))
    · rintro ⟨-, -, hsome, -⟩
      rw [hp] at hsome
      cases hsome
  | noDisk hf hc new queue major chNum hp hgd =>
    rw [done_error _ _ (by decide)]
    refine iff_of_true (hrefused _ _ hr (by decide) ?_ ?_) ?_
    · exact iff_of_false (by decide) (habsent.mpr hf)
    · exact fun _ => iff_of_false (by decide) (not_not.mpr (createCheck_ok.mp hc))
    · rintro ⟨-, -, -, hsome, -⟩
      rw [hgd] at hsome
      cases hsome
  | noWork hf hc hp hgd hw s' =>
    refine iff_of_false ?_ (not_not.mpr ⟨hf, createCheck_ok.mp hc, hp, hgd, hw⟩)
    rintro ⟨m', -, -, -, -, ⟨hwrote, -⟩ | ⟨code, -, hret, -⟩⟩
    · cases hwrote
    · cases hret
  | created hf hc new queue major chNum gd w hp hgd hw hnew =>
    rw [done_ok]
    refine iff_of_true ⟨_, hr.append (newDevice new queue major chNum gd name blocksize.toNat
      size.toNat capabilities) rfl hf, ?_⟩ ?_
    · refine ⟨fun n hn => m.apply_other (.create name blocksize size capabilities) hn, ?_, ?_,
        Or.inl ⟨rfl, rfl⟩⟩
      · exact iff_of_false (by simp) (habsent.mpr hf)
      · exact fun _ => iff_of_false (by simp) (not_not.mpr (createCheck_ok.mp hc))
    · rintro ⟨-, -, -, -, hnone⟩
      rw [hw] at hnone
      cases hnone

theorem remove_acts (hr : Represents s m) (hl : Listed (ctrlHist tr) s) (count : Nat)
    (name : DiskName) :
    ∃ m', Represents (done count (bdtunRemoveK s name)).1 m' ∧
      Acts m (Busy tr s) count (.remove name) (done count (bdtunRemoveK s name)).2 m' := by
  have hcases := remove_cases s name
  generalize bdtunRemoveK s name = res at hcases
  cases hcases with
  | absent hf =>
    have habsent := (hr.notMem_keys name).mpr hf
    rw [done_error _ _ (by decide)]
    exact ⟨m, hr, fun _ _ => rfl, iff_of_true rfl habsent, fun hn => absurd hn habsent,
      fun hn => absurd hn habsent, fun _ => rfl⟩
  | busy dev hf hwhy =>
    have hmem := hr.mem_keys hf
    obtain ⟨hd, rfl⟩ := find_some hf
    have hused : Busy tr s dev.diskName := (hl.busy hd).mpr (hwhy.resolve_left (hl.not_going hd))
    rw [done_error _ _ (by decide)]
    exact ⟨m, hr, fun _ _ => rfl, iff_of_false (by simp [ebusy, enoent]) (not_not.mpr hmem),
      fun _ => iff_of_true rfl hused, fun _ hfree => absurd hused hfree, fun _ => rfl⟩
  | removed dev hf hrem hu =>
    have hmem := hr.mem_keys hf
    obtain ⟨hd, rfl⟩ := find_some hf
    have hfree : ¬ Busy tr s dev.diskName := fun hused => (hl.busy hd).mp hused hu
    rw [done_ok]
    refine ⟨m.erase dev.diskName, hr.erase hl hd rfl,
      fun n hn => m.apply_other (.remove dev.diskName) hn,
      iff_of_false (by simp) (not_not.mpr hmem), fun _ => iff_of_false (by simp) hfree,
      fun _ _ => ⟨rfl, rfl⟩, ?_⟩
    rintro (habsent | hused)
    · exact absurd hmem habsent
    · exact absurd hused hfree

theorem resize_acts (hr : Represents s m) (hl : Listed (ctrlHist tr) s)
    {busy : DiskName → Prop} (count : Nat) (name : DiskName) (size : UInt64) (k : Answers) :
    ∃ m', Represents (done count (bdtunResizeK s name size.toNat k)).1 m' ∧
      Acts m busy count (.resize name size) (done count (bdtunResizeK s name size.toNat k)).2 m' := by
  have hcases := resize_cases s name size.toNat k
  generalize bdtunResizeK s name size.toNat k = res at hcases
  cases hcases with
  | absent hf =>
    rw [done_error _ _ (by decide)]
    exact ⟨m, hr, fun _ _ => rfl, iff_of_true rfl ((hr.notMem_keys name).mpr hf),
      Or.inr ⟨_, by decide, rfl, rfl⟩⟩
  | failed dev hf e he =>
    have hmem := hr.mem_keys hf
    rw [done_error _ _ e.neg]
    refine ⟨m, hr.write _ fun _ _ _ => rfl, fun _ _ => rfl, ?_, Or.inr ⟨_, e.neg, rfl, rfl⟩⟩
    refine iff_of_false ?_ (not_not.mpr hmem)
    intro hcode
    exact e.foreign.1 (CtrlRet.ret.inj hcode)
  | resized dev hf hok =>
    have hmem := hr.mem_keys hf
    obtain ⟨hd, rfl⟩ := find_some hf
    rw [done_ok]
    exact ⟨_, hr.resize hl hd size.toNat,
      fun n hn => m.apply_other (.resize dev.diskName size) hn,
      iff_of_false (by simp) (not_not.mpr hmem), Or.inl ⟨rfl, rfl⟩⟩

theorem info_acts (hr : Represents s m) {busy : DiskName → Prop} {count : Nat}
    (hcount : bdtunCommSize ≤ count) (name : DiskName) (k : Answers) :
    ∃ m', Represents (ctrlWrite s count (.info name) k).1 m' ∧
      Acts m busy count (.info name) (ctrlWrite s count (.info name) k).2 m' := by
  rw [ctrlWrite_long s (.info name) k hcount]
  simp only [bdtunInfoK]
  have hlookup := hr.lookup name
  cases hf : bdtunFindDevice s.deviceList name with
  | none =>
    have habsent := (hr.notMem_keys name).mpr hf
    refine ⟨m, hr, fun _ _ => rfl, rfl, iff_of_true rfl habsent, ?_⟩
    intro e he
    rw [hlookup, hf] at he
    cases he
  | some dev =>
    have hmem := hr.mem_keys hf
    refine ⟨m, hr.congr rfl, fun _ _ => rfl, rfl, iff_of_false (by simp) (not_not.mpr hmem), ?_⟩
    intro e he
    rw [hlookup, hf] at he
    obtain rfl : dev.entry.2 = e := Option.some.inj he
    exact ⟨_, _, rfl, rfl, rfl, rfl⟩

/-- **The control plane refines the map.**  In every run the names on `device_list` are distinct and
the list is the registry that the successful commands of the history made.  Every well-formed command
acts on it as `Acts` says, exactly when it is not an accepted create for which all calls succeed but
the allocation of the work item; that one faults. -/
theorem control_plane (hrun : Run control ctrlUsers .init tr s) :
    (s.deviceList.map Device.diskName).Nodup ∧ Represents s (replay tr) ∧
    ∀ count c k, bdtunCommSize ≤ count →
      ((∃ m', Represents (ctrlWrite s count c k).1 m' ∧
          Acts (replay tr) (Busy tr s) count c (ctrlWrite s count c k).2 m') ↔
        ¬ NoWorkItem s k c) := by
  have hl : Listed (ctrlHist tr) s := run_listed (fun _ _ h => h) hrun
  have hr := run_represents hrun
  refine ⟨hl.names, hr, fun count c k hcount => ?_⟩
  rw [ctrlWrite_long s c k hcount]
  cases c with
  | create name blocksize size capabilities =>
    exact create_acts hr count name blocksize size capabilities k
  | remove name => exact iff_of_true (remove_acts hr hl count name) id
  | resize name size => exact iff_of_true (resize_acts hr hl count name size k) id
  | list offset maxdevices =>
    exact iff_of_true ⟨replay tr, hr.congr rfl, fun _ _ => rfl, rfl, _, rfl⟩ id
  | other command => exact iff_of_true ⟨replay tr, hr, fun _ _ => rfl, rfl, rfl⟩ id
  | info name =>
    have hacts := @info_acts _ s (replay tr) hr (Busy tr s) count hcount name k
    rw [ctrlWrite_long s (.info name) k hcount] at hacts
    exact iff_of_true hacts id

/-- What the commands are expected to do, in every run. -/
def ActsAsMap : Prop :=
  ∀ tr s, Run control ctrlUsers .init tr s → ∀ count c k, bdtunCommSize ≤ count →
    ∃ m', Represents (ctrlWrite s count c k).1 m' ∧
      Acts (replay tr) (Busy tr s) count c (ctrlWrite s count c k).2 m'

end

section
attribute [local instance] linux32

/-- The first create, with no memory left for its work item. -/
theorem create_faults : ¬ ActsAsMap := by
  intro h
  have hrun := @path_exec _ _ _ control ctrlUsers [] .init [.ctrlOpen] (by decide)
  obtain ⟨m', -, -, -, -, ⟨hwrote, -⟩ | ⟨code, -, hret, -⟩⟩ :=
    h _ _ hrun 64 (.create sampleName 512 1024 0) { sampleAnswers with kmallocWork := none }
      (by decide)
  · exact absurd hwrote (by decide)
  · have hoops : (ctrlWrite (exec control .init [.ctrlOpen]) 64 (.create sampleName 512 1024 0)
        { sampleAnswers with kmallocWork := none }).2 = .oops := by decide
    rw [hoops] at hret
    cases hret

/-- After a create, the device is on the list with what it was given. -/
theorem control_plane_sample :
    Represents (exec control .init sampleCreate) (replay (traceOf control .init sampleCreate)) := by
  have hrun := @path_exec _ _ _ control ctrlUsers [] .init sampleCreate (by decide)
  exact (control_plane hrun).2.1

end

end BDTun
