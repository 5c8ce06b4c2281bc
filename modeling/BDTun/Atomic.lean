import BDTun.Names

/-!
# What a command that fails leaves behind

Every early return of a command comes before its first change of the device list
or the response, but for one: a resize sets the capacity first and then asks
`revalidate_disk`.

* `setCapacity_self`: when setting a capacity changes nothing.
* `raw_create_error`: a create that fails, of a name that does not end, too.
* `failed_command`: a command that fails changes nothing, exactly when it is not a
  resize to another number of sectors that is refused by `revalidate_disk`.
-/

namespace BDTun

open Memory Machine

section
variable [Kernel]

/-- The list, with all that is in its devices, and the response. -/
structure Unchanged (s t : Ctrl) : Prop where
  devices : t.deviceList = s.deviceList
  responseBuf : t.ctrlResponseBuf = s.ctrlResponseBuf
  responseSize : t.ctrlResponseSize = s.ctrlResponseSize

/-- A resize of a listed device to another number of sectors, refused by `revalidate_disk`. -/
def Halfway (s : Ctrl) (packet : List UInt8) (k : Answers) : Prop :=
  bdtunCommSize ≤ packet.length ∧ ∃ name size dev e, decode packet = some (.resize name size) ∧
    bdtunFindDevice s.deviceList name = some dev ∧ k.revalidateDisk = .error e ∧
    dev.bdGd.capacity ≠ size.toNat / kernelSectorSize

omit [Kernel] in
/-- The calls of a create fail with errors. -/
theorem createCalls_error {l l' : ResourceLedger Resource} {k : Answers} {code : Int}
    (h : createCalls l k = .error (l', code)) : code < 0 := by
  have henomem : -enomem < 0 := by decide
  have hfail : ∀ {l₁ : ResourceLedger Resource} {code₁ : Int}, code₁ < 0 →
      (Except.error (l₁, code₁) : Except (ResourceLedger Resource × Int)
        (Nat × Nat × Nat × Nat × Nat × ResourceLedger Resource)) = .error (l', code) → code < 0 := by
    intro l₁ code₁ hneg heq
    rw [← (Prod.mk.inj (Except.error.inj heq)).2]
    exact hneg
  rcases k with ⟨new, queue, major, chNum, cdev, node, gd, w, revalidate, stack⟩
  unfold createCalls at h
  cases new with
  | none => exact hfail henomem h
  | some new =>
    cases queue with
    | none => exact hfail henomem h
    | some queue =>
      cases major with
      | error e => exact hfail e.neg h
      | ok major =>
        cases chNum with
        | error e => exact hfail e.neg h
        | ok chNum =>
          cases cdev with
          | error e => exact hfail e.neg h
          | ok u =>
            cases node with
            | false => exact hfail henomem h
            | true =>
              cases gd with
              | none => exact hfail henomem h
              | some gd => cases h

/-- A create of a name that does not end fails before it gets to the list, or leaves the field. -/
theorem raw_create_error {s t : Ctrl} {packet : List UInt8} {k : Answers} {frame : CreateFrame}
    {r : CtrlRet} (h : bdtunCommSize ≤ packet.length) (hc : decode packet = none)
    (hcreates : Creates packet) (hw : Raw.ctrlWrite s packet k frame = some (t, r)) :
    Unchanged s t := by
  obtain ⟨hhead, hcheck⟩ := hcreates
  have hlen := length_packetName h (show 20 ≤ 20 by decide)
  have hpos := bdtunCommSize_pos
  have hnone : 0 ∉ packetName packet 20 := by
    rcases field_cases hlen with ⟨n, rest, hfield⟩ | hnone
    · unfold decode at hc
      rw [if_pos hhead, hfield, DiskName.read_string] at hc
      cases hc
    · exact hnone
  unfold Raw.ctrlWrite Raw.bdtunCreateK at hw
  rw [Raw.find_endless _ hlen hnone, hcheck, copyDiskName_endless hnone] at hw
  simp only [if_neg (show ¬ packet.length < 1 by omega), if_pos hhead,
    if_neg (show ¬ packet.length < bdtunCommSize by omega)] at hw
  cases hnames : createNames frame (packetName packet 20) with
  | none =>
    rw [hnames] at hw
    cases hw
  | some names =>
    rw [hnames] at hw
    cases hcalls : createCalls s.ledger k with
    | error e =>
      obtain ⟨l, code⟩ := e
      rw [hcalls] at hw
      simp only [Option.map_some, done_error _ _ (createCalls_error hcalls)] at hw
      cases hw
      exact ⟨rfl, rfl, rfl⟩
    | ok parts =>
      rw [hcalls] at hw
      cases hw

omit [Kernel] in
/-- Setting the capacity of a listed device changes the list unless it is the capacity it has. -/
theorem setCapacity_self {h : CtrlHist} {s : Ctrl} (hl : Listed h s) {dev : Device}
    (hd : dev ∈ s.deviceList) (size : Nat) :
    (s.update dev.addr fun d => d.setCapacity size).deviceList = s.deviceList ↔
      dev.bdGd.capacity = size / kernelSectorSize := by
  constructor
  · intro hsame
    have hmem : dev.setCapacity size ∈ (s.update dev.addr fun d => d.setCapacity size).deviceList :=
      mem_update.mpr ⟨dev, hd, if_pos rfl⟩
    rw [hsame] at hmem
    have heq : dev.setCapacity size = dev := hl.eq_of_addr hmem hd rfl
    exact (congrArg (fun d : Device => d.bdGd.capacity) heq).symm
  · intro hcap
    unfold Ctrl.update
    conv_rhs => rw [← List.map_id s.deviceList]
    refine List.map_congr_left ?_
    intro d hmem
    by_cases ha : d.addr = dev.addr
    · rw [if_pos ha, hl.eq_of_addr hmem hd ha]
      unfold Device.setCapacity
      rw [← hcap]
      rfl
    · rw [if_neg ha]
      rfl

/-- A resize that fails: `revalidate_disk` did, or there is no such device. -/
theorem resize_error {h : CtrlHist} {s t : Ctrl} (hl : Listed h s) {count : Nat} {name : DiskName}
    {size : UInt64} {k : Answers} {code : Int} (hlong : bdtunCommSize ≤ count)
    (hw : ctrlWrite s count (.resize name size) k = (t, .ret code)) :
    Unchanged s t ↔ ¬ ∃ dev e, bdtunFindDevice s.deviceList name = some dev ∧
      k.revalidateDisk = .error e ∧ dev.bdGd.capacity ≠ size.toNat / kernelSectorSize := by
  rw [ctrlWrite_long s _ k hlong] at hw
  have hcases := resize_cases s name size.toNat k
  simp only at hw
  generalize bdtunResizeK s name size.toNat k = res at hcases hw
  cases hcases with
  | absent hf =>
    rw [done_error _ _ (by decide)] at hw
    cases hw
    refine iff_of_true ⟨rfl, rfl, rfl⟩ ?_
    rintro ⟨dev, e, hf', -⟩
    rw [hf] at hf'
    cases hf'
  | failed dev hf e he =>
    rw [done_error _ _ e.neg] at hw
    cases hw
    have hiff : Unchanged s (s.update dev.addr fun d => d.setCapacity size.toNat) ↔
        dev.bdGd.capacity = size.toNat / kernelSectorSize := by
      rw [← setCapacity_self hl (find_some hf).1]
      exact ⟨Unchanged.devices, fun hsame => ⟨hsame, rfl, rfl⟩⟩
    rw [hiff]
    constructor
    · rintro hcap ⟨dev', e', hf', -, hne⟩
      rw [hf] at hf'
      cases hf'
      exact hne hcap
    · intro hnot
      by_contra hne
      exact hnot ⟨dev, e, hf, he, hne⟩
  | resized dev hf hok =>
    rw [done_ok] at hw
    cases hw

/-- Any other command that fails. -/
theorem other_error {s t : Ctrl} {count : Nat} {c : CtrlCommand} {k : Answers} {code : Int}
    (hc : ∀ name size, c ≠ .resize name size) (hw : ctrlWrite s count c k = (t, .ret code)) :
    Unchanged s t := by
  have heff := write_effect s count c k (by rw [hw]; simp)
  rw [hw] at heff
  generalize hres : (t, CtrlRet.ret code) = res at heff
  cases heff with
  | refused count c k code hneg =>
    cases hres
    exact ⟨rfl, rfl, rfl⟩
  | noDisk count name blocksize size capabilities k new queue major chNum _ _ _ =>
    cases hres
    exact ⟨rfl, rfl, rfl⟩
  | created count name blocksize size capabilities k new queue major chNum gd w _ _ _ _ =>
    cases hres
  | resized count name size k dev hf => cases hres
  | notResized count name size k dev hf e _ => exact absurd rfl (hc name size)
  | removed count name k dev hf _ _ => cases hres
  | answered count c k _ buf size response _ => cases hres
  | missed name h c hc' hf => rcases hc' with heq | heq <;> cases heq

/-- A command with a name that ends, that fails. -/
theorem typed_error {h : CtrlHist} {s t : Ctrl} (hl : Listed h s) {count : Nat} {c : CtrlCommand}
    {k : Answers} {code : Int} (hlong : bdtunCommSize ≤ count)
    (hw : ctrlWrite s count c k = (t, .ret code)) :
    Unchanged s t ↔ ¬ ∃ name size dev e, c = .resize name size ∧
      bdtunFindDevice s.deviceList name = some dev ∧ k.revalidateDisk = .error e ∧
      dev.bdGd.capacity ≠ size.toNat / kernelSectorSize := by
  by_cases hc : ∃ name size, c = .resize name size
  · obtain ⟨name, size, rfl⟩ := hc
    rw [resize_error hl hlong hw, not_iff_not]
    constructor
    · rintro ⟨dev, e, hwhy⟩
      exact ⟨name, size, dev, e, rfl, hwhy⟩
    · rintro ⟨name', size', dev, e, heq, hwhy⟩
      cases heq
      exact ⟨dev, e, hwhy⟩
  · refine iff_of_true (other_error (fun name size heq => hc ⟨name, size, heq⟩) hw) ?_
    exact fun ⟨name, size, _, _, heq, _⟩ => hc ⟨name, size, heq⟩

/-- **Commands that fail.**  In every reachable state, for every packet and every answer of the kernel:
a command that returns an error leaves the list and the response as they were exactly when it is not a
resize to another number of sectors that `revalidate_disk` refuses. -/
theorem failed_command {tr : List (CtrlCall × CtrlRet)} {s t : Ctrl} {packet : List UInt8}
    {k : Answers} {frame : CreateFrame} {code : Int} (hrun : Run control ctrlUsers .init tr s)
    (hw : Raw.ctrlWrite s packet k frame = some (t, .ret code)) :
    Unchanged s t ↔ ¬ Halfway s packet k := by
  have hl := run_listed (fun _ _ h => h) hrun
  by_cases hlong : bdtunCommSize ≤ packet.length
  · cases hc : decode packet with
    | some c =>
      rw [raw_string s k frame hlong hc] at hw
      rw [typed_error hl hlong (Option.some.inj hw)]
      unfold Halfway
      rw [hc]
      simp only [hlong, true_and, Option.some.injEq]
    | none =>
      have hnot : ¬ Halfway s packet k := by
        rintro ⟨-, name, size, dev, e, hsome, -⟩
        rw [hc] at hsome
        cases hsome
      refine iff_of_true ?_ hnot
      by_cases hcreates : Creates packet
      · exact raw_create_error hlong hc hcreates hw
      · obtain ⟨code', -, hret⟩ := raw_endless s k frame hlong hc hcreates
        rw [hret] at hw
        cases hw
        exact ⟨rfl, rfl, rfl⟩
  · rw [Raw.ctrlWrite_short s k frame (by omega)] at hw
    cases hw
    exact iff_of_true ⟨rfl, rfl, rfl⟩ fun hhalf => hlong hhalf.1

end

section
attribute [local instance] linux32

/-- A resize of the device "a" to three blocks. -/
def sampleResize : List UInt8 :=
  packetBytes bdtunCommResize (wordBytes 8 1536 ++ (97 :: List.replicate 31 0))

/-- `revalidate_disk` fails. -/
def sampleRefusal : Answers :=
  { sampleAnswers with revalidateDisk := .error ⟨-eio, by decide, by decide⟩ }

/-- The disk has three sectors more after the resize has failed. -/
theorem failed_resize_changes : ¬ ∀ tr s packet k frame t code,
    Run control ctrlUsers .init tr s → Raw.ctrlWrite s packet k frame = some (t, .ret code) →
    Unchanged s t := by
  intro h
  have hrun := @path_exec _ _ _ control ctrlUsers [] .init sampleCreate (by decide)
  have hsame := (h _ _ sampleResize sampleRefusal fullFrame _ _ hrun rfl).devices
  have hcapacity := congrArg (List.map fun d : Device => d.bdGd.capacity) hsame
  exact absurd hcapacity (by decide)

/-- A resize to as many sectors as the disk has is refused, and changes nothing. -/
theorem failed_command_sample :
    let packet := packetBytes bdtunCommResize (wordBytes 8 1030 ++ (97 :: List.replicate 31 0))
    ∃ t, Raw.ctrlWrite (exec control .init sampleCreate) packet sampleRefusal fullFrame =
        some (t, .ret (-eio)) ∧ Unchanged (exec control .init sampleCreate) t := by
  intro packet
  have hrun := @path_exec _ _ _ control ctrlUsers [] .init sampleCreate (by decide)
  have hw : Raw.ctrlWrite (exec control .init sampleCreate) packet sampleRefusal fullFrame =
      some ((exec control .init sampleCreate).update 4096 fun d => d.setCapacity 1030,
        .ret (-eio)) := rfl
  refine ⟨_, hw, (failed_command hrun hw).mpr ?_⟩
  rintro ⟨-, name, size, dev, e, hdecode, hfind, -, hother⟩
  have hresize : decode packet = some (.resize sampleName 1030) := rfl
  obtain ⟨rfl, rfl⟩ := CtrlCommand.resize.inj (Option.some.inj (hresize.symm.trans hdecode))
  obtain rfl := Option.some.inj hfind
  exact hother (by decide)

end

end BDTun
