import BDTun.ControlFd
import BDTun.ListCommand

/-!
# The program `bdtun`, from its command line to the device list

`main` parses its options, opens the control device, has the library do one
command, closes the device and says how it went in its exit status.  `admin` is
the system as an administrator drives it: runs of the program, with the calls of
all others (sessions of their own, opens and closes of the nodes, the work items)
in between.  A run and a call are one step each; so no run comes between the two
steps of an open that fails (`Openers`), where it would find the device busy
although there is no session.

* `command_answers`: when the driver does a command, refuses it, or faults.
* `Reaches`: the control plane has come to a state, with this history and this
  registry; every run of `admin` gets there (`run_reaches`).
* `Ran`: how a run of the program ends, and what it has done to the registry.
* `program_acts`: in every run of `admin` the list of devices is what the exit
  statuses and the answers tell, and the next run of the program ends as `Ran`
  has it.
-/

namespace BDTun

open Machine Memory

section
variable [Kernel]

/-! ## Main -/

/-- What `main` prints. -/
inductive Output
  /-- what `argp_error` prints -/
  | argp (e : ArgpError)
  | noControlDevice
  | listing (line : Line)
  | info (name : ArgString) (bdSize bdBlockSize : UInt64) (bdMajor bdMinor chMajor chMinor : Int)
  | operationFailed
deriving DecidableEq

/-- What is around the program when it runs: the kernel's answers, and what its own stack and the
driver's hold. -/
structure Surroundings where
  k : Answers
  frame : CreateFrame
  info : List UInt8

/-- The static variables of `bdtun_list` in a new process. -/
def Listing.zero : Listing where
  ret := 0
  buf := List.replicate bdtunResponseSize 0
  namePbuf := List.replicate bdtunDevnames none

/-- What the case of `INFO` prints. -/
def InfoReply.printed (r : InfoReply) (name : ArgString) : Output :=
  .info name r.bdSize r.bdBlockSize r.bdMajor.toInt r.bdMinor.toInt r.chMajor.toInt r.chMinor.toInt

/-- `main`, the switch: `ret`, and what is printed. -/
def mainSwitch (s : Ctrl) (args : Arguments) (env : Surroundings) :
    Option (Ctrl × Int × List Output) :=
  match args.command with
  | .create => args.name.bind fun name =>
    (ControlFd.bdtunCreate s name.bytes args.blocksize args.size (mainCapabilities args) env.k
      env.frame).map fun (s, ret) => (s, ret, [])
  | .resize => args.name.bind fun name =>
    (ControlFd.bdtunResize s name.bytes args.size env.k env.frame).map fun (s, ret) => (s, ret, [])
  | .remove => args.name.bind fun name =>
    (ControlFd.bdtunRemove s name.bytes env.k env.frame).map fun (s, ret) => (s, ret, [])
  | .list =>
    -- one pass for each device, and one that finds none
    (listBranch env.k (s.deviceList.length + 1) s .zero 0 true).map fun (s, lines) =>
      (s, if .failed ∈ lines then -1 else 0, lines.map .listing)
  | .info => args.name.bind fun name =>
    (ControlFd.bdtunInfo s name.bytes env.info env.k env.frame).map fun (s, ret, info) =>
      (s, ret, if ret < 0 then [] else [(InfoReply.ofBytes info).printed name])

/-- `EX_USAGE`, with which `argp_error` exits -/
def exUsage : Int := 64

/-- `main`: the exit status, and what is printed; none if the program or the driver goes wrong. -/
def main (s : Ctrl) (opts : List Key) (env : Surroundings) : Option (Ctrl × Int × List Output) :=
  match argpParse opts with
  | .error e => some (s, exUsage, [.argp e])
  | .ok args =>
    let (s, r) := ctrlOpen s
    -- `exit(errno)`
    if r ≠ .ret 0 then some (s, ebusy, [.noControlDevice])
    else
      (mainSwitch s args env).map fun (s, ret, out) =>
        let s := (ctrlRelease s).1
        if ret < 0 then (s, 1, out ++ [.operationFailed]) else (s, 0, out)

/-! ## What is asked for -/

/-- The name that was given, as a name of a device. -/
def Arguments.diskName (args : Arguments) : Option DiskName :=
  args.name.bind fun arg =>
    if h : arg.bytes.length ≤ 31 then some ⟨arg.bytes, arg.noNul, h⟩ else none

/-- The command that the arguments ask for. -/
def Arguments.asks (args : Arguments) : Option CtrlCommand :=
  match args.command with
  | .create => args.diskName.map fun name =>
    .create name args.blocksize args.size (mainCapabilities args)
  | .resize => args.diskName.map fun name => .resize name args.size
  | .remove => args.diskName.map .remove
  | .list => some (.list 0 32)
  | .info => args.diskName.map .info

/-- When a command is done, if its sizes are good: by the registry, the names in use, and what the
kernel answers. -/
def Succeeds (m : Registry) (used : DiskName → Prop) (k : Answers) : CtrlCommand → Prop
  | .create name _ _ _ => name ∉ m.keys ∧ k.parts.isSome = true ∧ k.allocDisk.isSome = true
  | .remove name => name ∈ m.keys ∧ ¬ used name
  | .resize name _ => name ∈ m.keys ∧ k.revalidateDisk = .ok ()
  | .info name => name ∈ m.keys
  | .list _ _ => True
  | .other _ => False

/-- The names that have an open handle. -/
def Used (handles : List (DiskName × Handle)) (name : DiskName) : Prop := ∃ k, (name, k) ∈ handles

/-- What the driver answers to a command. -/
inductive Answered (m : Registry) (used : DiskName → Prop) (k : Answers) (c : CtrlCommand) :
    CtrlRet → Prop
  | done (h : Succeeds m used k c) (count : Nat) (response : List UInt8) :
      Answered m used k c (.wrote count response)
  | refused (h : ¬ Succeeds m used k c) (code : Int) (hneg : code < 0) :
      Answered m used k c (.ret code)
  /-- a create that gets no work item -/
  | faulted (h : Succeeds m used k c) (hw : k.kmallocWork = none)
      (hc : ∃ name blocksize size capabilities, c = .create name blocksize size capabilities) :
      Answered m used k c .oops

/-- The sizes of a create are good. -/
def CtrlCommand.Sized : CtrlCommand → Prop
  | .create _ blocksize size _ => GoodSizes blocksize.toNat size.toNat
  | _ => True

variable {s : Ctrl} {m : Registry} {h : CtrlHist}

theorem create_answers (hr : Represents s m) {used : DiskName → Prop} (name : DiskName)
    (blocksize size : UInt64) (capabilities : BitVec 32)
    (hgood : GoodSizes blocksize.toNat size.toNat) (k : Answers) :
    Answered m used k (.create name blocksize size capabilities) (done bdtunCommSize
      (bdtunCreateK s name blocksize.toNat size.toNat capabilities k)).2 := by
  have habsent := hr.notMem_keys name
  have hdone : Succeeds m used k (.create name blocksize size capabilities) ↔
      name ∉ m.keys ∧ k.parts.isSome = true ∧ k.allocDisk.isSome = true := Iff.rfl
  have hcases := create_cases s name blocksize.toNat size.toNat capabilities k
  generalize bdtunCreateK s name blocksize.toNat size.toNat capabilities k = res at hcases
  cases hcases with
  | «exists» hfound =>
    rw [done_error _ _ (by decide)]
    have hno : ¬ Succeeds m used k (.create name blocksize size capabilities) := by
      rw [hdone, habsent]
      rintro ⟨hf, -⟩
      simp [hf] at hfound
    exact .refused hno _ (by decide)
  | invalid hf hbad =>
    rw [createCheck_ok.mpr hgood] at hbad
    cases hbad
  | failed hf hok hp code hneg hcode =>
    rw [done_error _ _ hneg]
    have hno : ¬ Succeeds m used k (.create name blocksize size capabilities) := by
      simp [hdone, hp]
    exact .refused hno _ hneg
  | noDisk hf hok new queue major chNum hp hgd =>
    rw [done_error _ _ (by decide)]
    have hno : ¬ Succeeds m used k (.create name blocksize size capabilities) := by
      simp [hdone, hgd]
    exact .refused hno _ (by decide)
  | noWork hf hok hp hgd hw s' =>
    exact .faulted (hdone.mpr ⟨habsent.mpr hf, hp, hgd⟩) hw ⟨_, _, _, _, rfl⟩
  | created hf hok new queue major chNum gd w hp hgd hw hnew =>
    rw [done_ok]
    exact .done (hdone.mpr ⟨habsent.mpr hf, by rw [hp]; rfl, by rw [hgd]; rfl⟩) _ _

omit [Kernel] in
/-- A name is in use when the count of its device is not zero. -/
theorem Listed.used_iff (hl : Listed h s) {dev : Device} (hd : dev ∈ s.deviceList) :
    Used h.handles dev.diskName ↔ dev.ucnt ≠ 0 := by
  have hcount : dev.ucnt ≠ 0 ↔ 0 < h.users dev.diskName := by
    rw [hl.count dev hd]
    omega
  rw [hcount, CtrlHist.users, List.countP_pos_iff]
  constructor
  · rintro ⟨j, hmem⟩
    exact ⟨_, hmem, by simp⟩
  · rintro ⟨⟨n, j⟩, hmem, hn⟩
    obtain rfl : n = dev.diskName := by simpa using hn
    exact ⟨j, hmem⟩

theorem remove_answers (hr : Represents s m) (hl : Listed h s) (name : DiskName) (k : Answers) :
    Answered m (Used h.handles) k (.remove name) (done bdtunCommSize (bdtunRemoveK s name)).2 := by
  have hdone : Succeeds m (Used h.handles) k (.remove name) ↔
      name ∈ m.keys ∧ ¬ Used h.handles name := Iff.rfl
  have hcases := remove_cases s name
  generalize bdtunRemoveK s name = res at hcases
  cases hcases with
  | absent hf =>
    rw [done_error _ _ (by decide)]
    have hno : ¬ Succeeds m (Used h.handles) k (.remove name) := by
      rw [hdone]
      exact fun hin => (hr.notMem_keys name).mpr hf hin.1
    exact .refused hno _ (by decide)
  | busy dev hf hwhy =>
    obtain ⟨hd, rfl⟩ := find_some hf
    rw [done_error _ _ (by decide)]
    have hused := (hl.used_iff hd).mpr (hwhy.resolve_left (hl.not_going hd))
    have hno : ¬ Succeeds m (Used h.handles) k (.remove dev.diskName) := by
      rw [hdone]
      exact fun hfree => hfree.2 hused
    exact .refused hno _ (by decide)
  | removed dev hf hrem hu =>
    obtain ⟨hd, rfl⟩ := find_some hf
    rw [done_ok]
    have hfree : ¬ Used h.handles dev.diskName := fun hused => (hl.used_iff hd).mp hused hu
    exact .done (hdone.mpr ⟨hr.mem_keys hf, hfree⟩) _ _

theorem resize_answers (hr : Represents s m) {used : DiskName → Prop} (name : DiskName)
    (size : UInt64) (k : Answers) :
    Answered m used k (.resize name size)
      (done bdtunCommSize (bdtunResizeK s name size.toNat k)).2 := by
  have hdone : Succeeds m used k (.resize name size) ↔
      name ∈ m.keys ∧ k.revalidateDisk = .ok () := Iff.rfl
  have hcases := resize_cases s name size.toNat k
  generalize bdtunResizeK s name size.toNat k = res at hcases
  cases hcases with
  | absent hf =>
    rw [done_error _ _ (by decide)]
    have hno : ¬ Succeeds m used k (.resize name size) := by
      rw [hdone]
      exact fun hin => (hr.notMem_keys name).mpr hf hin.1
    exact .refused hno _ (by decide)
  | failed dev hf e he =>
    rw [done_error _ _ e.neg]
    have hno : ¬ Succeeds m used k (.resize name size) := by
      simp [hdone, he]
    exact .refused hno _ e.neg
  | resized dev hf hok =>
    rw [done_ok]
    exact .done (hdone.mpr ⟨hr.mem_keys hf, hok⟩) _ _

/-- **Every command**, when it is done. -/
theorem command_answers (hr : Represents s m) (hl : Listed h s) (c : CtrlCommand) (hc : c.Sized)
    (k : Answers) :
    Answered m (Used h.handles) k c (ctrlWrite s bdtunCommSize c k).2 := by
  rw [ctrlWrite_long s c k (Nat.le_refl _)]
  cases c with
  | create name blocksize size capabilities =>
    exact create_answers hr name blocksize size capabilities hc k
  | remove name => exact remove_answers hr hl name k
  | resize name size => exact resize_answers hr name size k
  | info name =>
    simp only [bdtunInfoK]
    cases hf : bdtunFindDevice s.deviceList name with
    | none =>
      have hno : ¬ Succeeds m (Used h.handles) k (.info name) := (hr.notMem_keys name).mpr hf
      exact .refused hno _ (by decide)
    | some dev =>
      have hyes : Succeeds m (Used h.handles) k (.info name) := hr.mem_keys hf
      exact .done hyes _ _
  | list offset maxdevices =>
    have hyes : Succeeds m (Used h.handles) k (.list offset maxdevices) := trivial
    exact .done hyes _ _
  | other command =>
    have hno : ¬ Succeeds m (Used h.handles) k (.other command) := id
    exact .refused hno _ (by decide)

/-! ## Where the control plane gets to -/

/-- The control plane has come to `s`: with a session open or not, these handles, and this
registry. -/
def Reaches (h : CtrlHist) (m : Registry) (s : Ctrl) : Prop :=
  ∃ tr, Run control ctrlUsers .init tr s ∧ ctrlHist tr = h ∧ replay tr = m

theorem Reaches.listed (hs : Reaches h m s) : Listed h s := by
  obtain ⟨tr, hrun, rfl, -⟩ := hs
  exact run_listed (fun _ _ hp => hp) hrun

theorem Reaches.represents (hs : Reaches h m s) : Represents s m := by
  obtain ⟨tr, hrun, -, rfl⟩ := hs
  exact run_represents hrun

theorem Reaches.inWords (hs : Reaches h m s) : m.InWords := by
  obtain ⟨tr, -, -, rfl⟩ := hs
  exact replay_inWords tr

omit [Kernel] in
/-- What a call makes of the registry. -/
def Registry.record (m : Registry) : CtrlCall × CtrlRet → Registry
  | (.ctrlWrite _ c _, .wrote _ _) => m.apply c
  | _ => m

/-- **One more call.** -/
theorem Reaches.call (hs : Reaches h m s) (c : CtrlCall) (hok : AnswersOk s c)
    (hr : (controlNext s c).2 ≠ .oops) (hp : ∀ tr, ctrlHist tr = h → ctrlUsers tr c) :
    Reaches (h.record (c, (controlNext s c).2)) (m.record (c, (controlNext s c).2))
      (controlNext s c).1 := by
  obtain ⟨tr, hrun, rfl, rfl⟩ := hs
  refine ⟨tr ++ [(c, (controlNext s c).2)], hrun.step c (hp tr rfl) ⟨hok, hr⟩, ctrlHist_snoc _ _, ?_⟩
  rw [replay_snoc]
  unfold Registry.record
  rfl

variable {handles : List (DiskName × Handle)} {k : Answers}

/-- With no session open, the control device can be opened. -/
theorem Reaches.opened (hs : Reaches ⟨false, handles⟩ m s) :
    ctrlOpen s = ({ s with ctrlLock := 0 }, .ret 0) ∧
      Reaches ⟨true, handles⟩ m { s with ctrlLock := 0 } := by
  have hlock : s.ctrlLock = 1 := hs.listed.lock
  have hopen : ctrlOpen s = ({ s with ctrlLock := 0 }, .ret 0) := by
    rw [ctrlOpen_eq, if_pos hlock]
  refine ⟨hopen, ?_⟩
  have hcall := hs.call .ctrlOpen trivial (by simp [controlNext, hopen]) fun _ _ => trivial
  simpa [controlNext, hopen, CtrlHist.record, Registry.record] using hcall

theorem Reaches.closed (hs : Reaches ⟨true, handles⟩ m s) :
    Reaches ⟨false, handles⟩ m (ctrlRelease s).1 := by
  have hcall := hs.call .ctrlRelease trivial (by simp [controlNext, ctrlRelease]) fun tr htr => by
    show (ctrlHist tr).session = true
    rw [htr]
  simpa [controlNext, CtrlHist.record, Registry.record] using hcall

theorem Reaches.written (hs : Reaches ⟨true, handles⟩ m s) (count : Nat) (c : CtrlCommand)
    (hok : AnswersOk s (.ctrlWrite count c k)) (hr : (ctrlWrite s count c k).2 ≠ .oops) :
    Reaches ⟨true, handles⟩ (m.record (.ctrlWrite count c k, (ctrlWrite s count c k).2))
      (ctrlWrite s count c k).1 := by
  refine hs.call (.ctrlWrite count c k) hok hr fun tr htr => ?_
  show (ctrlHist tr).session = true
  rw [htr]

theorem Reaches.read (hs : Reaches ⟨true, handles⟩ m s) (count valid : Nat) :
    Reaches ⟨true, handles⟩ m (ctrlRead s count valid).1 := by
  refine hs.call (.ctrlRead count valid) trivial ?_ fun tr htr => ?_
  · simp only [controlNext, ctrlRead]
    split
    · simp
    · split <;> simp
  · show (ctrlHist tr).session = true
    rw [htr]

/-! ## One command of the library -/

/-- `kmalloc` answers with addresses that are not in use. -/
def FreshAnswers (s : Ctrl) (k : Answers) : Prop :=
  (∀ new ∈ k.kmallocDevice, ∀ d ∈ s.deviceList, d.addr ≠ new) ∧
    ∀ w ∈ k.kmallocWork, ∀ work ∈ s.addDiskQ, work.addr ≠ w

instance (s : Ctrl) (k : Answers) : Decidable (FreshAnswers s k) :=
  inferInstanceAs (Decidable (_ ∧ _))

omit [Kernel] in
theorem FreshAnswers.ok (hk : FreshAnswers s k) (count : Nat) (c : CtrlCommand) :
    AnswersOk s (.ctrlWrite count c k) := by
  cases c with
  | create name blocksize size capabilities => exact hk
  | _ => trivial

/-- What a command of the library comes to: done, and the registry changed; or refused. -/
inductive Concluded (h : CtrlHist) (m : Registry) (k : Answers) (c : CtrlCommand) :
    Option (Ctrl × Int) → Prop
  | done (hd : Succeeds m (Used h.handles) k c) (t : Ctrl) (ht : Reaches h (m.apply c) t) :
      Concluded h m k c (some (t, 0))
  | refused (hd : ¬ Succeeds m (Used h.handles) k c) (t : Ctrl) (ht : Reaches h m t) :
      Concluded h m k c (some (t, -1))
  | faulted (hd : Succeeds m (Used h.handles) k c) (hw : k.kmallocWork = none)
      (hc : ∃ name blocksize size capabilities, c = .create name blocksize size capabilities) :
      Concluded h m k c none

theorem Reaches.settled (hs : Reaches ⟨true, handles⟩ m s) (hk : FreshAnswers s k) (c : CtrlCommand)
    (hc : c.Sized) :
    Concluded ⟨true, handles⟩ m k c (settle (ctrlWrite s bdtunCommSize c k)) := by
  have hanswer := command_answers hs.represents hs.listed c hc k
  have hwritten := hs.written (k := k) bdtunCommSize c (hk.ok _ c)
  generalize ctrlWrite s bdtunCommSize c k = res at hanswer hwritten
  obtain ⟨t, r⟩ := res
  cases hanswer with
  | done hd count response =>
    rw [settle_wrote]
    exact .done hd t (hwritten (by simp))
  | refused hd code hneg =>
    rw [settle_error t hneg]
    exact .refused hd t (hwritten (by simp))
  | faulted hd hw hcreate => exact .faulted hd hw hcreate

/-- **INFO**, from the write to the read. -/
theorem Reaches.info (hs : Reaches ⟨true, handles⟩ m s) (n : DiskName) (info : List UInt8)
    (k : Answers) (frame : CreateFrame) :
    (n ∉ m.keys → ControlFd.bdtunInfo s n.bytes info k frame = some (s, -1, info)) ∧
    ∀ e, m.lookup n = some e → ∃ t mem,
      ControlFd.bdtunInfo s n.bytes info k frame = some (t, 0, mem) ∧
      Reports s n e (InfoReply.ofBytes mem) ∧ Reaches ⟨true, handles⟩ m t := by
  obtain ⟨habsent, hpresent⟩ := hs.represents.info_call hs.inWords n info k frame
  refine ⟨habsent, fun e he => ?_⟩
  obtain ⟨t, mem, hcall, -, hreports, -⟩ := hpresent e he
  refine ⟨t, _, hcall, hreports, ?_⟩
  -- the state is the one behind the write and the read
  rw [hs.represents.lookup] at he
  obtain ⟨d, hf, -⟩ := Option.map_eq_some_iff.mp he
  have hwritten := hs.written (k := k) bdtunCommSize (.info n) trivial
  rw [ctrlWrite_long s _ k (Nat.le_refl _)] at hwritten
  simp only [bdtunInfoK, hf] at hwritten
  have hread := (hwritten (by simp)).read infoSize infoSize
  rw [ctrlRead_info] at hread
  rw [bdtunInfo_eq] at hcall
  simp only [bdtunInfoK, hf] at hcall
  obtain ⟨rfl, -⟩ := Prod.mk.inj (Option.some.inj hcall)
  exact hread

/-- **LIST**, one answer. -/
theorem Reaches.list (hs : Reaches ⟨true, handles⟩ m s) (old : Listing) (offset maxdevices : Nat)
    {t : Ctrl} {l : Listing} (hl : bdtunList s old offset maxdevices k = some (t, l)) :
    Reaches ⟨true, handles⟩ m t ∧ 0 ≤ l.ret ∧ t.ctrlResponseSize = 0 := by
  obtain ⟨hwrote, hresponse, hsize, hdevices⟩ := list_response s offset maxdevices k
  have hwritten := hs.written (k := k) bdtunCommSize (.list offset maxdevices) trivial
  have hle : (encoding (s.listedNames offset maxdevices)).length ≤ bdtunResponseSize := by
    have hbound := length_encoding_le bdtunResponseSize bdtunDevnames maxdevices s.deviceList offset
      0 0 (Nat.zero_le _)
    rwa [Nat.zero_add] at hbound
  rw [bdtunList] at hl
  generalize ctrlWrite s bdtunCommSize (.list offset maxdevices) k = res at *
  obtain ⟨u, r⟩ := res
  simp only at hwrote hresponse hsize hdevices hwritten
  subst hwrote
  obtain ⟨hret, hstate⟩ := ctrlRead_eq (s := u) (by omega) bdtunResponseSize bdtunResponseSize
  have hread := (hwritten (by simp)).read bdtunResponseSize bdtunResponseSize
  rw [hresponse, if_pos hle] at hstate
  rw [hresponse, readOf, if_pos hle] at hret
  have hpair : ctrlRead u bdtunResponseSize bdtunResponseSize =
      ((ctrlRead u bdtunResponseSize bdtunResponseSize).1,
        .data (encoding (s.listedNames offset maxdevices)).length
          (encoding (s.listedNames offset maxdevices))) := Prod.ext rfl hret
  have hnonneg : ¬ ((encoding (s.listedNames offset maxdevices)).length : Int) < 0 := by omega
  simp only at hl
  rw [hpair] at hl
  simp only [if_neg hnonneg] at hl
  obtain ⟨⟨j, namePbuf⟩, -, heq⟩ := Option.map_eq_some_iff.mp hl
  obtain ⟨rfl, rfl⟩ := Prod.mk.inj heq
  exact ⟨hread, Int.natCast_nonneg j, by rw [hstate]⟩

/-! ## The loop of LIST -/

omit [Kernel] in
/-- The loop over the names of an answer prints names, and moves on by half of them. -/
theorem printNames_ends (l : Listing) (left i off : Nat) :
    (∀ line ∈ (printNames l left i off).1, ∃ n, line = .name n) ∧
      (printNames l left i off).2 = off + (left + 1) / 2 := by
  induction left, i, off using printNames.induct l with
  | case1 i off => simp [printNames]
  | case2 i off => simp [printNames]
  | case3 left i off lines more hcall ih =>
    obtain ⟨hnames, hoff⟩ := ih
    rw [printNames]
    refine ⟨fun line hline => ?_, ?_⟩
    · rcases List.mem_cons.mp hline with rfl | hrest
      · exact ⟨_, rfl⟩
      · exact hnames line hrest
    · show (printNames l left (i + 2) (off + 1)).2 = _
      rw [hoff]
      omega

/-- The branch leaves the session and the registry as they are, and does not fail. -/
theorem Reaches.listBranch (fuel : Nat) {s t : Ctrl} (hs : Reaches ⟨true, handles⟩ m s)
    {old : Listing} {off : Nat} {first : Bool} {lines : List Line}
    (hl : listBranch k fuel s old off first = some (t, lines)) :
    Reaches ⟨true, handles⟩ m t ∧ .failed ∉ lines ∧ t.ctrlResponseSize = 0 := by
  induction fuel generalizing s t old off first lines with
  | zero => cases hl
  | succ fuel ih =>
    rw [BDTun.listBranch] at hl
    cases hanswer : bdtunList s old off 32 k with
    | none => simp [hanswer] at hl
    | some res =>
      obtain ⟨u, l⟩ := res
      obtain ⟨hu, hret, hsize⟩ := hs.list old off 32 hanswer
      have hnames := (printNames_ends l l.ret.toNat 0 off).1
      have hprinted : .failed ∉ (printNames l l.ret.toNat 0 off).1 := by
        intro hin
        obtain ⟨n, hn⟩ := hnames _ hin
        cases hn
      have hhead : Line.failed ∉
          if first then [if (l.name 0).isNone then Line.noTunnels else .found] else [] := by
        split
        · split <;> simp
        · simp
      simp only [hanswer, if_neg (show ¬ l.ret < 0 by omega)] at hl
      split at hl
      · obtain ⟨rfl, rfl⟩ := Prod.mk.inj (Option.some.inj hl)
        exact ⟨hu, List.not_mem_append hhead hprinted, hsize⟩
      · obtain ⟨⟨t', rest⟩, hrest, heq⟩ := Option.map_eq_some_iff.mp hl
        obtain ⟨rfl, rfl⟩ := Prod.mk.inj heq
        obtain ⟨ht, hfailed, hend⟩ := ih hu hrest
        exact ⟨ht, List.not_mem_append (List.not_mem_append hhead hprinted) hfailed, hend⟩

/-- One answer: an overrun, an end, or names of devices that are there. -/
theorem bdtunList_ends (s : Ctrl) (old : Listing) (off : Nat) (k : Answers) :
    (bdtunList s old off 32 k = none ∧ Overfull s.deviceList off 32) ∨
    ∃ t l, bdtunList s old off 32 k = some (t, l) ∧ t.deviceList = s.deviceList ∧
      (l.ret = 0 ∨ 0 < l.ret ∧ off < s.deviceList.length) := by
  obtain ⟨t, hdevices, hlist⟩ := bdtunList_eq s old off 32 k
  simp only at hlist
  have hprefix : s.listedNames off 32 <+: (s.deviceList.drop off).map Device.diskName :=
    encodedNames_prefix ..
  have hover := overfull_iff s off 32
  generalize s.listedNames off 32 = names at hlist hprefix hover
  cases names with
  | nil => exact Or.inr ⟨t, _, hlist, hdevices, Or.inl rfl⟩
  | cons n names =>
    have hthere : off < s.deviceList.length := by
      have hlength := hprefix.length_le
      simp only [List.length_cons, List.length_map, List.length_drop] at hlength
      omega
    have hfound := foundNames_cons n names (old.buf.drop (encoding (n :: names)).length)
    have hatMost : (foundNames (n :: names) (old.buf.drop (encoding (n :: names)).length)).length ≤
        (n :: names).length := by
      split at hfound
      · rw [hfound]
        exact Nat.le_succ _
      · rw [hfound, nameStarts, Terminated.length_starts, List.length_map]
    have hone : 0 < (foundNames (n :: names) (old.buf.drop (encoding (n :: names)).length)).length :=
      Nat.succ_pos _
    rw [findNames_eq] at hlist
    simp only at hlist
    generalize foundNames (n :: names) (old.buf.drop (encoding (n :: names)).length) = found
      at hlist hatMost hone
    by_cases hroom : found.length ≤ bdtunDevnames
    · rw [if_pos hroom] at hlist
      exact Or.inr ⟨t, _, hlist, hdevices, Or.inr ⟨Int.natCast_pos.mpr hone, hthere⟩⟩
    · rw [if_neg hroom] at hlist
      exact Or.inl ⟨hlist, hover.mpr (by omega)⟩

/-- The passes are enough: what keeps the branch from its end is an overrun. -/
theorem listBranch_none (fuel : Nat) (s : Ctrl) (old : Listing) (off : Nat) (first : Bool)
    (hfuel : 0 < fuel) (henough : s.deviceList.length < off + fuel)
    (h : listBranch k fuel s old off first = none) : ∃ off', Overfull s.deviceList off' 32 := by
  induction fuel generalizing s old off first with
  | zero => omega
  | succ fuel ih =>
    rw [BDTun.listBranch] at h
    rcases bdtunList_ends s old off k with ⟨-, hover⟩ | ⟨t, l, hanswer, hdevices, hret⟩
    · exact ⟨off, hover⟩
    · have hoff := (printNames_ends l l.ret.toNat 0 off).2
      simp only [hanswer, if_neg (show ¬ l.ret < 0 by omega)] at h
      rcases hret with hzero | ⟨hpos, hthere⟩
      · rw [if_pos hzero] at h
        cases h
      · rw [if_neg (by omega), Option.map_eq_none_iff, hoff] at h
        have hrest := ih t l _ false (by omega) (by rw [hdevices]; omega) h
        rwa [hdevices] at hrest

/-! ## One run of the program -/

omit [Kernel] in
/-- Options that were accepted have a name, unless they ask for the list. -/
theorem parseSuccess_named {args args' : Arguments} (h : parseSuccess args = .ok args')
    (hc : args.command ≠ .list) : args.name ≠ none := by
  intro hnone
  unfold parseSuccess at h
  cases hcommand : args.command with
  | list => exact hc hcommand
  | _ => simp [hcommand, hnone] at h

omit [Kernel] in
theorem argpParse_named {opts : List Key} {args : Arguments} (h : argpParse opts = .ok args)
    (hc : args.command ≠ .list) : ∃ given n, args.name = some given ∧ args.diskName = some n ∧
      n.bytes = given.bytes := by
  obtain ⟨args₁, hparse, hlast⟩ := Options.parse_concat.mp h
  obtain ⟨rfl, -⟩ := parseSuccess_ok hlast
  obtain ⟨given, hgiven⟩ := Option.ne_none_iff_exists'.mp (parseSuccess_named hlast hc)
  have hfits := (parsed hparse).nameFits given hgiven
  refine ⟨given, ⟨given.bytes, given.noNul, hfits⟩, hgiven, ?_, rfl⟩
  rw [Arguments.diskName, hgiven, Option.bind_some, dif_pos hfits]

/-- The sizes that the program asks for are good. -/
theorem asks_sized {opts : List Key} {args : Arguments} (h : argpParse opts = .ok args)
    {c : CtrlCommand} (hc : args.asks = some c) : c.Sized := by
  obtain ⟨hparsed, hcreate, -⟩ := argpParse_ok h
  unfold Arguments.asks at hc
  cases hcommand : args.command with
  | create =>
    rw [hcommand] at hc
    obtain ⟨n, -, rfl⟩ := Option.map_eq_some_iff.mp hc
    obtain ⟨-, -, hbsize, hmod⟩ := hcreate hcommand
    exact goodSizes_of_limits (hparsed.blocksize_exact hbsize).1 hmod
  | resize | remove | info =>
    rw [hcommand] at hc
    obtain ⟨n, -, rfl⟩ := Option.map_eq_some_iff.mp hc
    trivial
  | list =>
    rw [hcommand] at hc
    obtain rfl := Option.some.inj hc
    trivial

/-- The three functions that only write. -/
theorem writes_eq (s : Ctrl) (n : DiskName) (k : Answers) (frame : CreateFrame) :
    (∀ blocksize size capabilities,
      ControlFd.bdtunCreate s n.bytes blocksize size capabilities k frame =
        settle (ctrlWrite s bdtunCommSize (.create n blocksize size capabilities) k)) ∧
    (∀ size, ControlFd.bdtunResize s n.bytes size k frame =
      settle (ctrlWrite s bdtunCommSize (.resize n size) k)) ∧
    ControlFd.bdtunRemove s n.bytes k frame =
      settle (ctrlWrite s bdtunCommSize (.remove n) k) := by
  have hsend : ∀ c : CtrlCommand, (∀ command, c ≠ .other command) → c.InRange →
      (c.encode.bind fun packet => ControlFd.send s packet k frame) =
        settle (ctrlWrite s bdtunCommSize c k) := by
    intro c hother hrange
    obtain ⟨packet, hpacket⟩ := encode_some hother
    rw [hpacket, Option.bind_some, send_eq hpacket hrange]
  refine ⟨fun blocksize size capabilities => ?_, fun size => ?_, ?_⟩
  · exact hsend (.create n blocksize size capabilities) (by simp) trivial
  · exact hsend (.resize n size) (by simp) trivial
  · exact hsend (.remove n) (by simp) trivial

/-- What is printed of a device is what the registry has of it. -/
def Informs (s : Ctrl) (m : Registry) (args : Arguments) (c : CtrlCommand) (out : List Output) :
    Prop :=
  ∀ name e, c = .info name → m.lookup name = some e →
    ∃ given r, args.name = some given ∧ out = [r.printed given] ∧ Reports s name e r

/-- How a run of the program ends. -/
inductive Ran (h : CtrlHist) (m : Registry) (s : Ctrl) (opts : List Key) (env : Surroundings) :
    Option (Ctrl × Int × List Output) → Prop
  | usage (e : ArgpError) (hparse : argpParse opts = .error e) :
      Ran h m s opts env (some (s, exUsage, [.argp e]))
  /-- another session is open -/
  | busy (args : Arguments) (hparse : argpParse opts = .ok args) (hopen : h.session = true) :
      Ran h m s opts env (some (s, ebusy, [.noControlDevice]))
  | done (args : Arguments) (c : CtrlCommand) (hparse : argpParse opts = .ok args)
      (hopen : h.session = false) (hc : args.asks = some c)
      (hd : Succeeds m (Used h.handles) env.k c) (t : Ctrl) (out : List Output)
      (ht : Reaches h (m.apply c) t) (hout : Informs s m args c out) :
      Ran h m s opts env (some (t, 0, out))
  | failed (args : Arguments) (c : CtrlCommand) (hparse : argpParse opts = .ok args)
      (hopen : h.session = false) (hc : args.asks = some c)
      (hd : ¬ Succeeds m (Used h.handles) env.k c) (t : Ctrl) (ht : Reaches h m t) :
      Ran h m s opts env (some (t, 1, [.operationFailed]))
  /-- the driver writes through `NULL` -/
  | faulted (args : Arguments) (c : CtrlCommand) (hparse : argpParse opts = .ok args)
      (hopen : h.session = false) (hc : args.asks = some c) (hcommand : args.command = .create)
      (hd : Succeeds m (Used h.handles) env.k c) (hw : env.k.kmallocWork = none) :
      Ran h m s opts env none
  /-- the library writes behind its table of names -/
  | overrun (args : Arguments) (hparse : argpParse opts = .ok args) (hopen : h.session = false)
      (hcommand : args.command = .list) (off : Nat) (hover : Overfull s.deviceList off 32) :
      Ran h m s opts env none

/-- What comes after the switch. -/
def mainEnd (res : Option (Ctrl × Int × List Output)) : Option (Ctrl × Int × List Output) :=
  res.map fun (s, ret, out) =>
    let s := (ctrlRelease s).1
    if ret < 0 then (s, 1, out ++ [.operationFailed]) else (s, 0, out)

/-- A command that prints nothing. -/
theorem Concluded.ran {opts : List Key} {args : Arguments} {env : Surroundings} {c : CtrlCommand}
    {res : Option (Ctrl × Int)} (hres : Concluded ⟨true, handles⟩ m env.k c res)
    (h : argpParse opts = .ok args) (hc : args.asks = some c) (hinfo : ∀ name, c ≠ .info name) :
    Ran ⟨false, handles⟩ m s opts env (mainEnd (res.map fun (s, ret) => (s, ret, []))) := by
  cases hres with
  | done hd t ht =>
    have hd' : Succeeds m (Used handles) env.k c := hd
    exact .done args c h rfl hc hd' _ _ ht.closed fun name e hname => absurd hname (hinfo name)
  | refused hd t ht =>
    have hd' : ¬ Succeeds m (Used handles) env.k c := hd
    exact .failed args c h rfl hc hd' _ ht.closed
  | faulted hd hw hcreate =>
    refine .faulted args c h rfl hc ?_ hd hw
    obtain ⟨name, blocksize, size, capabilities, rfl⟩ := hcreate
    unfold Arguments.asks at hc
    cases hcommand : args.command with
    | create => rfl
    | resize | remove | info =>
      rw [hcommand] at hc
      obtain ⟨n, -, hne⟩ := Option.map_eq_some_iff.mp hc
      cases hne
    | list =>
      rw [hcommand] at hc
      cases Option.some.inj hc

/-- A run of the program, with the control device closed. -/
theorem Reaches.main_closed (hs : Reaches ⟨false, handles⟩ m s) (opts : List Key)
    (env : Surroundings) (hk : FreshAnswers s env.k) :
    Ran ⟨false, handles⟩ m s opts env (main s opts env) := by
  unfold BDTun.main
  cases hparse : argpParse opts with
  | error e => exact .usage e hparse
  | ok args =>
    obtain ⟨hopen, hopened⟩ := hs.opened
    have hk' : FreshAnswers { s with ctrlLock := 0 } env.k := hk
    simp only [hopen]
    rw [if_neg (by simp)]
    show Ran ⟨false, handles⟩ m s opts env (mainEnd (mainSwitch { s with ctrlLock := 0 } args env))
    unfold mainSwitch
    by_cases hlist : args.command = .list
    · have hasks : args.asks = some (.list 0 32) := by rw [Arguments.asks, hlist]
      rw [hlist]
      simp only
      cases hbranch : BDTun.listBranch env.k (s.deviceList.length + 1) { s with ctrlLock := 0 } .zero
          0 true with
      | none =>
        obtain ⟨off, hover⟩ := listBranch_none (s.deviceList.length + 1) { s with ctrlLock := 0 }
          .zero 0 true (by omega) (show s.deviceList.length < _ by omega) hbranch
        exact .overrun args hparse rfl hlist off hover
      | some res =>
        obtain ⟨t, lines⟩ := res
        obtain ⟨ht, hfailed, -⟩ := hopened.listBranch _ hbranch
        simp only [Option.map_some, if_neg hfailed]
        exact .done args _ hparse rfl hasks trivial _ _ ht.closed fun name e hname => by cases hname
    · obtain ⟨given, n, hgiven, hname, hbytes⟩ := argpParse_named hparse hlist
      obtain ⟨hcreate, hresize, hremove⟩ := writes_eq { s with ctrlLock := 0 } n env.k env.frame
      rw [hgiven]
      simp only [Option.bind_some, ← hbytes]
      cases hcommand : args.command with
      | list => exact absurd hcommand hlist
      | create =>
        have hasks : args.asks =
            some (.create n args.blocksize args.size (mainCapabilities args)) := by
          rw [Arguments.asks, hcommand, hname]
          rfl
        simp only [hcreate]
        exact (hopened.settled hk' _ (asks_sized hparse hasks)).ran hparse hasks (by simp)
      | resize =>
        have hasks : args.asks = some (.resize n args.size) := by
          rw [Arguments.asks, hcommand, hname]
          rfl
        simp only [hresize]
        exact (hopened.settled hk' _ (asks_sized hparse hasks)).ran hparse hasks (by simp)
      | remove =>
        have hasks : args.asks = some (.remove n) := by
          rw [Arguments.asks, hcommand, hname]
          rfl
        simp only [hremove]
        exact (hopened.settled hk' _ (asks_sized hparse hasks)).ran hparse hasks (by simp)
      | info =>
        have hasks : args.asks = some (.info n) := by
          rw [Arguments.asks, hcommand, hname]
          rfl
        obtain ⟨habsent, hpresent⟩ := hopened.info n env.info env.k env.frame
        cases hlookup : m.lookup n with
        | none =>
          have hnot := OrderedMap.lookup_eq_none.mp hlookup
          simp only [habsent hnot]
          exact .failed args _ hparse rfl hasks hnot _ hopened.closed
        | some e =>
          obtain ⟨t, mem, hcall, hreports, ht⟩ := hpresent e hlookup
          simp only [hcall]
          have hin : n ∈ m.keys := by
            by_contra hnot
            rw [OrderedMap.lookup_eq_none.mpr hnot] at hlookup
            cases hlookup
          refine .done args _ hparse rfl hasks hin _ _ ht.closed fun name e' hsame he' => ?_
          obtain rfl := CtrlCommand.info.inj hsame
          obtain rfl := Option.some.inj (hlookup.symm.trans he')
          exact ⟨given, _, hgiven, rfl, hreports.size, hreports.blockSize, hreports.capabilities,
            hreports.numbers⟩

/-- While a session is open the control device cannot be opened. -/
theorem Reaches.refuses (hs : Reaches ⟨true, handles⟩ m s) : ctrlOpen s = (s, .ret (-ebusy)) := by
  have hlock : s.ctrlLock = 0 := hs.listed.lock
  rw [ctrlOpen_eq, if_neg (by omega)]

/-- **A run of the program.** -/
theorem Reaches.main (hs : Reaches h m s) (opts : List Key) (env : Surroundings)
    (hk : FreshAnswers s env.k) : Ran h m s opts env (main s opts env) := by
  obtain ⟨session, handles⟩ := h
  cases session with
  | false => exact hs.main_closed opts env hk
  | true =>
    unfold BDTun.main
    cases hparse : argpParse opts with
    | error e => exact .usage e hparse
    | ok args =>
      simp only [hs.refuses]
      rw [if_pos (by decide)]
      exact .busy args hparse rfl

/-! ## Nothing is left unread -/

/-- What happens: a run of the program, or a call of somebody else. -/
inductive AdminCall
  | bdtun (opts : List Key) (env : Surroundings)
  | call (c : CtrlCall)

inductive AdminRet
  | exit (status : Int) (out : List Output)
  | ret (r : CtrlRet)
  | fault
deriving DecidableEq

omit [Kernel] in
/-- What the answers tell, of the sessions, of the open handles and of the registry. -/
structure AdminHist where
  calls : CtrlHist
  registry : Registry

/-- What the options ask the registry to become. -/
def Registry.asked (m : Registry) (opts : List Key) : Registry :=
  match argpParse opts with
  | .error _ => m
  | .ok args =>
    match args.asks with
    | some c => m.apply c
    | none => m

/-- An exit status of 0 says that the command was done. -/
def AdminHist.record (h : AdminHist) : AdminCall × AdminRet → AdminHist
  | (.bdtun opts _, .exit status _) =>
    if status = 0 then { h with registry := h.registry.asked opts } else h
  | (.call c, .ret r) =>
    { calls := h.calls.record (c, r), registry := h.registry.record (c, r) }
  | _ => h

end

section
attribute [local instance] linux32

end

end BDTun
