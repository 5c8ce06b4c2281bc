import BDTun.Lib.Twins
import BDTun.Listing
import BDTun.Packet
import BDTun.Response

/-!
# What is left in memory, and what is read of it

A call finds old bytes on its stack and in what `kmalloc` gives it.  Create assigns
every member of the device structure; `bdtun_info_k` assigns every member of
`struct bdtun_info` too, but not the padding behind the last one, and `ctrl_write`
copies the whole structure into the response.

* `controlOn_eq`: the old contents of the heap do not matter, and those of the stack
  only as this padding.
* `reads_alike`: two executions of the same calls read the same bytes exactly when
  each read that copies the padding of a response to INFO finds the two stacks of
  that INFO equal there.
-/

namespace BDTun

open Memory Twins

section
variable [Kernel]

/-! ## Calls on memory that nothing has written -/

/-- What a call finds: on the stack under the padding of `info`, and in a `struct bdtun` from
`kmalloc`. -/
structure Garbage where
  stack : List UInt8
  heap : Device

/-- The assignments of `bdtun_create_k` to what it has allocated. -/
def fillDevice (heap : Device) (new queue major chNum gd : Nat) (name : DiskName)
    (blockSize size : Nat) (capabilities : BitVec 32) : Device :=
  let dev := { heap with
    addr := new, bdBlockSize := blockSize, bdNsectors := size / blockSize, bdSize := size }
  let dev := { dev with ucnt := 0, removing := false, addDiskFinished := false }
  let dev := { dev with incomingBioList := [], pendingBioList := [], dataCurrentBio := 0 }
  let dev := { dev with
    capabilities := capabilities, queue := newQueue queue blockSize capabilities }
  let dev := { dev with chNum := chNum }
  { dev with
    gendisk := gd, major := major, diskName := name
    bdGd := { capacity := size / kernelSectorSize, part0 := HdStruct.zero } }

/-- `bdtun_create_k` -/
def bdtunCreateOn (s : Ctrl) (name : DiskName) (blockSize size : Nat) (capabilities : BitVec 32)
    (k : Answers) (heap : Device) : Ctrl × CtrlRet :=
  if (bdtunFindDevice s.deviceList name).isSome then (s, .ret (-eexist))
  else
  match createCheck blockSize size with
  | .error e => (s, .ret e)
  | .ok () =>
  match createCalls s.ledger k with
  | .error (l, e) => ({ s with ledger := l }, .ret e)
  | .ok (new, queue, major, chNum, gd, l) =>
    let s :=
      { s with
        deviceList := s.deviceList ++
          [fillDevice heap new queue major chNum gd name blockSize size capabilities] }
    match k.kmallocWork with
    | none => ({ s with ledger := l }, .oops)
    | some w =>
      ({ s with
        addDiskQ := s.addDiskQ ++ [⟨w, new⟩]
        ledger := (l.take (.workItem w)).take .moduleReference }, .ret 0)

/-- A call, on what it finds. -/
def controlOn (s : Ctrl) : CtrlCall × Garbage → Ctrl × CtrlRet
  | (.ctrlWrite count (.create name blocksize size capabilities) k, g) =>
    if count < 1 then (s, .ret (-eio))
    else if count < bdtunCommSize then (s, .ret (-eio))
    else
      done count (bdtunCreateOn s name blocksize.toNat size.toNat capabilities k g.heap)
  | (.ctrlWrite count c k, g) => ctrlWrite s count c { k with stack := g.stack }
  | (c, _) => controlNext s c

/-- The call with this stack. -/
def CtrlCall.onStack (stack : List UInt8) : CtrlCall → CtrlCall
  | .ctrlWrite count c k => .ctrlWrite count c { k with stack := stack }
  | c => c

/-- Nothing is left of the old contents of a device structure. -/
theorem fillDevice_eq (heap : Device) (new queue major chNum gd : Nat) (name : DiskName)
    (blockSize size : Nat) (capabilities : BitVec 32) :
    fillDevice heap new queue major chNum gd name blockSize size capabilities =
      newDevice new queue major chNum gd name blockSize size capabilities := rfl

theorem bdtunCreateOn_eq (s : Ctrl) (name : DiskName) (blockSize size : Nat)
    (capabilities : BitVec 32) (k : Answers) (heap : Device) (stack : List UInt8) :
    bdtunCreateOn s name blockSize size capabilities k heap =
      bdtunCreateK s name blockSize size capabilities { k with stack := stack } := by
  unfold bdtunCreateOn
  cases hfind : bdtunFindDevice s.deviceList name with
  | some d =>
    unfold bdtunCreateK
    rw [hfind]
    rfl
  | none =>
    cases hcheck : createCheck blockSize size with
    | error e =>
      unfold bdtunCreateK
      rw [hfind, hcheck]
    | ok u =>
      rw [bdtunCreateK_calls hfind hcheck]
      simp only [fillDevice_eq]
      rfl

/-- **Only the stack matters**, as it is in the answers of a call. -/
theorem controlOn_eq (s : Ctrl) (c : CtrlCall) (g : Garbage) :
    controlOn s (c, g) = controlNext s (c.onStack g.stack) := by
  cases c with
  | ctrlWrite count c k =>
    cases c with
    | create name blocksize size capabilities =>
      simp only [controlOn, CtrlCall.onStack, controlNext]
      by_cases hshort : count < bdtunCommSize
      · rw [if_pos hshort, ctrlWrite_short s _ _ hshort, ite_self]
      · have hpos := bdtunCommSize_pos
        rw [if_neg hshort, if_neg (by omega), ctrlWrite_long s _ _ (by omega),
          bdtunCreateOn_eq s _ _ _ _ k g.heap g.stack]
    | _ => rfl
  | _ => rfl

/-! ## Calls that leave the response alone -/

def Ctrl.withResponse (s : Ctrl) (buf : Nat → UInt8) (size : Int) : Ctrl :=
  { s with ctrlResponseBuf := buf, ctrlResponseSize := size }

/-- Neither a query nor a read. -/
def CtrlCall.Quiet : CtrlCall → Prop
  | .ctrlRead _ _ => False
  | .ctrlWrite _ c _ => c.asks = false
  | _ => True

theorem quiet_create (s : Ctrl) (name : DiskName) (blockSize size : Nat) (capabilities : BitVec 32)
    (k : Answers) (buf : Nat → UInt8) (n : Int) :
    bdtunCreateK (s.withResponse buf n) name blockSize size capabilities k =
      ((bdtunCreateK s name blockSize size capabilities k).1.withResponse buf n,
        (bdtunCreateK s name blockSize size capabilities k).2) := by
  cases hfind : bdtunFindDevice s.deviceList name with
  | some d =>
    unfold bdtunCreateK
    rw [show (s.withResponse buf n).deviceList = s.deviceList from rfl, hfind]
    rfl
  | none =>
    cases hcheck : createCheck blockSize size with
    | error e =>
      unfold bdtunCreateK
      rw [show (s.withResponse buf n).deviceList = s.deviceList from rfl, hfind, hcheck]
      rfl
    | ok u =>
      rw [bdtunCreateK_calls hfind hcheck,
        bdtunCreateK_calls (s := s.withResponse buf n) hfind hcheck,
        show (s.withResponse buf n).ledger = s.ledger from rfl]
      cases createCalls s.ledger k with
      | error p => rfl
      | ok p => cases k.kmallocWork <;> rfl

omit [Kernel] in
theorem quiet_remove (s : Ctrl) (name : DiskName) (buf : Nat → UInt8) (n : Int) :
    bdtunRemoveK (s.withResponse buf n) name =
      ((bdtunRemoveK s name).1.withResponse buf n, (bdtunRemoveK s name).2) := by
  simp only [bdtunRemoveK, show (s.withResponse buf n).deviceList = s.deviceList from rfl]
  cases bdtunFindDevice s.deviceList name with
  | none => rfl
  | some dev =>
    by_cases hbusy : (removeCheck dev.toBdtun).2 ≠ 0
    · simp only [if_pos hbusy]
    · simp only [if_neg hbusy, Ctrl.withResponse]

omit [Kernel] in
theorem quiet_resize (s : Ctrl) (name : DiskName) (size : Nat) (k : Answers) (buf : Nat → UInt8)
    (n : Int) : bdtunResizeK (s.withResponse buf n) name size k =
      ((bdtunResizeK s name size k).1.withResponse buf n, (bdtunResizeK s name size k).2) := by
  simp only [bdtunResizeK, show (s.withResponse buf n).deviceList = s.deviceList from rfl]
  cases bdtunFindDevice s.deviceList name with
  | none => rfl
  | some dev => cases hrev : k.revalidateDisk <;> rfl

omit [Kernel] in
theorem done_withResponse (count : Nat) (s : Ctrl) (r : CtrlRet) (buf : Nat → UInt8) (n : Int) :
    done count (s.withResponse buf n, r) =
      ((done count (s, r)).1.withResponse buf n, (done count (s, r)).2) := by
  cases r <;> rfl

theorem quiet_write {c : CtrlCommand} (hc : c.asks = false) (s : Ctrl) (count : Nat) (k : Answers)
    (buf : Nat → UInt8) (n : Int) : ctrlWrite (s.withResponse buf n) count c k =
      ((ctrlWrite s count c k).1.withResponse buf n, (ctrlWrite s count c k).2) := by
  by_cases hshort : count < bdtunCommSize
  · rw [ctrlWrite_short _ c k hshort, ctrlWrite_short s c k hshort]
  · rw [ctrlWrite_long _ c k (by omega), ctrlWrite_long s c k (by omega)]
    cases c with
    | list offset maxdevices => cases hc
    | info name => cases hc
    | other command => rfl
    | create name blocksize size capabilities =>
      simp only
      rw [quiet_create, done_withResponse]
    | remove name =>
      simp only
      rw [quiet_remove, done_withResponse]
    | resize name size =>
      simp only
      rw [quiet_resize, done_withResponse]

/-- **A quiet call neither sees the response nor changes it.** -/
theorem quiet_next {c : CtrlCall} (hc : c.Quiet) (s : Ctrl) (buf : Nat → UInt8) (n : Int) :
    controlNext (s.withResponse buf n) c =
      ((controlNext s c).1.withResponse buf n, (controlNext s c).2) := by
  cases c with
  | ctrlRead count valid => exact hc.elim
  | ctrlWrite count c k => exact quiet_write hc s count k buf n
  | ctrlOpen =>
    simp only [controlNext, ctrlOpen_eq, show (s.withResponse buf n).ctrlLock = s.ctrlLock from rfl]
    by_cases hlock : s.ctrlLock = 1
    · simp only [if_pos hlock, Ctrl.withResponse]
    · simp only [if_neg hlock]
  | ctrlRelease => rfl
  | opens name h | releases name h =>
    simp only [controlNext, nodeCall, show (s.withResponse buf n).deviceList = s.deviceList from rfl]
    cases bdtunFindDevice s.deviceList name <;> rfl
  | addDisk w =>
    simp only [controlNext, bdtunDoAddDisk,
      show (s.withResponse buf n).addDiskQ = s.addDiskQ from rfl,
      show (s.withResponse buf n).deviceList = s.deviceList from rfl]
    cases s.addDiskQ.find? fun work => work.addr = w with
    | none => rfl
    | some work =>
      by_cases hlisted : s.deviceList.any fun d => d.addr = work.dev
      · simp only [if_pos hlisted]
        rfl
      · simp only [if_neg hlisted]

/-! ## Two executions -/

/-- A call, with what it finds in the first execution and in the second. -/
abbrev TwinCall := CtrlCall × Garbage × Garbage

def TwinCall.first (c : TwinCall) : CtrlCall × Garbage := (c.1, c.2.1)
def TwinCall.second (c : TwinCall) : CtrlCall × Garbage := (c.1, c.2.2)

/-- The bytes that each call of an execution copies to user space. -/
def delivered (s : Ctrl) (calls : List (CtrlCall × Garbage)) : List (List UInt8) :=
  views controlOn CtrlRet.copied s calls

/-- The stacks of the two executions under the INFO whose response can be read, if there is one. -/
abbrev Residue := Option (List UInt8 × List UInt8)

/-- An INFO that is answered leaves its stacks, a LIST or a read of the whole response leaves none. -/
def Residue.next (s : Ctrl) (r : Residue) : TwinCall → Residue
  | (.ctrlWrite count (.info name) _, g, g') =>
    if bdtunCommSize ≤ count ∧ (bdtunFindDevice s.deviceList name).isSome then
      some (g.stack, g'.stack)
    else r
  | (.ctrlWrite count (.list _ _) _, _) => if bdtunCommSize ≤ count then none else r
  | (.ctrlRead _ valid, _) => if s.ctrlResponseSize ≤ valid then none else r
  | _ => r

/-- The padding of `struct bdtun_info`, on a stack. -/
def padding (stack : List UInt8) : List UInt8 := (List.range infoPadding).map fun i => stack.getD i 0

/-- A read, into memory whose first bytes can be written, copies the same padding in both: the members
of the structure have 36 bytes. -/
def PaddingAgrees (r : Residue) : TwinCall → Prop
  | (.ctrlRead _ valid, _) => ∀ p ∈ r, (padding p.1).take (valid - 36) = (padding p.2).take (valid - 36)
  | _ => True

/-- The two executions have all in common but for the padding in the response. -/
structure Alike (r : Residue) (s t : Ctrl) : Prop where
  same : t = s.withResponse t.ctrlResponseBuf s.ctrlResponseSize
  response : match r with
    | none => s.response = t.response
    | some (p, q) => ∃ members, members.length = 36 ∧ s.response = members ++ padding p ∧
      t.response = members ++ padding q

/-- The members of `struct bdtun_info`. -/
def BdtunInfo.members (info : BdtunInfo) : List UInt8 :=
  wordBytes 8 info.bdSize ++ wordBytes 8 info.bdBlockSize ++ wordBytes 4 info.bdMajor ++
    wordBytes 4 info.bdMinor ++ wordBytes 4 info.chMajor ++ wordBytes 4 info.chMinor ++
    wordBytes 4 info.capabilities.toNat

theorem bytes_eq (info : BdtunInfo) (stack : List UInt8) :
    info.bytes stack = info.members ++ padding stack := rfl

omit [Kernel] in
theorem length_members (info : BdtunInfo) : info.members.length = 36 := by
  simp [BdtunInfo.members]

theorem length_padding (stack : List UInt8) : (padding stack).length = infoPadding := by
  simp [padding]

omit [Kernel] in
/-- What a read copies, in any case. -/
theorem copied_read (s : Ctrl) (count valid : Nat) :
    (ctrlRead s count valid).2.copied = s.response.take valid := by
  have hlength := length_response s
  unfold ctrlRead
  by_cases hneg : s.ctrlResponseSize < 0
  · have hnil : s.response = [] := List.eq_nil_of_length_eq_zero (by omega)
    rw [if_pos hneg, hnil, List.take_nil]
    rfl
  · rw [if_neg hneg]
    by_cases hfits : s.ctrlResponseSize ≤ valid
    · rw [if_pos hfits, List.take_of_length_le (by omega)]
      rfl
    · rw [if_neg hfits]
      rfl

/-- No other call copies anything. -/
theorem copied_next (s : Ctrl) {c : CtrlCall} (hc : ∀ count valid, c ≠ .ctrlRead count valid) :
    (controlNext s c).2.copied = [] := by
  by_cases hr : (controlNext s c).2 = .oops
  · rw [hr]
    rfl
  · have heff := ctrl_effect s c hr
    generalize controlNext s c = res at heff
    cases heff with
    | read count valid size r => exact absurd rfl (hc count valid)
    | _ => rfl

/-- What a quiet call does does not depend on its stack. -/
theorem next_onStack {c : CtrlCall} (hc : c.Quiet) (s : Ctrl) (stack : List UInt8) :
    controlNext s (c.onStack stack) = controlNext s c := by
  cases c with
  | ctrlWrite count c k =>
    cases c with
    | info name => cases hc
    | list offset maxdevices => cases hc
    | _ => rfl
  | _ => rfl

omit [Kernel] in
theorem response_withResponse (s : Ctrl) (buf : Nat → UInt8) (n : Int) :
    (s.withResponse buf n).response = gather buf (List.range n.toNat) := rfl

/-- A quiet call leaves the response as it is. -/
theorem quiet_response {c : CtrlCall} (hc : c.Quiet) (s : Ctrl) :
    (controlNext s c).1 =
      (controlNext s c).1.withResponse s.ctrlResponseBuf s.ctrlResponseSize :=
  congrArg Prod.fst (quiet_next hc s s.ctrlResponseBuf s.ctrlResponseSize)

variable {r : Residue} {s t : Ctrl}

theorem Alike.deviceList (h : Alike r s t) : t.deviceList = s.deviceList := by
  rw [h.same]
  rfl

theorem Alike.size (h : Alike r s t) : t.ctrlResponseSize = s.ctrlResponseSize := by
  rw [h.same]
  rfl

theorem Alike.quiet (h : Alike r s t) {c : CtrlCall} (hc : c.Quiet) :
    Alike r (controlNext s c).1 (controlNext t c).1 := by
  have hs := quiet_response hc s
  have ht : (controlNext t c).1 =
      (controlNext s c).1.withResponse t.ctrlResponseBuf s.ctrlResponseSize := by
    rw [h.same]
    exact congrArg Prod.fst (quiet_next hc s t.ctrlResponseBuf s.ctrlResponseSize)
  have hsize := h.size
  have hsr : (controlNext s c).1.response = s.response := by rw [hs]; rfl
  have htr : (controlNext t c).1.response = t.response := by
    rw [ht, response_withResponse, ← hsize]
    rfl
  refine ⟨?_, by rw [hsr, htr]; exact h.response⟩
  rw [ht, hs]
  rfl

/-- An INFO that is not answered. -/
theorem info_refused (s : Ctrl) {count : Nat} {name : DiskName} (k : Answers)
    (h : ¬ (bdtunCommSize ≤ count ∧ (bdtunFindDevice s.deviceList name).isSome)) :
    (ctrlWrite s count (.info name) k).1 = s := by
  by_cases hshort : count < bdtunCommSize
  · rw [ctrlWrite_short s _ k hshort]
  · have hnone : bdtunFindDevice s.deviceList name = none := by
      rw [← Option.not_isSome_iff_eq_none]
      exact fun hsome => h ⟨by omega, hsome⟩
    rw [ctrlWrite_long s _ k (by omega)]
    simp only [bdtunInfoK, hnone]

/-- An INFO that is answered: the members are those of the device, and the padding is that of the
stack. -/
theorem info_answered {l : List Device} {count : Nat} {name : DiskName}
    (h : bdtunCommSize ≤ count ∧ (bdtunFindDevice l name).isSome) :
    ∃ info : BdtunInfo, ∀ (s : Ctrl) (k : Answers), s.deviceList = l →
      (ctrlWrite s count (.info name) k).1 =
        s.withResponse (memcpy s.ctrlResponseBuf 0 (info.members ++ padding k.stack))
          ((36 + infoPadding : Nat) : Int) := by
  obtain ⟨dev, hdev⟩ := Option.isSome_iff_exists.mp h.2
  obtain ⟨info, hinfo⟩ : ∃ info, bdtunInfoK l name = .ok info := by
    unfold bdtunInfoK
    rw [hdev]
    exact ⟨_, rfl⟩
  refine ⟨info, fun s k hl => ?_⟩
  rw [ctrlWrite_long s _ k h.1]
  simp only [hl, hinfo, bytes_eq, List.length_append, length_members, length_padding,
    Ctrl.withResponse]

/-- A LIST, answered or not: the response is a function of the device list. -/
theorem list_next {l : List Device} (count offset maxdevices : Nat) :
    ∃ names : List UInt8, ∀ (s : Ctrl) (k : Answers), s.deviceList = l →
      ∃ buf, gather buf (List.range names.length) = names ∧
        (ctrlWrite s count (.list offset maxdevices) k).1 =
          if bdtunCommSize ≤ count then s.withResponse buf names.length else s := by
  refine ⟨encoding (encodedNames bdtunResponseSize bdtunDevnames maxdevices l offset 0 0),
    fun s k hl => ?_⟩
  obtain ⟨hpos, hbuf⟩ := listLoop_eq bdtunResponseSize bdtunDevnames maxdevices s.deviceList offset
    0 0 s.ctrlResponseBuf
  rw [Nat.zero_add, hl] at hpos
  rw [hl, hpos] at hbuf
  refine ⟨_, hbuf, ?_⟩
  by_cases hshort : count < bdtunCommSize
  · rw [ctrlWrite_short s _ k hshort, if_neg (by omega)]
  · rw [ctrlWrite_long s _ k (by omega), if_pos (by omega)]
    simp only [bdtunListK, hl, hpos, Ctrl.withResponse]

/-- Two states are alike once their responses are. -/
theorem alike_withResponse (s : Ctrl) (buf buf' : Nat → UInt8) (n : Int) (h : match r with
      | none => gather buf (List.range n.toNat) = gather buf' (List.range n.toNat)
      | some (p, q) => ∃ members, members.length = 36 ∧
        gather buf (List.range n.toNat) = members ++ padding p ∧
        gather buf' (List.range n.toNat) = members ++ padding q) :
    Alike r (s.withResponse buf n) (s.withResponse buf' n) := ⟨rfl, h⟩

theorem Alike.withResponse (h : Alike r s t) (buf : Nat → UInt8) (n : Int) :
    t.withResponse buf n = s.withResponse buf n := by
  rw [h.same]
  rfl

theorem Alike.read (h : Alike r s t) (count valid : Nat) (g g' : Garbage) :
    Alike (r.next s (.ctrlRead count valid, g, g')) (ctrlRead s count valid).1
      (ctrlRead t count valid).1 := by
  have hsize := h.size
  unfold ctrlRead Residue.next
  simp only [hsize]
  by_cases hneg : s.ctrlResponseSize < 0
  · have hs : s.response = [] := List.eq_nil_of_length_eq_zero (by rw [length_response]; omega)
    have ht : t.response = [] := List.eq_nil_of_length_eq_zero (by rw [length_response]; omega)
    rw [if_pos hneg, if_pos hneg, if_pos (by omega)]
    exact ⟨h.same, hs.trans ht.symm⟩
  · rw [if_neg hneg, if_neg hneg]
    by_cases hfits : s.ctrlResponseSize ≤ valid
    · rw [if_pos hfits, if_pos hfits, if_pos hfits]
      show Alike none (s.withResponse s.ctrlResponseBuf 0) (t.withResponse t.ctrlResponseBuf 0)
      rw [h.withResponse]
      exact alike_withResponse s _ _ 0 rfl
    · rw [if_neg hfits, if_neg hfits, if_neg hfits]
      exact h

theorem Alike.info (h : Alike r s t) (count : Nat) (name : DiskName) (k : Answers) (g g' : Garbage) :
    Alike (r.next s (.ctrlWrite count (.info name) k, g, g'))
      (ctrlWrite s count (.info name) { k with stack := g.stack }).1
      (ctrlWrite t count (.info name) { k with stack := g'.stack }).1 := by
  have hlist := h.deviceList
  simp only [Residue.next]
  by_cases hanswered : bdtunCommSize ≤ count ∧ (bdtunFindDevice s.deviceList name).isSome
  · obtain ⟨info, hinfo⟩ := info_answered hanswered
    have hlength : ∀ stack, (info.members ++ padding stack).length = 36 + infoPadding := by
      intro stack
      rw [List.length_append, length_members, length_padding]
    have hbytes : ∀ buf stack, gather (memcpy buf 0 (info.members ++ padding stack))
        (List.range (36 + infoPadding)) = info.members ++ padding stack := by
      intro buf stack
      rw [← hlength stack]
      exact gather_memcpy_start _ _
    rw [if_pos hanswered, hinfo s _ rfl, hinfo t _ hlist, h.withResponse]
    exact alike_withResponse s _ _ _ ⟨info.members, length_members info, hbytes _ _, hbytes _ _⟩
  · rw [if_neg hanswered, info_refused s _ hanswered,
      info_refused t _ (by rw [hlist]; exact hanswered)]
    exact h

theorem Alike.list (h : Alike r s t) (count offset maxdevices : Nat) (k : Answers)
    (g g' : Garbage) : Alike (r.next s (.ctrlWrite count (.list offset maxdevices) k, g, g'))
      (ctrlWrite s count (.list offset maxdevices) { k with stack := g.stack }).1
      (ctrlWrite t count (.list offset maxdevices) { k with stack := g'.stack }).1 := by
  have hlist := h.deviceList
  obtain ⟨names, hnames⟩ := list_next (l := s.deviceList) count offset maxdevices
  obtain ⟨buf, hbuf, hs⟩ := hnames s { k with stack := g.stack } rfl
  obtain ⟨buf', hbuf', ht⟩ := hnames t { k with stack := g'.stack } hlist
  simp only [Residue.next]
  rw [hs, ht]
  by_cases hlong : bdtunCommSize ≤ count
  · rw [if_pos hlong, if_pos hlong, if_pos hlong, h.withResponse]
    exact alike_withResponse s _ _ _ (hbuf.trans hbuf'.symm)
  · rw [if_neg hlong, if_neg hlong, if_neg hlong]
    exact h

/-- The state after a call, in both executions. -/
theorem Alike.next (h : Alike r s t) (c : TwinCall) :
    Alike (r.next s c) (controlOn s c.first).1 (controlOn t c.second).1 := by
  obtain ⟨c, g, g'⟩ := c
  simp only [TwinCall.first, TwinCall.second, controlOn_eq]
  by_cases hq : c.Quiet
  · rw [next_onStack hq, next_onStack hq]
    have hsame : r.next s (c, g, g') = r := by
      cases c with
      | ctrlRead count valid => exact hq.elim
      | ctrlWrite count c k =>
        cases c with
        | info name => cases hq
        | list offset maxdevices => cases hq
        | _ => rfl
      | _ => rfl
    rw [hsame]
    exact h.quiet hq
  · cases c with
    | ctrlRead count valid => exact h.read count valid g g'
    | ctrlWrite count c k =>
      cases c with
      | info name => exact h.info count name k g g'
      | list offset maxdevices => exact h.list count offset maxdevices k g g'
      | _ => exact absurd rfl hq
    | _ => exact absurd trivial hq

/-- What a call shows, in both executions. -/
theorem Alike.copied (h : Alike r s t) (c : TwinCall) :
    (controlOn s c.first).2.copied = (controlOn t c.second).2.copied ↔ PaddingAgrees r c := by
  obtain ⟨c, g, g'⟩ := c
  simp only [TwinCall.first, TwinCall.second, controlOn_eq]
  by_cases hread : ∃ count valid, c = .ctrlRead count valid
  · obtain ⟨count, valid, rfl⟩ := hread
    have hresponse := h.response
    show (ctrlRead s count valid).2.copied = (ctrlRead t count valid).2.copied ↔ _
    rw [copied_read, copied_read]
    cases r with
    | none =>
      rw [hresponse]
      exact iff_of_true rfl fun p hp => by cases hp
    | some p =>
      obtain ⟨members, hmembers, hs, ht⟩ := hresponse
      rw [hs, ht, List.take_append, List.take_append, hmembers, List.append_cancel_left_eq]
      constructor
      · rintro hpad p' hp'
        obtain rfl := Option.some.inj hp'
        exact hpad
      · exact fun hagrees => hagrees p rfl
  · have hnot : ∀ stack count valid, c.onStack stack ≠ .ctrlRead count valid := by
      intro stack count valid heq
      cases c with
      | ctrlRead count' valid' => exact hread ⟨_, _, rfl⟩
      | _ => cases heq
    rw [copied_next s (hnot _), copied_next t (hnot _)]
    refine iff_of_true rfl ?_
    cases c with
    | ctrlRead count valid => exact absurd ⟨_, _, rfl⟩ hread
    | _ => trivial

/-- Along an execution, every read finds the padding that it copies equal. -/
def PaddingsAgree (s : Ctrl) (calls : List TwinCall) : Prop :=
  Along controlOn TwinCall.first Residue.next PaddingAgrees s none calls

/-- **Two executions** of the same calls from the same state, on any old contents of stack and heap,
deliver the same bytes to user space exactly when every read that copies the padding of an INFO's
response finds it equal. -/
theorem reads_alike (s : Ctrl) (calls : List TwinCall) :
    delivered s (calls.map TwinCall.first) = delivered s (calls.map TwinCall.second) ↔
      PaddingsAgree s calls :=
  views_eq_iff Alike (fun _ _ _ c h => h.copied c) (fun _ _ _ c h => h.next c) ⟨rfl, rfl⟩ calls

end

section
attribute [local instance] linux32

/-- What two executions find. -/
def cleanGarbage : Garbage := ⟨[0, 0, 0, 0], newDevice 0 0 0 0 0 sampleName 512 512 0⟩
def dirtyGarbage : Garbage := ⟨[1, 2, 3, 4], newDevice 0 0 0 0 0 sampleName 512 512 0⟩

/-- A device is created and its INFO is read: the bytes of the stack come with it. -/
theorem stack_disclosed : ¬ ∀ (s : Ctrl) (calls : List TwinCall),
    delivered s (calls.map TwinCall.first) = delivered s (calls.map TwinCall.second) := by
  intro h
  have hsame := h .init
    [(.ctrlOpen, cleanGarbage, dirtyGarbage),
      (.ctrlWrite 64 (.create sampleName 512 1024 0) sampleAnswers, cleanGarbage, dirtyGarbage),
      (.ctrlWrite 64 (.info sampleName) sampleAnswers, cleanGarbage, dirtyGarbage),
      (.ctrlRead 40 40, cleanGarbage, dirtyGarbage)]
  revert hsame
  decide

end

end BDTun
