import Mathlib.Data.List.Nodup
import BDTun.Lib.Machine
import BDTun.Tunnel

/-!
# The tunnel device as a machine of calls

Any number of open tunnel files, any clients, any submitters: each call is one
step of `tunnel`.  `hist` is what the outside has seen of a run (open files,
submitted bios, the id last set, the ids delivered and not yet dealt with);
`vfs` is what any user obeys.

* `Effect`: all that a call can do to the driver (`effect_of_next`).
* `World.Wf`: the two lists hold each allocated entry exactly once.
* `run_tracks`: that, and the pending list is the list of ids delivered since
  the last close and not completed since; the cursor is the id last set.
-/

namespace BDTun

open Memory Machine

/-- An open file description of the tunnel device. -/
abbrev FileId := Nat

section
variable [Kernel]

inductive Call
  /-- `new` is the answer of `kmalloc` -/
  | submit (bio : Bio) (new : Option Addr)
  | chOpen (f : FileId)
  | chRelease (f : FileId)
  | read (f : FileId) (count valid : Nat) (signal : Bool)
  | write (f : FileId) (buf : List UInt8) (valid : Nat)
  | mmap (f : FileId) (vma : Vma) (fail : Option Nat)
  /-- `jiffies` advances -/
  | tick
deriving DecidableEq

def tunnelNext (s : World) : Call → World × Ret
  | .submit bio new => (bdtunMakeRequest s bio new, .ret 0 .nothing)
  | .chOpen _ => ({ s with dev := (bdtunchOpen s.dev).1 }, .ret (bdtunchOpen s.dev).2 .nothing)
  | .chRelease _ => ({ s with dev := bdtunchRelease s.dev }, .ret 0 .nothing)
  | .read _ count valid signal => bdtunchRead s count valid signal
  | .write _ buf valid => bdtunchWrite s buf valid
  | .mmap _ vma fail => bdtunchMmap s vma fail
  | .tick => ({ s with jiffies := (s.jiffies + 1) % 2 ^ bitsPerLong }, .ret 0 .nothing)

/-- `kmalloc` answers with an address that is not in use. -/
def KmallocOk (s : World) : Call → Prop
  | .submit _ (some new) => s.entries new = none ∧ new ≠ 0 ∧ new < 2 ^ bitsPerLong
  | _ => True

instance (s : World) (c : Call) : Decidable (KmallocOk s c) := by
  cases c with
  | submit bio new => cases new <;> unfold KmallocOk <;> infer_instance
  | _ => unfold KmallocOk; infer_instance

/-- Runs end where the driver dereferences a dead address. -/
def tunnel : Machine World Call Ret where
  enabled s c := KmallocOk s c ∧ (tunnelNext s c).2 ≠ .oops
  next := tunnelNext

instance (s : World) (c : Call) : Decidable (tunnel.enabled s c) :=
  inferInstanceAs (Decidable (_ ∧ _))

/-! ## What the outside has seen -/

structure Hist where
  files : List FileId
  submitted : List Bio
  /-- the id of the last set-current write, by any file; `NULL` before the first -/
  lastSet : Addr
  /-- the ids delivered since the last close of any file and not completed since -/
  owed : List Addr

def Hist.record (h : Hist) : Call × Ret → Hist
  | (.submit bio _, _) => { h with submitted := h.submitted ++ [bio] }
  | (.chOpen f, .ret code _) => if code = 0 then { h with files := f :: h.files } else h
  | (.chRelease f, _) => { h with files := h.files.erase f, owed := [] }
  | (.read _ _ _ _, .ret _ (.header req)) => { h with owed := h.owed ++ [req.id] }
  | (.write _ buf _, .ret _ _) =>
    if buf.length = sizeofLong then { h with lastSet := wordOf buf }
    else if buf.length = 1 then { h with owed := h.owed.erase h.lastSet }
    else h
  | _ => h

def hist (tr : List (Call × Ret)) : Hist := tr.foldl Hist.record ⟨[], [], 0, []⟩

@[simp] theorem hist_snoc (tr : List (Call × Ret)) (e : Call × Ret) :
    hist (tr ++ [e]) = (hist tr).record e := by
  simp [hist]

/-- What every user of the device obeys: calls go to open files, and each bio is submitted once. -/
def vfs : Policy Call Ret := fun tr c =>
  match c with
  | .submit bio _ => bio ∉ (hist tr).submitted
  | .chOpen f => f ∉ (hist tr).files
  | .chRelease f => f ∈ (hist tr).files
  | .read f _ _ _ => f ∈ (hist tr).files
  | .write f _ _ => f ∈ (hist tr).files
  | .mmap f _ _ => f ∈ (hist tr).files
  | .tick => True

instance (tr : List (Call × Ret)) (c : Call) : Decidable (vfs tr c) := by
  cases c <;> unfold vfs <;> infer_instance

/-! ## All that a call can do -/

inductive Effect (s : World) : Call → World × Ret → Prop
  | refused (bio : Bio) : Effect s (.submit bio none) (s.bioEndio bio (-eio), .ret 0 .nothing)
  | queued (bio : Bio) (new : Addr) : Effect s (.submit bio (some new))
      ((s.publish bio new).account bio (bioDataDir bio), .ret 0 .nothing)
  | opened (f : FileId) (h : s.dev.removing = false) : Effect s (.chOpen f)
      ({ s with dev := { s.dev with ucnt := s.dev.ucnt + 1 } }, .ret 0 .nothing)
  | closed (f : FileId) : Effect s (.chRelease f)
      ({ s with dev := bdtunchRelease s.dev }, .ret 0 .nothing)
  | delivered (f : FileId) (valid : Nat) (signal : Bool) (a : Addr) (rest : List Addr)
      (entry : BioListEntry) (hl : s.dev.incomingBioList = a :: rest)
      (he : s.entries a = some entry) :
      Effect s (.read f bdtunTxreqHeaderSize valid signal)
        (s.deliver a rest entry, .ret bdtunTxreqHeaderSize (.header (header a entry)))
  | set (f : FileId) (buf : List UInt8) (valid : Nat) (h : buf.length = sizeofLong) :
      Effect s (.write f buf valid) (s.setCurrent (wordOf buf), .ret buf.length .nothing)
  | completed (f : FileId) (byte : UInt8) (valid : Nat) (entry : BioListEntry)
      (he : s.entries s.dev.dataCurrentBio = some entry) :
      Effect s (.write f [byte] valid)
        (s.finish s.dev.dataCurrentBio entry (if byte ≠ 0 then -eio else 0), .ret 1 .nothing)
  /-- a payload write: only pages change -/
  | moved (f : FileId) (buf : List UInt8) (valid : Nat) (mem : Mem) (code : Int)
      (h : buf.length ≠ sizeofLong) (h₁ : buf.length ≠ 1) :
      Effect s (.write f buf valid) ({ s with mem := mem }, .ret code .nothing)
  /-- a call that leaves the driver alone, and tells the outside nothing to remember -/
  | quiet (c : Call) (r : Ret) (h : ∀ hi : Hist, hi.record (c, r) = hi) : Effect s c (s, r)
  | ticked (j : Nat) : Effect s .tick ({ s with jiffies := j }, .ret 0 .nothing)

/-- A read that hands out no header is quiet. -/
theorem record_read (hi : Hist) (f : FileId) (count valid : Nat) (signal : Bool) (code : Int)
    (out : Out) (h : ∀ req, out ≠ .header req) :
    hi.record (.read f count valid signal, .ret code out) = hi := by
  cases out with
  | header req => exact absurd rfl (h req)
  | nothing => rfl
  | data bytes => rfl
  | pages l => rfl

theorem record_mmap (hi : Hist) (f : FileId) (vma : Vma) (fail : Option Nat) (r : Ret) :
    hi.record (.mmap f vma fail, r) = hi := by
  cases r <;> rfl

/-- A mapping call changes nothing in the driver. -/
theorem bdtunchMmap_fst (s : World) (vma : Vma) (fail : Option Nat) :
    (bdtunchMmap s vma fail).1 = s := by
  unfold bdtunchMmap World.mapEntry
  dsimp only
  split
  · rfl
  · split
    · rfl
    · split
      · rfl
      · split
        · rfl
        · split <;> rfl

theorem effect_read (s : World) (f : FileId) (count valid : Nat) (signal : Bool)
    (h : (bdtunchRead s count valid signal).2 ≠ .oops) :
    Effect s (.read f count valid signal) (bdtunchRead s count valid signal) := by
  unfold bdtunchRead at h ⊢
  split at h
  · next hcount =>
    subst hcount
    rw [if_pos rfl]
    unfold World.readHeader at h ⊢
    cases hl : s.dev.incomingBioList with
    | nil =>
      apply Effect.quiet
      intro hi
      cases signal
      · rfl
      · exact record_read hi _ _ _ _ _ _ (by simp)
    | cons a rest =>
      simp only [hl] at h ⊢
      cases he : s.entries a with
      | none => simp [he] at h
      | some entry => exact .delivered f valid signal a rest entry hl he
  · next hcount =>
    rw [if_neg hcount]
    unfold World.readPayload at h ⊢
    cases he : s.entries s.dev.dataCurrentBio with
    | none => simp [he] at h
    | some entry =>
      simp only
      split
      · exact .quiet _ _ fun hi => record_read hi _ _ _ _ _ _ (by simp)
      · exact .quiet _ _ fun hi => record_read hi _ _ _ _ _ _ (by simp)

theorem effect_write (s : World) (f : FileId) (buf : List UInt8) (valid : Nat)
    (h : (bdtunchWrite s buf valid).2 ≠ .oops) :
    Effect s (.write f buf valid) (bdtunchWrite s buf valid) := by
  by_cases hlen : buf.length = sizeofLong
  · rw [bdtunchWrite_set s buf valid hlen]
    exact .set f buf valid hlen
  · by_cases hone : buf.length = 1
    · obtain ⟨byte, rfl⟩ := List.length_eq_one_iff.mp hone
      rw [bdtunchWrite_byte] at h ⊢
      unfold World.complete at h ⊢
      cases he : s.entries s.dev.dataCurrentBio with
      | none => simp [he] at h
      | some entry => exact .completed f byte valid entry he
    · rw [bdtunchWrite_payload s buf valid hlen hone] at h ⊢
      unfold World.writePayload at h ⊢
      cases he : s.entries s.dev.dataCurrentBio with
      | none => simp [he] at h
      | some entry =>
        simp only
        split
        · exact .moved f buf valid _ _ hlen hone
        · exact .moved f buf valid s.mem _ hlen hone

/-- **What a call can do**, if it does not dereference a dead address. -/
theorem effect_of_next (s : World) (c : Call) (h : (tunnelNext s c).2 ≠ .oops) :
    Effect s c (tunnelNext s c) := by
  cases c with
  | submit bio new =>
    cases new with
    | none => exact .refused bio
    | some new => exact .queued bio new
  | chOpen f =>
    unfold tunnelNext
    cases hr : s.dev.removing with
    | true =>
      simp only [bdtunchOpen_of_removing hr]
      exact .quiet _ _ fun hi => by simp [Hist.record, ebusy]
    | false =>
      simp only [bdtunchOpen_of_not_removing hr]
      exact .opened f hr
  | chRelease f => exact .closed f
  | read f count valid signal => exact effect_read s f count valid signal h
  | write f buf valid => exact effect_write s f buf valid h
  | mmap f vma fail =>
    have hfst := bdtunchMmap_fst s vma fail
    have : tunnelNext s (.mmap f vma fail) = (s, (bdtunchMmap s vma fail).2) := Prod.ext hfst rfl
    rw [this]
    exact .quiet _ _ fun hi => record_mmap hi f vma fail _
  | tick => exact .ticked _

/-! ## The lists and the allocated entries -/

/-- Each allocated entry is on one of the two lists, once, at an address that fits a pointer. -/
structure World.Wf (s : World) : Prop where
  nodup : (s.dev.incomingBioList ++ s.dev.pendingBioList).Nodup
  live : ∀ a, (s.entries a).isSome ↔ a ∈ s.dev.incomingBioList ++ s.dev.pendingBioList
  addr : ∀ a, (s.entries a).isSome → a ≠ 0 ∧ a < 2 ^ bitsPerLong

/-- What does not touch lists and entries keeps `Wf`. -/
theorem World.Wf.congr {s t : World} (h : s.Wf)
    (hi : t.dev.incomingBioList = s.dev.incomingBioList)
    (hp : t.dev.pendingBioList = s.dev.pendingBioList) (he : t.entries = s.entries) : t.Wf := by
  refine ⟨?_, ?_, ?_⟩
  · rw [hi, hp]; exact h.nodup
  · rw [hi, hp, he]; exact h.live
  · rw [he]; exact h.addr

/-- What is on a list is allocated. -/
theorem World.Wf.entry_of_incoming {s : World} (h : s.Wf) {a : Addr}
    (ha : a ∈ s.dev.incomingBioList) : ∃ entry, s.entries a = some entry := by
  rw [← Option.isSome_iff_exists, h.live]
  exact List.mem_append_left _ ha

theorem World.Wf.entry_of_pending {s : World} (h : s.Wf) {a : Addr}
    (ha : a ∈ s.dev.pendingBioList) : ∃ entry, s.entries a = some entry := by
  rw [← Option.isSome_iff_exists, h.live]
  exact List.mem_append_right _ ha

/-- And on no other. -/
theorem World.Wf.not_incoming {s : World} (h : s.Wf) {a : Addr} (ha : a ∈ s.dev.pendingBioList) :
    a ∉ s.dev.incomingBioList := by
  intro hin
  exact (List.nodup_append'.mp h.nodup).2.2 hin ha

theorem World.Wf.publish {s : World} (h : s.Wf) (bio : Bio) {new : Addr}
    (hnew : s.entries new = none) (haddr : new ≠ 0 ∧ new < 2 ^ bitsPerLong) :
    (s.publish bio new).Wf := by
  have hfresh : new ∉ s.dev.incomingBioList ++ s.dev.pendingBioList := by
    rw [← h.live, hnew]; simp
  have hnodup := h.nodup
  simp only [List.nodup_append', List.mem_append, not_or, List.disjoint_left] at hnodup hfresh
  refine ⟨?_, fun a => ?_, fun a ha => ?_⟩
  · show (s.dev.incomingBioList ++ [new] ++ s.dev.pendingBioList).Nodup
    simp only [List.nodup_append', List.disjoint_left, List.mem_append, List.mem_singleton]
    refine ⟨⟨hnodup.1, by simp, fun a ha hn => hfresh.1 (hn ▸ ha)⟩, hnodup.2.1, ?_⟩
    rintro a (ha | rfl)
    · exact hnodup.2.2 ha
    · exact hfresh.2
  · have hlive := h.live a
    by_cases ha : a = new
    · subst ha; simp
    · simpa [ha] using hlive
  · by_cases hn : a = new
    · subst hn; exact haddr
    · exact h.addr a (by simpa [hn] using ha)

theorem World.Wf.deliver {s : World} (h : s.Wf) {a : Addr} {rest : List Addr}
    (hl : s.dev.incomingBioList = a :: rest) (entry : BioListEntry) :
    (s.deliver a rest entry).Wf := by
  have hperm : (rest ++ (s.dev.pendingBioList ++ [a])).Perm
      (s.dev.incomingBioList ++ s.dev.pendingBioList) := by
    rw [hl, ← List.append_assoc]
    exact List.perm_append_comm
  refine ⟨?_, fun b => ?_, h.addr⟩
  · exact hperm.nodup_iff.mpr h.nodup
  · exact (h.live b).trans hperm.mem_iff.symm

theorem World.Wf.finish {s : World} (h : s.Wf) (a : Addr) (entry : BioListEntry) (error : Int) :
    (s.finish a entry error).Wf := by
  have hnodup := h.nodup
  rw [List.nodup_append'] at hnodup
  refine ⟨?_, fun b => ?_, fun b hb => ?_⟩
  · have hsub : (s.dev.incomingBioList.erase a ++ s.dev.pendingBioList.erase a).Sublist
        (s.dev.incomingBioList ++ s.dev.pendingBioList) :=
      List.Sublist.append List.erase_sublist List.erase_sublist
    exact h.nodup.sublist hsub
  · have hlive := h.live b
    by_cases hb : b = a
    · subst hb
      simp [World.finish, hnodup.1.mem_erase_iff, hnodup.2.1.mem_erase_iff]
    · simpa [World.finish, hb, hnodup.1.mem_erase_iff, hnodup.2.1.mem_erase_iff] using hlive
  · by_cases hba : b = a
    · subst hba; simp [World.finish] at hb
    · exact h.addr b (by simpa [World.finish, hba] using hb)

theorem World.Wf.spliceBack {s t : World} (h : s.Wf)
    (hi : t.dev.incomingBioList = s.dev.incomingBioList ++ s.dev.pendingBioList)
    (hp : t.dev.pendingBioList = []) (he : t.entries = s.entries) : t.Wf := by
  refine ⟨?_, fun a => ?_, ?_⟩
  · rw [hi, hp, List.append_nil]; exact h.nodup
  · rw [hi, hp, List.append_nil, he]; exact h.live a
  · rw [he]; exact h.addr

theorem World.Wf.init (blockSize size : Nat) (mem : Mem) : (World.init blockSize size mem).Wf :=
  ⟨by simp [World.init, newBdtun], by simp [World.init, newBdtun], by simp [World.init]⟩

/-- Every call keeps `Wf`. -/
theorem World.Wf.next {s : World} (h : s.Wf) (c : Call) (hk : KmallocOk s c)
    (hr : (tunnelNext s c).2 ≠ .oops) : (tunnelNext s c).1.Wf := by
  have heff := effect_of_next s c hr
  generalize tunnelNext s c = res at heff
  cases heff with
  | refused bio => exact h.congr rfl rfl rfl
  | queued bio new => exact (h.publish bio hk.1 hk.2).congr rfl rfl rfl
  | opened f _ => exact h.congr rfl rfl rfl
  | closed f => exact h.spliceBack rfl rfl rfl
  | delivered f valid signal a rest entry hl _ => exact h.deliver hl entry
  | set f buf valid _ => exact h.congr rfl rfl rfl
  | completed f byte valid entry _ => exact h.finish _ _ _
  | moved f buf valid mem code _ _ => exact h.congr rfl rfl rfl
  | quiet c r _ => exact h
  | ticked j => exact h.congr rfl rfl rfl

/-- What the outside has seen tells the pending list and the cursor. -/
structure Shown (hi : Hist) (s : World) : Prop where
  owed : s.dev.pendingBioList = hi.owed
  lastSet : s.dev.dataCurrentBio = hi.lastSet

theorem Shown.next {hi : Hist} {s : World} (h : Shown hi s) (c : Call)
    (hr : (tunnelNext s c).2 ≠ .oops) :
    Shown (hi.record (c, (tunnelNext s c).2)) (tunnelNext s c).1 := by
  obtain ⟨howed, hlast⟩ := h
  have heff := effect_of_next s c hr
  generalize tunnelNext s c = res at heff
  cases heff with
  | refused bio => exact ⟨howed, hlast⟩
  | queued bio new => exact ⟨howed, hlast⟩
  | opened f _ => exact ⟨howed, hlast⟩
  | closed f => exact ⟨rfl, hlast⟩
  | delivered f valid signal a rest entry _ _ =>
    exact ⟨by simp [Hist.record, howed, header], hlast⟩
  | set f buf valid hlen =>
    refine ⟨?_, ?_⟩
    · simp [Hist.record, hlen, howed]
    · simp [Hist.record, hlen]
  | completed f byte valid entry _ =>
    refine ⟨?_, ?_⟩
    · simp [Hist.record, sizeofLong_ne_one.symm, World.finish, howed, hlast]
    · simp [Hist.record, sizeofLong_ne_one.symm, World.finish, hlast]
  | moved f buf valid mem code hlen hone =>
    have hrec : hi.record (.write f buf valid, .ret code .nothing) = hi := by
      simp [Hist.record, hlen, hone]
    exact ⟨by rw [hrec]; exact howed, by rw [hrec]; exact hlast⟩
  | quiet c r hq => rw [hq]; exact ⟨howed, hlast⟩
  | ticked j => exact ⟨howed, hlast⟩

/-- And each allocated entry is on one of its lists, on a device that has the driver for itself. -/
structure Tracks (hi : Hist) (s : World) : Prop where
  wf : s.Wf
  owed : s.dev.pendingBioList = hi.owed
  lastSet : s.dev.dataCurrentBio = hi.lastSet

theorem Tracks.next {hi : Hist} {s : World} (h : Tracks hi s) (c : Call) (hk : KmallocOk s c)
    (hr : (tunnelNext s c).2 ≠ .oops) :
    Tracks (hi.record (c, (tunnelNext s c).2)) (tunnelNext s c).1 := by
  have hshown : Shown hi s := ⟨h.owed, h.lastSet⟩
  obtain ⟨howed, hlast⟩ := hshown.next c hr
  exact ⟨h.wf.next c hk hr, howed, hlast⟩

/-- **In every run**, whatever the clients do, the pending list is what was delivered since the
last close and not completed, and the cursor is the id last set. -/
theorem run_tracks {P : Policy Call Ret} {blockSize size : Nat} {mem : Mem}
    {tr : List (Call × Ret)} {s : World}
    (h : Run tunnel P (World.init blockSize size mem) tr s) : Tracks (hist tr) s := by
  refine h.invariant (fun tr s => Tracks (hist tr) s) ?_ ?_
  · exact ⟨World.Wf.init _ _ _, rfl, rfl⟩
  · intro tr s c hs _ he
    rw [hist_snoc]
    exact hs.next c he.1 he.2

end

/-! ## A sample run -/

section
attribute [local instance] linux32

/-- A write of one block of page 7. -/
def sampleWrite : Bio := ⟨0, 1, 1, 512, 0, [.sector 7]⟩

/-- The write is submitted, read and set. -/
def sampleCalls : List Call :=
  [.submit sampleWrite (some 16), .chOpen 0, .read 0 32 32 false, .write 0 (wordBytes 8 16) 8]

end

end BDTun
