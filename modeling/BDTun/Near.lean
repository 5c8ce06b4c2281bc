import BDTun.Driver

/-!
# One device in two worlds

`Near v w`: the device of `v` is in `w` too, in the same state but for its sizes,
with the same entries on its lists and at the same time; what else `v` has, and
the pages, may differ.  A driver with many devices looks to each of them like such
a `v`.

* `Near.next`: every call that keeps to the entries of the device goes the same way
  in both, with answers that are alike.
* `SameQueues.node`: so do opens, closes and removals.
-/

namespace BDTun

open Memory Machine

section
variable [Kernel]

/-! ## The same device in two worlds -/

/-- Answers that agree in all but the bytes of a payload. -/
inductive AlikeRet : Ret → Ret → Prop
  | same (r : Ret) : AlikeRet r r
  | payload (code : Int) (bytes bytes' : List UInt8) (h : bytes.length = bytes'.length) :
      AlikeRet (.ret code (.data bytes)) (.ret code (.data bytes'))

/-- Two devices in the same state, but for their sizes. -/
structure SameQueues (b b' : Bdtun) : Prop where
  incoming : b'.incomingBioList = b.incomingBioList
  pending : b'.pendingBioList = b.pendingBioList
  cursor : b'.dataCurrentBio = b.dataCurrentBio
  removing : b'.removing = b.removing
  ucnt : b'.ucnt = b.ucnt
  part0 : b'.bdGd.part0 = b.bdGd.part0

/-- `w` has the device of `v`, the entries on its lists, and the clock. -/
structure Near (v w : World) : Prop where
  data : SameQueues v.dev w.dev
  entries : ∀ a ∈ v.dev.incomingBioList ++ v.dev.pendingBioList, w.entries a = v.entries a
  jiffies : w.jiffies = v.jiffies

variable {v w : World}

theorem copyOut_alike (mem mem' : Mem) (valid : Nat) (segs : List BioVec) (pos : Nat) :
    (copyOut mem valid segs pos).1.length = (copyOut mem' valid segs pos).1.length ∧
      (copyOut mem valid segs pos).2 = (copyOut mem' valid segs pos).2 := by
  induction segs generalizing pos with
  | nil => exact ⟨rfl, rfl⟩
  | cons bvec rest ih =>
    rw [copyOut, copyOut]
    split
    · obtain ⟨hlen, hok⟩ := ih (pos + bvec.bvLen)
      simp only [List.length_append, hlen, hok]
      simp [gather]
    · simp [gather]

theorem copyIn_alike (mem mem' : Mem) (buf : List UInt8) (valid : Nat) (segs : List BioVec)
    (pos : Nat) : (copyIn buf valid segs pos mem).2 = (copyIn buf valid segs pos mem').2 := by
  induction segs generalizing pos mem mem' with
  | nil => rfl
  | cons bvec rest ih =>
    rw [copyIn, copyIn]
    split
    · exact ih _ _ _
    · rfl

/-- A call that leaves the device and the entries alone. -/
theorem Near.still (hn : Near v w) {v' w' : World} (hv : v'.dev = v.dev) (hw : w'.dev = w.dev)
    (hve : v'.entries = v.entries) (hwe : w'.entries = w.entries) (hj : w'.jiffies = v'.jiffies) :
    Near v' w' :=
  ⟨by rw [hv, hw]; exact hn.data, by rw [hv, hve, hwe]; exact hn.entries, hj⟩

omit [Kernel] in
/-- What stays on two lists when an address is taken from both. -/
theorem mem_erased {l₁ l₂ : List Addr} (h : (l₁ ++ l₂).Nodup) {a b : Addr}
    (hb : b ∈ l₁.erase a ++ l₂.erase a) : b ∈ l₁ ++ l₂ ∧ b ≠ a := by
  have hlists := List.nodup_append'.mp h
  rcases List.mem_append.mp hb with hin | hin
  · obtain ⟨hne, hold⟩ := (hlists.1.mem_erase_iff).mp hin
    exact ⟨List.mem_append_left _ hold, hne⟩
  · obtain ⟨hne, hold⟩ := (hlists.2.1.mem_erase_iff).mp hin
    exact ⟨List.mem_append_right _ hold, hne⟩

theorem Near.finish (hn : Near v w)
    (hnodup : (v.dev.incomingBioList ++ v.dev.pendingBioList).Nodup) (a : Addr)
    (entry : BioListEntry) (error : Int) : Near (v.finish a entry error) (w.finish a entry error) := by
  obtain ⟨hi, hp, hc, hr, hu, hpart⟩ := hn.data
  refine ⟨⟨?_, ?_, hc, hr, hu, ?_⟩, fun b hb => ?_, hn.jiffies⟩
  · show w.dev.incomingBioList.erase a = v.dev.incomingBioList.erase a
    rw [hi]
  · show w.dev.pendingBioList.erase a = v.dev.pendingBioList.erase a
    rw [hp]
  · simp only [World.finish, World.kfree, World.listDel, World.updateIostat, World.bioEndio, hpart,
      hn.jiffies]
  · have hold : b ∈ v.dev.incomingBioList ++ v.dev.pendingBioList ∧ b ≠ a := mem_erased hnodup hb
    show Function.update w.entries a none b = Function.update v.entries a none b
    rw [Function.update_of_ne hold.2, Function.update_of_ne hold.2]
    exact hn.entries b hold.1

/-- What a call does with an entry of the device. -/
theorem Near.body (hn : Near v w)
    (hnodup : (v.dev.incomingBioList ++ v.dev.pendingBioList).Nodup) {c : Call} {a : Addr}
    (ha : a ∈ v.dev.incomingBioList ++ v.dev.pendingBioList) (htarget : c.target v = some a)
    (hr : (c.body v a).2 ≠ .oops) :
    AlikeRet (c.body v a).2 (c.body w a).2 ∧ Near (c.body v a).1 (c.body w a).1 := by
  have hentry := hn.entries a ha
  cases hlive : v.entries a with
  | none => exact absurd (body_of_dead htarget hlive) hr
  | some entry =>
    rw [hlive] at hentry
    cases c with
    | submit bio new => cases htarget
    | chOpen f => cases htarget
    | chRelease f => cases htarget
    | tick => cases htarget
    | read f count valid signal =>
      simp only [Call.body, World.readPayload, hlive, hentry]
      obtain ⟨hlen, hok⟩ := copyOut_alike v.mem w.mem valid entry.bio.segments 0
      split
      · rw [hok]
        exact ⟨.payload _ _ _ hlen, hn⟩
      · exact ⟨.same _, hn⟩
    | mmap f vma fail =>
      simp only [Call.body, World.mapEntry, hlive, hentry]
      split
      · exact ⟨.same _, hn⟩
      · split
        · exact ⟨.same _, hn⟩
        · exact ⟨.same _, hn⟩
    | write f buf valid =>
      simp only [Call.body]
      split
      · simp only [World.complete, hlive, hentry]
        exact ⟨.same _, hn.finish hnodup a entry _⟩
      · simp only [World.writePayload, hlive, hentry]
        have hok := copyIn_alike v.mem w.mem buf valid entry.bio.segments 0
        split
        · rw [hok]
          exact ⟨.same _, hn.still rfl rfl rfl rfl hn.jiffies⟩
        · exact ⟨.same _, hn⟩

/-- A header read, on the device's own list. -/
theorem Near.readHeader (hn : Near v w) (signal : Bool) (hr : (v.readHeader signal).2 ≠ .oops) :
    AlikeRet (v.readHeader signal).2 (w.readHeader signal).2 ∧
      Near (v.readHeader signal).1 (w.readHeader signal).1 := by
  have hincoming := hn.data.incoming
  unfold World.readHeader at hr ⊢
  rw [hincoming]
  cases hlist : v.dev.incomingBioList with
  | nil => exact ⟨.same _, hn⟩
  | cons a rest =>
    simp only [hlist] at hr ⊢
    have hentry := hn.entries a (List.mem_append_left _ (by rw [hlist]; exact List.mem_cons_self))
    cases hlive : v.entries a with
    | none => simp [hlive] at hr
    | some entry =>
      rw [hlive] at hentry
      simp only [hentry]
      refine ⟨.same _, ⟨⟨rfl, ?_, hn.data.cursor, hn.data.removing, hn.data.ucnt, hn.data.part0⟩,
        fun b hb => ?_, hn.jiffies⟩⟩
      · show w.dev.pendingBioList ++ [a] = v.dev.pendingBioList ++ [a]
        rw [hn.data.pending]
      · refine hn.entries b ?_
        have hperm : (rest ++ (v.dev.pendingBioList ++ [a])).Perm
            (v.dev.incomingBioList ++ v.dev.pendingBioList) := by
          rw [hlist, ← List.append_assoc]
          exact List.perm_append_comm
        exact hperm.mem_iff.mp hb

theorem Near.submit (hn : Near v w) (bio : Bio) (new : Option Addr) :
    Near (bdtunMakeRequest v bio new) (bdtunMakeRequest w bio new) := by
  obtain ⟨hi, hp, hc, hr, hu, hpart⟩ := hn.data
  cases new with
  | none => exact hn.still rfl rfl rfl rfl hn.jiffies
  | some new =>
    refine ⟨⟨?_, hp, hc, hr, hu, ?_⟩, fun a ha => ?_, hn.jiffies⟩
    · show w.dev.incomingBioList ++ [new] = v.dev.incomingBioList ++ [new]
      rw [hi]
    · simp only [bdtunMakeRequest, World.publish, World.account, hpart]
    · show Function.update w.entries new (some ⟨bio, w.jiffies⟩) a =
        Function.update v.entries new (some ⟨bio, v.jiffies⟩) a
      rw [hn.jiffies]
      by_cases hnew : a = new
      · rw [hnew, Function.update_self, Function.update_self]
      · rw [Function.update_of_ne hnew, Function.update_of_ne hnew]
        refine hn.entries a ?_
        have hmem : a ∈ v.dev.incomingBioList ++ [new] ++ v.dev.pendingBioList := ha
        simp only [List.mem_append, List.mem_singleton] at hmem ⊢
        rcases hmem with (hmem | hmem) | hmem
        · exact .inl hmem
        · exact absurd hmem hnew
        · exact .inr hmem

omit [Kernel] in
/-- An open or a close of a node, or the check of a removal. -/
theorem SameQueues.node {b b' : Bdtun} (hs : SameQueues b b') (c : NodeCall) :
    (nodeNext b' c).2 = (nodeNext b c).2 ∧ SameQueues (nodeNext b c).1 (nodeNext b' c).1 := by
  obtain ⟨hi, hp, hc, hr, hu, hpart⟩ := hs
  cases c with
  | opens k =>
    obtain ⟨node, n⟩ := k
    cases node with
    | block =>
      simp only [nodeNext, bdtunOpen, hr, hu]
      split
      · exact ⟨rfl, hi, hp, hc, hr, hu, hpart⟩
      · exact ⟨rfl, hi, hp, hc, rfl, rfl, hpart⟩
    | tunnel =>
      simp only [nodeNext, bdtunchOpen, hr, hu]
      split
      · exact ⟨rfl, hi, hp, hc, hr, hu, hpart⟩
      · exact ⟨rfl, hi, hp, hc, rfl, rfl, hpart⟩
  | releases k =>
    obtain ⟨node, n⟩ := k
    cases node with
    | block => exact ⟨rfl, hi, hp, hc, hr, congrArg (· - 1) hu, hpart⟩
    | tunnel =>
      refine ⟨rfl, ?_, rfl, hc, hr, congrArg (· - 1) hu, hpart⟩
      show b'.incomingBioList ++ b'.pendingBioList = b.incomingBioList ++ b.pendingBioList
      rw [hi, hp]
  | remove =>
    simp only [nodeNext, removeCheck, hr, hu]
    split
    · exact ⟨rfl, hi, hp, hc, hr, hu, hpart⟩
    · split
      · exact ⟨rfl, hi, hp, hc, hr, hu, hpart⟩
      · exact ⟨rfl, hi, hp, hc, rfl, rfl, hpart⟩

/-- **Every call** goes the same way in both worlds, if it keeps to the entries of the device. -/
theorem Near.next (hn : Near v w)
    (hnodup : (v.dev.incomingBioList ++ v.dev.pendingBioList).Nodup) {c : Call}
    (hfile : c.onFile = true) (hr : (tunnelNext v c).2 ≠ .oops)
    (hown : ∀ a ∈ c.target v, a ∈ v.dev.incomingBioList ++ v.dev.pendingBioList) :
    AlikeRet (tunnelNext v c).2 (tunnelNext w c).2 ∧ Near (tunnelNext v c).1 (tunnelNext w c).1 := by
  have hsame : c.target w = c.target v := by
    cases c <;> simp only [Call.target, hn.data.cursor]
  cases htarget : c.target v with
  | some a =>
    rw [(next_of_target htarget).2] at hr ⊢
    rw [htarget] at hsame
    rw [(next_of_target hsame).2]
    exact hn.body hnodup (hown a htarget) htarget hr
  | none =>
    cases c with
    | chOpen f => cases hfile
    | chRelease f => cases hfile
    | tick => cases hfile
    | submit bio new => exact ⟨.same _, hn.submit bio new⟩
    | read f count valid signal =>
      have hcount : count = bdtunTxreqHeaderSize := by
        by_contra hne
        simp [Call.target, hne] at htarget
      simp only [tunnelNext, bdtunchRead, if_pos hcount] at hr ⊢
      exact hn.readHeader signal hr
    | write f buf valid =>
      have hlen : buf.length = sizeofLong := by
        by_contra hne
        simp [Call.target, hne] at htarget
      simp only [tunnelNext, bdtunchWrite_set _ _ _ hlen]
      exact ⟨.same _, ⟨⟨hn.data.incoming, hn.data.pending, rfl, hn.data.removing, hn.data.ucnt,
        hn.data.part0⟩, hn.entries, hn.jiffies⟩⟩
    | mmap f vma fail =>
      have hshared : vma.shared = false := by
        by_contra hne
        simp [Call.target, hne] at htarget
      simp only [tunnelNext, bdtunchMmap, vma_offset_aligned, hshared]
      exact ⟨.same _, hn⟩

/-- The same device in a state where nothing of it has changed. -/
theorem Near.congr (hn : Near v w) {v' : World} (hd : SameQueues v.dev v'.dev)
    (he : ∀ a ∈ v.dev.incomingBioList ++ v.dev.pendingBioList, v'.entries a = v.entries a)
    (hj : v'.jiffies = v.jiffies) : Near v' w := by
  refine ⟨⟨hn.data.incoming.trans hd.incoming.symm, hn.data.pending.trans hd.pending.symm,
    hn.data.cursor.trans hd.cursor.symm, hn.data.removing.trans hd.removing.symm,
    hn.data.ucnt.trans hd.ucnt.symm, hn.data.part0.trans hd.part0.symm⟩, fun a ha => ?_,
    hn.jiffies.trans hj.symm⟩
  rw [hd.incoming, hd.pending] at ha
  rw [hn.entries a ha, he a ha]

omit [Kernel] in
theorem SameQueues.refl (b : Bdtun) : SameQueues b b := ⟨rfl, rfl, rfl, rfl, rfl, rfl⟩

end

end BDTun
