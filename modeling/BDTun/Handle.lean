import BDTun.Library

/-!
# The data-current entry: which entry a call acts on

`Call.target` is the address a call dereferences as the data-current entry and
`Call.body` what the call then does (`next_of_target`).

* `read_request_current`: a header read does not move the cursor, so the
  request read is the one acted on exactly when the cursor was there already.
-/

namespace BDTun

open Memory Machine

section
variable [Kernel]

/-- The address a call dereferences as the data-current entry, if it is a payload read or write, a
completion or a shared mapping. -/
def Call.target (s : World) : Call → Option Addr
  | .read _ count _ _ => if count = bdtunTxreqHeaderSize then none else some s.dev.dataCurrentBio
  | .write _ buf _ => if buf.length = sizeofLong then none else some s.dev.dataCurrentBio
  | .mmap _ vma _ => if vma.shared then some s.dev.dataCurrentBio else none
  | _ => none

/-- What such a call does with the entry at an address. -/
def Call.body (s : World) (a : Addr) : Call → World × Ret
  | .read _ count valid _ => s.readPayload a count valid
  | .write _ buf valid =>
    match buf with
    | [byte] => s.complete a byte
    | buf => s.writePayload a buf valid
  | .mmap _ vma fail => s.mapEntry a vma fail
  | _ => (s, .oops)

/-- A page offset is always a multiple of the page size. -/
theorem vma_offset_aligned (pgoff : Nat) : pgoff <<< pageShift % 2 ^ bitsPerLong % pageSize = 0 := by
  rw [Nat.shiftLeft_eq, pageSize]
  rcases Nat.le_total pageShift bitsPerLong with h | h
  · rw [Nat.mod_mod_of_dvd _ (Nat.pow_dvd_pow 2 h), Nat.mul_mod_left]
  · have hdvd : 2 ^ bitsPerLong ∣ pgoff * 2 ^ pageShift :=
      Dvd.dvd.mul_left (Nat.pow_dvd_pow 2 h) pgoff
    rw [Nat.mod_eq_zero_of_dvd hdvd, Nat.zero_mod]

/-- A call with a target is its body there. -/
theorem next_of_target {s : World} {c : Call} {a : Addr} (h : c.target s = some a) :
    a = s.dev.dataCurrentBio ∧ tunnelNext s c = c.body s a := by
  cases c with
  | read f count valid signal =>
    simp only [Call.target] at h
    split at h
    · cases h
    · next hcount =>
      cases h
      exact ⟨rfl, by simp only [tunnelNext, bdtunchRead, if_neg hcount, Call.body]⟩
  | write f buf valid =>
    simp only [Call.target] at h
    split at h
    · cases h
    · next hlen =>
      cases h
      refine ⟨rfl, ?_⟩
      show bdtunchWrite s buf valid = _
      unfold bdtunchWrite
      exact if_neg hlen
  | mmap f vma fail =>
    simp only [Call.target] at h
    split at h
    · next hshared =>
      cases h
      refine ⟨rfl, ?_⟩
      simp only [tunnelNext, bdtunchMmap, Call.body, vma_offset_aligned, hshared]
      simp
    · cases h
  | submit bio new => cases h
  | chOpen f => cases h
  | chRelease f => cases h
  | tick => cases h

/-- Where no entry is allocated, the body is a fault. -/
theorem body_of_dead {s : World} {c : Call} {a : Addr} (h : c.target s = some a)
    (hdead : s.entries a = none) : (c.body s a).2 = .oops := by
  cases c with
  | read f count valid signal => simp [Call.body, World.readPayload, hdead]
  | write f buf valid =>
    simp only [Call.body]
    split
    · simp [World.complete, hdead]
    · simp [World.writePayload, hdead]
  | mmap f vma fail => simp [Call.body, World.mapEntry, hdead]
  | submit bio new => cases h
  | chOpen f => cases h
  | chRelease f => cases h
  | tick => cases h

/-- Where one is, it is not. -/
theorem body_of_live {s : World} {c : Call} {a : Addr} {entry : BioListEntry}
    (h : c.target s = some a) (hlive : s.entries a = some entry) : (c.body s a).2 ≠ .oops := by
  cases c with
  | read f count valid signal =>
    simp only [Call.body, World.readPayload, hlive]
    split <;> simp
  | write f buf valid =>
    simp only [Call.body]
    split
    · simp [World.complete, hlive]
    · simp only [World.writePayload, hlive]
      split <;> simp
  | mmap f vma fail =>
    simp only [Call.body, World.mapEntry, hlive]
    split
    · simp
    · split <;> simp
  | submit bio new => cases h
  | chOpen f => cases h
  | chRelease f => cases h
  | tick => cases h

/-- A call without one does not fault. -/
theorem next_of_no_target {s : World} (hwf : s.Wf) {c : Call} (h : c.target s = none) :
    (tunnelNext s c).2 ≠ .oops := by
  cases c with
  | read f count valid signal =>
    simp only [Call.target] at h
    split at h
    · next hcount =>
      simp only [tunnelNext, bdtunchRead, if_pos hcount, World.readHeader]
      cases hl : s.dev.incomingBioList with
      | nil => cases signal <;> simp
      | cons a rest =>
        have hmem : a ∈ s.dev.incomingBioList := by rw [hl]; exact List.mem_cons_self
        obtain ⟨entry, he⟩ := hwf.entry_of_incoming hmem
        simp [he]
    · cases h
  | write f buf valid =>
    simp only [Call.target] at h
    split at h
    · next hlen =>
      simp only [tunnelNext, bdtunchWrite_set s buf valid hlen]
      simp
    · cases h
  | mmap f vma fail =>
    simp only [Call.target] at h
    split at h
    · cases h
    · next hshared =>
      simp only [tunnelNext, bdtunchMmap, vma_offset_aligned]
      simp [hshared]
  | submit bio new => simp [tunnelNext]
  | chOpen f => simp [tunnelNext]
  | chRelease f => simp [tunnelNext]
  | tick => simp [tunnelNext]

/-! ## What a header read makes current -/

/-- A successful `bdtun_read_request` or `bdtun_set_request`. -/
def MovesCursor : Call × Ret → Prop
  | (.read _ _ _ _, .ret _ (.header _)) => True
  | (.write _ buf _, .ret _ _) => buf.length = sizeofLong
  | _ => False

/-- From here to the next successful `bdtun_read_request` or `bdtun_set_request`, every call that acts
on an entry while the request is outstanding acts on the request's. -/
def StaysCurrent (tr : List (Call × Ret)) (s : World) (req : Txreq) : Prop :=
  ∀ more t, Path tunnel vfs tr s more t → (∀ e ∈ more, ¬ MovesCursor e) →
    req.id ∈ t.dev.pendingBioList → ∀ c, vfs (tr ++ more) c → ∀ a, c.target t = some a →
      a = req.id ∧ t.entries a = s.entries req.id

/-- What the library says of `bdtun_read_request`: the request it returns is the data-current one. -/
def ReadMakesCurrent (blockSize size : Nat) (mem : Mem) : Prop :=
  ∀ tr s, Run tunnel vfs (World.init blockSize size mem) tr s →
    ∀ f signal, vfs tr (bdtunReadRequest f signal).call →
      ∀ t code req, tunnelNext s (bdtunReadRequest f signal).call = (t, .ret code (.header req)) →
        StaysCurrent (tr ++ [((bdtunReadRequest f signal).call, .ret code (.header req))]) t req

/-- A successful `bdtun_read_request` hands out the first incoming entry and leaves the cursor. -/
theorem read_request_effect {s t : World} {f : FileId} {signal : Bool} {code : Int} {req : Txreq}
    (h : tunnelNext s (bdtunReadRequest f signal).call = (t, .ret code (.header req))) :
    s.dev.incomingBioList.head? = some req.id ∧ t.dev.dataCurrentBio = s.dev.dataCurrentBio ∧
      req.id ∈ t.dev.pendingBioList := by
  have hr : (tunnelNext s (bdtunReadRequest f signal).call).2 ≠ .oops := by rw [h]; simp
  have heff := effect_of_next s _ hr
  rw [h] at heff
  generalize hc : (bdtunReadRequest f signal).call = c at heff
  generalize hres : (t, Ret.ret code (Out.header req)) = res at heff
  cases heff with
  | delivered f valid signal a rest entry hl he =>
    simp only [Prod.mk.injEq, Ret.ret.injEq, Out.header.injEq] at hres
    obtain ⟨rfl, rfl, rfl⟩ := hres
    exact ⟨by rw [hl]; rfl, rfl, by simp [header]⟩
  | quiet c r hq =>
    simp only [Prod.mk.injEq] at hres
    obtain ⟨rfl, rfl⟩ := hres
    have := congrArg Hist.owed (hq ⟨[], [], 0, []⟩)
    rw [← hc] at this
    simp [Hist.record, bdtunReadRequest] at this
  | refused bio => simp at hres
  | queued bio new => simp at hres
  | opened f _ => simp at hres
  | closed f => simp at hres
  | set f buf valid _ => simp at hres
  | completed f byte valid entry _ => simp at hres
  | moved f buf valid mem code _ _ => simp at hres
  | ticked j => simp at hres

/-- A call that does not move the cursor leaves it, and the entries that stay pending. -/
theorem next_cursor {s : World} (hwf : s.Wf) (c : Call) (hk : KmallocOk s c)
    (hr : (tunnelNext s c).2 ≠ .oops) (hm : ¬ MovesCursor (c, (tunnelNext s c).2)) :
    (tunnelNext s c).1.dev.dataCurrentBio = s.dev.dataCurrentBio ∧
    ∀ a ∈ (tunnelNext s c).1.dev.pendingBioList,
      a ∈ s.dev.pendingBioList ∧ (tunnelNext s c).1.entries a = s.entries a := by
  have hnodup := List.nodup_append'.mp hwf.nodup
  have heff := effect_of_next s c hr
  generalize tunnelNext s c = res at heff hm
  cases heff with
  | refused bio => exact ⟨rfl, fun a ha => ⟨ha, rfl⟩⟩
  | queued bio new =>
    refine ⟨rfl, fun a ha => ⟨ha, ?_⟩⟩
    have hne : a ≠ new := by
      intro h
      obtain ⟨entry, he⟩ := hwf.entry_of_pending ha
      rw [h, hk.1] at he
      cases he
    simp [hne]
  | opened f _ => exact ⟨rfl, fun a ha => ⟨ha, rfl⟩⟩
  | closed f => exact ⟨rfl, fun a ha => by simp [bdtunchRelease] at ha⟩
  | delivered f valid signal a rest entry _ _ => exact absurd trivial hm
  | set f buf valid hlen => exact absurd hlen hm
  | completed f byte valid entry he =>
    refine ⟨rfl, fun a ha => ?_⟩
    simp only [World.finish, World.kfree_dev, World.listDel_dev_pendingBioList] at ha
    have hmem := hnodup.2.1.mem_erase_iff.mp ha
    exact ⟨hmem.2, Function.update_of_ne hmem.1 _ _⟩
  | moved f buf valid mem code _ _ => exact ⟨rfl, fun a ha => ⟨ha, rfl⟩⟩
  | quiet c r _ => exact ⟨rfl, fun a ha => ⟨ha, rfl⟩⟩
  | ticked j => exact ⟨rfl, fun a ha => ⟨ha, rfl⟩⟩

/-- Along a path that does not move the cursor, what is pending at the end was pending all along. -/
theorem path_cursor {P : Policy Call Ret} {tr more : List (Call × Ret)} {s t : World}
    (hwf : s.Wf) (h : Path tunnel P tr s more t) (hm : ∀ e ∈ more, ¬ MovesCursor e) :
    t.Wf ∧ t.dev.dataCurrentBio = s.dev.dataCurrentBio ∧
      ∀ a ∈ t.dev.pendingBioList, t.entries a = s.entries a := by
  induction h with
  | refl => exact ⟨hwf, rfl, fun a _ => rfl⟩
  | @step more t c _ _ he ih =>
    obtain ⟨htwf, hcur, hent⟩ := ih fun e he => hm e (List.mem_append_left _ he)
    have hlast : ¬ MovesCursor (c, (tunnelNext t c).2) := hm _ (by simp [tunnel])
    obtain ⟨hcur', hent'⟩ := next_cursor htwf c he.1 he.2 hlast
    refine ⟨htwf.next c he.1 he.2, hcur'.trans hcur, fun a ha => ?_⟩
    obtain ⟨hmem, heq⟩ := hent' a ha
    exact heq.trans (hent a hmem)

/-- **When a header read makes its request current.**  In every run: exactly when the id last set on
the device, before the read, is the address of the first incoming entry. -/
theorem read_request_current {blockSize size : Nat} {mem : Mem} {tr : List (Call × Ret)}
    {s t : World} (hrun : Run tunnel vfs (World.init blockSize size mem) tr s) (f : FileId)
    (signal : Bool) (hv : vfs tr (bdtunReadRequest f signal).call) (code : Int) (req : Txreq)
    (hread : tunnelNext s (bdtunReadRequest f signal).call = (t, .ret code (.header req))) :
    StaysCurrent (tr ++ [((bdtunReadRequest f signal).call, .ret code (.header req))]) t req ↔
      s.dev.incomingBioList.head? = some (hist tr).lastSet := by
  obtain ⟨hwf, -, hlast⟩ := run_tracks hrun
  obtain ⟨hhead, hcur, hpend⟩ := read_request_effect hread
  have htwf : t.Wf := by
    have := hwf.next (bdtunReadRequest f signal).call trivial (by rw [hread]; simp)
    rwa [hread] at this
  rw [hhead, Option.some.injEq, ← hlast, ← hcur]
  constructor
  · intro h
    have hopen : f ∈ (hist tr).files := hv
    have hc : vfs (tr ++ [((bdtunReadRequest f signal).call, .ret code (.header req))] ++ [])
        (.write f [0] 1) := by
      rw [List.append_nil]
      simpa [vfs, Hist.record, bdtunReadRequest] using hopen
    have htarget : (Call.write f [0] 1).target t = some t.dev.dataCurrentBio :=
      if_neg fun h => sizeofLong_ne_one h.symm
    exact (h [] t .refl (by simp) hpend _ hc _ htarget).1.symm
  · intro hid more u hpath hm hmem c _ a ht
    obtain ⟨-, hcur', hent⟩ := path_cursor htwf hpath hm
    obtain ⟨ha, -⟩ := next_of_target ht
    have hau : a = req.id := by rw [ha, hcur', hid]
    exact ⟨hau, by rw [hau]; exact hent _ hmem⟩

end

section
attribute [local instance] linux32

/-- The first request of a new device is not the data-current one once it is read. -/
theorem read_request_not_current : ¬ ReadMakesCurrent 512 1024 fun _ => 0 := by
  intro h
  have hrun := @path_exec _ _ _ tunnel vfs [] (World.init 512 1024 fun _ => 0)
    [.submit sampleWrite (some 16), .chOpen 0] (by decide)
  have hcur := h _ _ hrun 0 false (by decide) _ _ _ rfl [] _ .refl (by simp) (by decide)
    (.write 0 [0] 1) (by decide) 0 rfl
  exact absurd hcur.1 (by decide)

/-- Read again after a close, with the id set before it, a request is current. -/
theorem read_request_current_sample :
    let tr := sampleCalls ++ [.chRelease 0, .chOpen 0]
    (exec tunnel (World.init 512 1024 fun _ => 0) tr).dev.incomingBioList.head? = some 16 ∧
    ∃ t code req, tunnelNext (exec tunnel (World.init 512 1024 fun _ => 0) tr)
        (bdtunReadRequest 0 false).call = (t, .ret code (.header req)) ∧
      StaysCurrent (traceOf tunnel (World.init 512 1024 fun _ => 0) tr ++
        [((bdtunReadRequest 0 false).call, .ret code (.header req))]) t req := by
  have hrun := @path_exec _ _ _ tunnel vfs [] (World.init 512 1024 fun _ => 0)
    (sampleCalls ++ [.chRelease 0, .chOpen 0]) (by decide)
  refine ⟨by decide, _, _, _, rfl, ?_⟩
  exact (read_request_current hrun 0 false (by decide) _ _ rfl).mpr (by decide)

end

end BDTun
