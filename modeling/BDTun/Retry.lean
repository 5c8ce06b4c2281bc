import BDTun.Calls
import BDTun.Transfer

/-!
# Payload transfers that fail and are tried again

The user's buffer can end, or become inaccessible, at any byte; the copy loops
then stop in the middle of a segment with `-EIO`, and leave the request pending,
so that the client can try again.

* `copyIn_frame`, `copyIn_short`, `copyOut_short`: the loops, if a copy fails.
* `transfer_exact`: what a payload call returns and what it leaves, and that any
  number of failed calls before one that succeeds make no difference to it.
-/

namespace BDTun

open Memory Machine

section
variable [Kernel]

/-! ## The loops, if a copy fails -/

theorem copyOut_short (mem : Mem) {valid : Nat} (segs : List BioVec) {pos : Nat}
    (hpos : pos ≤ valid) (h : valid < pos + totalLen segs) :
    (copyOut mem valid segs pos).2 = false := by
  induction segs generalizing pos with
  | nil =>
    rw [totalLen_nil] at h
    omega
  | cons bvec rest ih =>
    rw [totalLen_cons] at h
    unfold copyOut
    by_cases hfits : pos + bvec.bvLen ≤ valid
    · rw [if_pos hfits]
      exact ih hfits (by omega)
    · rw [if_neg hfits]

theorem copyIn_short (buf : List UInt8) {valid : Nat} (segs : List BioVec) {pos : Nat} (mem : Mem)
    (hpos : pos ≤ valid) (h : valid < pos + totalLen segs) :
    (copyIn buf valid segs pos mem).2 = false := by
  induction segs generalizing pos mem with
  | nil =>
    rw [totalLen_nil] at h
    omega
  | cons bvec rest ih =>
    rw [totalLen_cons] at h
    unfold copyIn
    by_cases hfits : pos + bvec.bvLen ≤ valid
    · rw [if_pos hfits]
      exact ih _ hfits (by omega)
    · rw [if_neg hfits]

/-- Whether the loop gets to its end or not, it writes to the segments only. -/
theorem copyIn_frame (buf : List UInt8) (valid : Nat) (segs : List BioVec) (pos : Nat) (mem : Mem)
    {place : Place} (h : place ∉ segs.flatMap BioVec.places) :
    (copyIn buf valid segs pos mem).1 place = mem place := by
  induction segs generalizing pos mem with
  | nil => rfl
  | cons bvec rest ih =>
    rw [List.flatMap_cons, List.mem_append, not_or] at h
    unfold copyIn
    by_cases hfits : pos + bvec.bvLen ≤ valid
    · rw [if_pos hfits, ih _ _ h.2, scatter_of_notMem _ _ _ _ h.1]
    · rw [if_neg hfits]
      exact scatter_of_notMem _ _ _ _ h.1

/-! ## Payload calls -/

/-- A payload read or write. -/
inductive Transfer
  | read (count valid : Nat) (signal : Bool)
  | write (buf : List UInt8) (valid : Nat)

/-- The count of the call; not the size of a message that is no payload. -/
def Transfer.IsPayload : Transfer → Prop
  | .read count _ _ => count ≠ bdtunTxreqHeaderSize
  | .write buf _ => buf.length ≠ sizeofLong ∧ buf.length ≠ 1

def Transfer.count : Transfer → Nat
  | .read count _ _ => count
  | .write buf _ => buf.length

/-- The bytes at the start of the user's buffer that can be accessed. -/
def Transfer.valid : Transfer → Nat
  | .read _ valid _ => valid
  | .write _ valid => valid

/-- The direction of the bios it is for. -/
def Transfer.dir : Transfer → Nat
  | .read _ _ _ => dirWrite
  | .write _ _ => dirRead

def Transfer.run (s : World) : Transfer → World × Ret
  | .read count valid signal => bdtunchRead s count valid signal
  | .write buf valid => bdtunchWrite s buf valid

/-- The payload calls that fail. -/
def failedTransfers : Machine World Transfer Ret where
  enabled s c := c.IsPayload ∧ ∃ out, (c.run s).2 = .ret (-eio) out
  next s c := c.run s

/-- The user's buffer after a read. -/
def userBuffer (ub : List UInt8) : Ret → List UInt8
  | .ret _ (.data bytes) => bytes ++ ub.drop bytes.length
  | _ => ub

/-- The concatenation of the segments' bytes. -/
def Bio.contents (bio : Bio) (mem : Mem) : List UInt8 :=
  bio.segments.flatMap fun bvec => gather mem bvec.places

/-- The data-current request, pending, with segments that are apart and have its size. -/
structure Transferable (s : World) (bio : Bio) : Prop where
  current : s.bioAt s.dev.dataCurrentBio = some bio
  pending : s.dev.dataCurrentBio ∈ s.dev.pendingBioList
  apart : bio.places.Nodup
  total : totalLen bio.segments = bio.biSize
  sectors : 0 < bio.biSize ∧ kernelSectorSize ∣ bio.biSize

/-- What a payload call did for its client. -/
structure Moved (s : World) (bio : Bio) (c : Transfer) (t : World) (r : Ret) : Prop where
  /-- a read that returns the size fills the buffer with the segments' bytes -/
  read : ∀ count valid signal out, c = .read count valid signal → r = .ret bio.biSize out →
    ∀ ub, ub.length = bio.biSize → userBuffer ub r = bio.contents s.mem
  /-- a write that returns the size leaves in each segment its slice of the buffer -/
  write : ∀ buf valid out, c = .write buf valid → r = .ret bio.biSize out →
    ∀ i (hi : i < bio.segments.length), gather t.mem bio.segments[i].places =
      (buf.drop (totalLen (bio.segments.take i))).take bio.segments[i].bvLen
  /-- nothing but pages changes: the request stays as it is -/
  kept : t = { s with mem := t.mem }
  unread : ∀ count valid signal, c = .read count valid signal → t.mem = s.mem
  frame : ∀ place, place ∉ bio.places → t.mem place = s.mem place
  /-- it succeeds exactly in the direction of the bio, with its size and the whole buffer -/
  success : (∃ out, r = .ret bio.biSize out) ↔
    bioDataDir bio = c.dir ∧ c.count = bio.biSize ∧ bio.biSize ≤ c.valid
  failure : (∃ out, r = .ret bio.biSize out) ∨ ∃ out, r = .ret (-eio) out
  refused : ¬ (bioDataDir bio = c.dir ∧ c.count = bio.biSize) → t = s ∧ r = .ret (-eio) .nothing

theorem contents_eq (bio : Bio) (mem : Mem) : bio.contents mem = gather mem bio.places := by
  unfold Bio.contents gather Bio.places
  rw [List.map_flatMap]

/-- Bytes in a row, cut up by the segments they are in. -/
theorem gather_segment {mem : Mem} {segs : List BioVec} {bytes : List UInt8}
    (h : gather mem (segs.flatMap BioVec.places) = bytes) (i : Nat) (hi : i < segs.length) :
    gather mem segs[i].places = (bytes.drop (totalLen (segs.take i))).take segs[i].bvLen := by
  induction segs generalizing bytes i with
  | nil => simp at hi
  | cons bvec rest ih =>
    rw [List.flatMap_cons, gather_append] at h
    have hlen : (gather mem bvec.places).length = bvec.bvLen := by simp [gather]
    cases i with
    | zero =>
      show gather mem bvec.places = (bytes.drop 0).take bvec.bvLen
      rw [List.drop_zero, ← h, ← hlen, List.take_left]
    | succ i =>
      have hrest : gather mem (rest.flatMap BioVec.places) = bytes.drop bvec.bvLen := by
        rw [← h, ← hlen, List.drop_left]
      have hsegment := ih hrest i (by simpa using hi)
      rw [List.drop_drop] at hsegment
      simpa using hsegment

/-- A call with the size of the request is never a message of another kind. -/
theorem Transferable.isPayload {s : World} {bio : Bio} (h : Transferable s bio) {c : Transfer}
    (hc : c.count = bio.biSize) : c.IsPayload := by
  obtain ⟨hpos, n, hn⟩ := h.sectors
  unfold kernelSectorSize at hn
  have hlong := sizeofLong_eq
  cases c with
  | read count valid signal =>
    have hcount : count = bio.biSize := hc
    show count ≠ bdtunTxreqHeaderSize
    unfold bdtunTxreqHeaderSize
    omega
  | write buf valid =>
    have hcount : buf.length = bio.biSize := hc
    show buf.length ≠ sizeofLong ∧ buf.length ≠ 1
    omega

theorem Transferable.entry {s : World} {bio : Bio} (h : Transferable s bio) :
    ∃ entry, s.entries s.dev.dataCurrentBio = some entry ∧ entry.bio = bio :=
  Option.map_eq_some_iff.mp h.current

/-- A transfer touches pages only, so the request is as it was. -/
theorem Transferable.keep {s : World} {bio : Bio} (h : Transferable s bio) (mem : Mem) :
    Transferable { s with mem := mem } bio :=
  ⟨h.current, h.pending, h.apart, h.total, h.sectors⟩

/-- A payload read copies all, fails in between, or is refused. -/
theorem read_cases {s : World} {bio : Bio} (h : Transferable s bio) {count : Nat} (valid : Nat)
    (signal : Bool) (hcount : count ≠ bdtunTxreqHeaderSize) :
    (bioDataDir bio = dirWrite ∧ count = bio.biSize ∧ bio.biSize ≤ valid ∧
      bdtunchRead s count valid signal = (s, .ret bio.biSize (.data (bio.contents s.mem)))) ∨
    (bioDataDir bio = dirWrite ∧ count = bio.biSize ∧ valid < bio.biSize ∧
      ∃ bytes, bdtunchRead s count valid signal = (s, .ret (-eio) (.data bytes))) ∨
    (¬ (bioDataDir bio = dirWrite ∧ count = bio.biSize) ∧
      bdtunchRead s count valid signal = (s, .ret (-eio) .nothing)) := by
  obtain ⟨entry, he, rfl⟩ := h.entry
  have hread : bdtunchRead s count valid signal =
      s.readPayload s.dev.dataCurrentBio count valid := if_neg hcount
  rw [hread]
  by_cases hright : bioDataDir entry.bio = dirWrite ∧ count = entry.bio.biSize
  · obtain ⟨hdir, rfl⟩ := hright
    by_cases hvalid : entry.bio.biSize ≤ valid
    · left
      refine ⟨hdir, rfl, hvalid, ?_⟩
      rw [readPayload_all he hdir rfl h.total hvalid, contents_eq]
    · right; left
      refine ⟨hdir, rfl, by omega, (copyOut s.mem valid entry.bio.segments 0).1, ?_⟩
      have hshort := copyOut_short s.mem entry.bio.segments (Nat.zero_le valid)
        (by rw [h.total]; omega)
      simp [World.readPayload, he, hdir, hshort]
  · right; right
    refine ⟨hright, ?_⟩
    simp only [World.readPayload, he, if_neg hright]

/-- A payload write copies all, fails in between, or is refused. -/
theorem write_cases {s : World} {bio : Bio} (h : Transferable s bio) {buf : List UInt8}
    (valid : Nat) (hlong : buf.length ≠ sizeofLong) (hone : buf.length ≠ 1) :
    (bioDataDir bio = dirRead ∧ buf.length = bio.biSize ∧ bio.biSize ≤ valid ∧
      bdtunchWrite s buf valid =
        ({ s with mem := scatter s.mem bio.places buf }, .ret bio.biSize .nothing)) ∨
    (bioDataDir bio = dirRead ∧ buf.length = bio.biSize ∧ valid < bio.biSize ∧
      ∃ mem, bdtunchWrite s buf valid = ({ s with mem := mem }, .ret (-eio) .nothing) ∧
        ∀ place, place ∉ bio.places → mem place = s.mem place) ∨
    (¬ (bioDataDir bio = dirRead ∧ buf.length = bio.biSize) ∧
      bdtunchWrite s buf valid = (s, .ret (-eio) .nothing)) := by
  obtain ⟨entry, he, rfl⟩ := h.entry
  rw [bdtunchWrite_payload s buf valid hlong hone]
  by_cases hright : bioDataDir entry.bio = dirRead ∧ buf.length = entry.bio.biSize
  · obtain ⟨hdir, hlen⟩ := hright
    by_cases hvalid : entry.bio.biSize ≤ valid
    · left
      refine ⟨hdir, hlen, hvalid, ?_⟩
      rw [writePayload_all he hdir hlen h.total (by omega), hlen]
    · right; left
      refine ⟨hdir, hlen, by omega, (copyIn buf valid entry.bio.segments 0 s.mem).1, ?_, ?_⟩
      · have hshort := copyIn_short buf entry.bio.segments s.mem (Nat.zero_le valid)
          (by rw [h.total]; omega)
        simp [World.writePayload, he, hdir, hlen, hshort]
      · intro place hplace
        exact copyIn_frame buf valid _ 0 s.mem hplace
  · right; right
    refine ⟨hright, ?_⟩
    simp only [World.writePayload, he, if_neg hright]

theorem size_ne_eio (bio : Bio) (out out' : Out) : Ret.ret (-eio) out ≠ .ret bio.biSize out' := by
  intro heq
  have hcode := (Ret.ret.inj heq).1
  unfold eio at hcode
  omega

/-- How a payload call in either direction can end: with all bytes, short of some, or refused. -/
inductive Attempted (s : World) (bio : Bio) (c : Transfer) : World × Ret → Prop
  | all (hright : bioDataDir bio = c.dir ∧ c.count = bio.biSize) (hvalid : bio.biSize ≤ c.valid)
      (mem : Mem) (hframe : ∀ place, place ∉ bio.places → mem place = s.mem place) (out : Out) :
      Attempted s bio c ({ s with mem := mem }, .ret bio.biSize out)
  | short (hright : bioDataDir bio = c.dir ∧ c.count = bio.biSize) (hvalid : c.valid < bio.biSize)
      (mem : Mem) (hframe : ∀ place, place ∉ bio.places → mem place = s.mem place) (out : Out) :
      Attempted s bio c ({ s with mem := mem }, .ret (-eio) out)
  | refused (hwrong : ¬ (bioDataDir bio = c.dir ∧ c.count = bio.biSize)) :
      Attempted s bio c (s, .ret (-eio) .nothing)

section
variable {s : World} {bio : Bio} {c : Transfer} {p : World × Ret}

theorem Attempted.kept (h : Attempted s bio c p) : p.1 = { s with mem := p.1.mem } := by
  cases h with
  | _ => rfl

theorem Attempted.frame (h : Attempted s bio c p) {place : Place} (hplace : place ∉ bio.places) :
    p.1.mem place = s.mem place := by
  cases h with
  | all _ _ mem hframe => exact hframe place hplace
  | short _ _ mem hframe => exact hframe place hplace
  | refused hwrong => rfl

/-- **When a call succeeds.** -/
theorem Attempted.success (h : Attempted s bio c p) : (∃ out, p.2 = .ret bio.biSize out) ↔
    bioDataDir bio = c.dir ∧ c.count = bio.biSize ∧ bio.biSize ≤ c.valid := by
  cases h with
  | all hright hvalid mem hframe out =>
    exact ⟨fun _ => ⟨hright.1, hright.2, hvalid⟩, fun _ => ⟨out, rfl⟩⟩
  | short hright hvalid mem hframe out =>
    refine ⟨fun ⟨out', hr⟩ => absurd hr (size_ne_eio bio _ _), fun ⟨_, _, hle⟩ => ?_⟩
    omega
  | refused hwrong =>
    exact ⟨fun ⟨out', hr⟩ => absurd hr (size_ne_eio bio _ _),
      fun ⟨hdir, hcount, _⟩ => absurd ⟨hdir, hcount⟩ hwrong⟩

theorem Attempted.failure (h : Attempted s bio c p) :
    (∃ out, p.2 = .ret bio.biSize out) ∨ ∃ out, p.2 = .ret (-eio) out := by
  cases h with
  | all _ _ _ _ out => exact Or.inl ⟨out, rfl⟩
  | short _ _ _ _ out => exact Or.inr ⟨out, rfl⟩
  | refused hwrong => exact Or.inr ⟨.nothing, rfl⟩

theorem Attempted.untouched (h : Attempted s bio c p)
    (hwrong : ¬ (bioDataDir bio = c.dir ∧ c.count = bio.biSize)) :
    p.1 = s ∧ p.2 = .ret (-eio) .nothing := by
  cases h with
  | all hright => exact absurd hright hwrong
  | short hright => exact absurd hright hwrong
  | refused _ => exact ⟨rfl, rfl⟩

end

theorem Transferable.read {s : World} {bio : Bio} (h : Transferable s bio) (count valid : Nat)
    (signal : Bool) (hcount : count ≠ bdtunTxreqHeaderSize) :
    Moved s bio (.read count valid signal) (bdtunchRead s count valid signal).1
      (bdtunchRead s count valid signal).2 := by
  have hcases := read_cases h valid signal hcount
  have hattempt : Attempted s bio (.read count valid signal) (bdtunchRead s count valid signal) := by
    have hright : bioDataDir bio = dirWrite → count = bio.biSize →
        bioDataDir bio = (Transfer.read count valid signal).dir ∧
          (Transfer.read count valid signal).count = bio.biSize := And.intro
    rcases hcases with ⟨hdir, hlen, hvalid, heq⟩ | ⟨hdir, hlen, hvalid, bytes, heq⟩ | ⟨hwrong, heq⟩
    · rw [heq]
      exact .all (hright hdir hlen) hvalid s.mem (fun _ _ => rfl) _
    · rw [heq]
      exact .short (hright hdir hlen) hvalid s.mem (fun _ _ => rfl) _
    · rw [heq]
      exact .refused hwrong
  refine ⟨?_, ?_, hattempt.kept, ?_, fun _ => hattempt.frame, hattempt.success, hattempt.failure,
    hattempt.untouched⟩
  · intro _ _ _ out _ hr ub hub
    rcases hcases with ⟨-, -, -, heq⟩ | ⟨-, -, -, bytes, heq⟩ | ⟨-, heq⟩
    · have hlen : (bio.contents s.mem).length = bio.biSize := by
        rw [contents_eq, gather, List.length_map, length_places, h.total]
      rw [heq]
      show bio.contents s.mem ++ ub.drop (bio.contents s.mem).length = _
      rw [hlen, List.drop_eq_nil_of_le (by omega), List.append_nil]
    · rw [heq] at hr
      exact absurd hr (size_ne_eio bio _ _)
    · rw [heq] at hr
      exact absurd hr (size_ne_eio bio _ _)
  · intro buf valid' out hc
    cases hc
  · intro _ _ _ _
    rcases hcases with ⟨-, -, -, heq⟩ | ⟨-, -, -, bytes, heq⟩ | ⟨-, heq⟩ <;> rw [heq]

theorem Transferable.write {s : World} {bio : Bio} (h : Transferable s bio) (buf : List UInt8)
    (valid : Nat) (hlong : buf.length ≠ sizeofLong) (hone : buf.length ≠ 1) :
    Moved s bio (.write buf valid) (bdtunchWrite s buf valid).1 (bdtunchWrite s buf valid).2 := by
  have hcases := write_cases h valid hlong hone
  have hattempt : Attempted s bio (.write buf valid) (bdtunchWrite s buf valid) := by
    have hright : bioDataDir bio = dirRead → buf.length = bio.biSize →
        bioDataDir bio = (Transfer.write buf valid).dir ∧
          (Transfer.write buf valid).count = bio.biSize := And.intro
    rcases hcases with
      ⟨hdir, hlen, hvalid, heq⟩ | ⟨hdir, hlen, hvalid, mem, heq, hframe⟩ | ⟨hwrong, heq⟩
    · rw [heq]
      exact .all (hright hdir hlen) hvalid _ (fun _ hplace => scatter_of_notMem _ _ _ _ hplace) _
    · rw [heq]
      exact .short (hright hdir hlen) hvalid mem hframe _
    · rw [heq]
      exact .refused hwrong
  refine ⟨?_, ?_, hattempt.kept, ?_, fun _ => hattempt.frame, hattempt.success, hattempt.failure,
    hattempt.untouched⟩
  · intro count valid' signal out hc
    cases hc
  · intro buf' valid' out hc hr
    cases hc
    rcases hcases with ⟨-, hlen, -, heq⟩ | ⟨-, -, -, mem, heq, -⟩ | ⟨-, heq⟩
    · rw [heq]
      apply gather_segment
      exact gather_scatter _ _ _ h.apart (by rw [hlen, ← h.total]; exact (length_places bio).symm)
    · rw [heq] at hr
      exact absurd hr (size_ne_eio bio _ _)
    · rw [heq] at hr
      exact absurd hr (size_ne_eio bio _ _)
  · intro count valid' signal hc
    cases hc

/-- Every payload call does for its client what it says. -/
theorem Transferable.moved {s : World} {bio : Bio} (h : Transferable s bio) (c : Transfer)
    (hc : c.IsPayload) : Moved s bio c (c.run s).1 (c.run s).2 := by
  cases c with
  | read count valid signal => exact h.read count valid signal hc
  | write buf valid => exact h.write buf valid hc.1 hc.2

/-! ## Trying again -/

/-- What failed calls leave of a request: the pages of a read bio may differ, in its segments. -/
structure Retried (s : World) (bio : Bio) (t : World) : Prop where
  kept : t = { s with mem := t.mem }
  frame : ∀ place, place ∉ bio.places → t.mem place = s.mem place
  unread : bioDataDir bio = dirWrite → t.mem = s.mem

theorem run_retried {s : World} {bio : Bio} (h : Transferable s bio)
    {tr : List (Transfer × Ret)} {t : World} (hrun : Run failedTransfers (fun _ _ => True) s tr t) :
    Retried s bio t := by
  refine hrun.invariant (fun _ => Retried s bio) ⟨rfl, fun _ _ => rfl, fun _ => rfl⟩ ?_
  rintro tr t c ⟨hkept, hframe, hunread⟩ - ⟨hc, -⟩
  have ht : Transferable t bio := by
    rw [hkept]
    exact h.keep t.mem
  have hmoved := ht.moved c hc
  refine ⟨?_, fun place hplace => ?_, fun hdir => ?_⟩
  · obtain ⟨mem, rfl⟩ : ∃ mem, t = { s with mem := mem } := ⟨_, hkept⟩
    exact hmoved.kept
  · exact (hmoved.frame place hplace).trans (hframe place hplace)
  · rw [← hunread hdir]
    cases c with
    | read count valid signal => exact hmoved.unread count valid signal rfl
    | write buf valid =>
      have hwrong : ¬ (bioDataDir bio = dirRead ∧ buf.length = bio.biSize) := by
        rintro ⟨hread, -⟩
        rw [hdir] at hread
        exact absurd hread (by decide)
      have hsame := (hmoved.refused hwrong).1
      exact congrArg World.mem hsame

/-- **Transfers, and trying again.**  For every pending data-current request, every payload call does
what `Moved` says; and after any number of failed calls the request is still pending and not ended,
and a call that succeeds does and returns what it would have without them. -/
theorem transfer_exact {s : World} {bio : Bio} (h : Transferable s bio) :
    (∀ c : Transfer, c.IsPayload → Moved s bio c (c.run s).1 (c.run s).2) ∧
    ∀ tr t, Run failedTransfers (fun _ _ => True) s tr t →
      Transferable t bio ∧ t.dev = s.dev ∧ t.ended = s.ended ∧
      ∀ (c : Transfer) (out : Out), c.IsPayload → (c.run t).2 = .ret bio.biSize out →
        c.run t = c.run s := by
  refine ⟨h.moved, fun tr t hrun => ?_⟩
  obtain ⟨hkept, hframe, hunread⟩ := run_retried h hrun
  have ht : Transferable t bio := by
    rw [hkept]
    exact h.keep t.mem
  refine ⟨ht, by rw [hkept], by rw [hkept], fun c out hc hr => ?_⟩
  obtain ⟨hdir, hcount, hvalid⟩ := (ht.moved c hc).success.mp ⟨out, hr⟩
  cases c with
  | read count valid signal =>
    -- the bio is written from: the pages are as they were
    have hsame : t = s := by
      rw [hkept, hunread hdir]
    rw [hsame]
  | write buf valid =>
    obtain ⟨hlong, hone⟩ := hc
    have hone_try : ∀ {u : World}, Transferable u bio → bdtunchWrite u buf valid =
        ({ u with mem := scatter u.mem bio.places buf }, .ret bio.biSize .nothing) := by
      intro u hu
      rcases write_cases hu valid hlong hone with ⟨-, -, -, heq⟩ | ⟨-, -, hshort, -⟩ | ⟨hwrong, -⟩
      · exact heq
      · have hle : bio.biSize ≤ valid := hvalid
        omega
      · exact absurd ⟨hdir, hcount⟩ hwrong
    show bdtunchWrite t buf valid = bdtunchWrite s buf valid
    have hmem : scatter t.mem bio.places buf = scatter s.mem bio.places buf := by
      refine scatter_congr _ _ hframe ?_
      rw [length_places, h.total]
      exact hcount.ge
    rw [hone_try ht, hone_try h, hmem]
    rw [hkept]

end

section
attribute [local instance] linux32

/-- A read that fails after 100 bytes, and one that does not. -/
theorem transfer_exact_sample :
    let s := exec tunnel (World.init 512 1024 fun _ => 0) sampleCalls
    (Transfer.read 512 512 false).run ((Transfer.read 512 100 false).run s).1 =
      (Transfer.read 512 512 false).run s := by
  intro s
  have hapart : sampleWrite.places.Nodup := by
    show (BioVec.places (.sector 7) ++ []).Nodup
    rw [List.append_nil]
    exact BioVec.nodup_places _
  have h : Transferable s sampleWrite := ⟨rfl, by decide, hapart, rfl, by decide, ⟨1, rfl⟩⟩
  have hrun : Run failedTransfers (fun _ _ => True) s _ _ :=
    Path.single (Transfer.read 512 100 false) trivial ⟨h.isPayload rfl, _, rfl⟩
  exact ((transfer_exact h).2 _ _ hrun).2.2.2 (.read 512 512 false) _ (h.isPayload rfl) rfl

end

end BDTun
