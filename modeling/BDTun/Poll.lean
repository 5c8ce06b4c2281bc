import Mathlib.Data.Finset.Lattice.Basic
import Mathlib.Data.Finset.Insert
import BDTun.Conservation

/-!
# Polling the tunnel device

`bdtunch_poll` looks at the incoming list only: the device can always be
written, and it can be read when a header is there to be read.

* `path_incoming`: the incoming list loses its first entries to header reads,
  and changes at its end otherwise.
* `poll_promise`: so the mask says exactly whether a header read would be
  served, and what was promised to a poller stays until it is read.
-/

namespace BDTun

open Machine

/-- The bits of the mask. -/
inductive PollBit
  | pollin | pollrdnorm | pollout | pollwrnorm
deriving DecidableEq

/-- `bdtunch_poll`, less the registration on `reader_queue`. -/
def bdtunchPoll (dev : Bdtun) : Finset PollBit :=
  let mask := ∅ ∪ {.pollout, .pollwrnorm}
  if dev.incomingBioList ≠ [] then mask ∪ {.pollin, .pollrdnorm} else mask

theorem pollin_iff (dev : Bdtun) : .pollin ∈ bdtunchPoll dev ↔ dev.incomingBioList ≠ [] := by
  unfold bdtunchPoll
  by_cases h : dev.incomingBioList = []
  · simp [h]
  · simp [h]

section
variable [Kernel]

/-- A header read that was served. -/
def servesHeader : Call × Ret → Bool
  | (.read _ _ _ _, .ret _ (.header _)) => true
  | _ => false

/-- The incoming list of `s'` is that of `s` without its first `k` entries, and with more at its
end; the entries that stay are as they were. -/
def Behind (s : World) (k : Nat) (s' : World) : Prop :=
  (∃ extra, s'.dev.incomingBioList = s.dev.incomingBioList.drop k ++ extra) ∧
    ∀ a ∈ s.dev.incomingBioList.drop k, s'.entries a = s.entries a

theorem Behind.congr {s s' t : World} {k : Nat} (h : Behind s k s')
    (hl : t.dev.incomingBioList = s'.dev.incomingBioList)
    (he : ∀ a ∈ s.dev.incomingBioList.drop k, t.entries a = s'.entries a) : Behind s k t := by
  obtain ⟨⟨extra, hextra⟩, hentries⟩ := h
  exact ⟨⟨extra, hl.trans hextra⟩, fun a ha => (he a ha).trans (hentries a ha)⟩

/-- What is left of the list is on the list. -/
theorem Behind.mem {s s' : World} {k : Nat} (h : Behind s k s') {a : Addr}
    (ha : a ∈ s.dev.incomingBioList.drop k) : a ∈ s'.dev.incomingBioList := by
  obtain ⟨⟨extra, hextra⟩, -⟩ := h
  rw [hextra]
  exact List.mem_append_left _ ha

theorem Behind.deliver {s s' : World} {k : Nat} (h : Behind s k s') {a : Addr} {rest : List Addr}
    (hl : s'.dev.incomingBioList = a :: rest) (entry : BioListEntry) :
    Behind s (k + 1) (s'.deliver a rest entry) := by
  obtain ⟨⟨extra, hextra⟩, hentries⟩ := h
  have hdrop : s.dev.incomingBioList.drop (k + 1) = (s.dev.incomingBioList.drop k).tail := by
    rw [List.tail_drop]
  rw [hl] at hextra
  constructor
  · cases hk : s.dev.incomingBioList.drop k with
    | nil => exact ⟨rest, by rw [hdrop, hk]; rfl⟩
    | cons b left =>
      rw [hk] at hextra
      obtain ⟨-, hrest⟩ := List.cons.inj hextra
      exact ⟨extra, by rw [hdrop, hk]; exact hrest⟩
  · intro b hb
    rw [hdrop] at hb
    exact hentries b (List.mem_of_mem_tail hb)

/-- **Every call** of clients that complete what is pending only. -/
theorem Behind.next {s s' : World} {k : Nat} {tr : List (Call × Ret)} (h : Behind s k s')
    (htracks : Tracks (hist tr) s') (c : Call) (hp : heldClient tr c) (hk : KmallocOk s' c)
    (hr : (tunnelNext s' c).2 ≠ .oops) :
    Behind s (k + [(c, (tunnelNext s' c).2)].countP servesHeader) (tunnelNext s' c).1 := by
  have heff := effect_of_next s' c hr
  have hwf := htracks.wf
  generalize hres : tunnelNext s' c = res at heff
  cases heff with
  | refused bio => exact h.congr rfl fun _ _ => rfl
  | queued bio new =>
    obtain ⟨⟨extra, hextra⟩, hentries⟩ := h
    refine ⟨⟨extra ++ [new], ?_⟩, fun a ha => ?_⟩
    · show s'.dev.incomingBioList ++ [new] = _
      rw [hextra, List.append_assoc]
      rfl
    · have hlive : (s'.entries a).isSome :=
        (hwf.live a).mpr (List.mem_append_left _ (by rw [hextra]; exact List.mem_append_left _ ha))
      have hne : a ≠ new := by
        rintro rfl
        rw [hk.1] at hlive
        cases hlive
      show Function.update s'.entries new _ a = s.entries a
      rw [Function.update_of_ne hne]
      exact hentries a ha
  | opened f _ => exact h.congr rfl fun _ _ => rfl
  | closed f =>
    obtain ⟨⟨extra, hextra⟩, hentries⟩ := h
    refine ⟨⟨extra ++ s'.dev.pendingBioList, ?_⟩, hentries⟩
    show s'.dev.incomingBioList ++ s'.dev.pendingBioList = _
    rw [hextra, List.append_assoc]
    rfl
  | delivered f valid signal a rest entry hl he => exact h.deliver hl entry
  | set f buf valid _ => exact h.congr rfl fun _ _ => rfl
  | completed f byte valid entry he =>
    have hpend : s'.dev.dataCurrentBio ∈ s'.dev.pendingBioList := by
      rw [htracks.owed, htracks.lastSet]
      exact hp rfl
    have hnot := hwf.not_incoming hpend
    refine h.congr (List.erase_of_not_mem hnot) fun a ha => ?_
    have hne : a ≠ s'.dev.dataCurrentBio := by
      rintro rfl
      exact hnot (h.mem ha)
    exact Function.update_of_ne hne _ _
  | moved f buf valid mem code _ _ => exact h.congr rfl fun _ _ => rfl
  | quiet c r hq =>
    have hnone : [(c, r)].countP servesHeader = 0 := by
      rw [List.countP_singleton, if_neg]
      intro hserves
      unfold servesHeader at hserves
      split at hserves
      · next f count valid signal code req heq =>
        obtain ⟨rfl, rfl⟩ := Prod.mk.inj heq
        have howed := congrArg Hist.owed (hq ⟨[], [], 0, []⟩)
        simp [Hist.record] at howed
      · cases hserves
    rw [hnone]
    exact h
  | ticked j => exact h.congr rfl fun _ _ => rfl

/-- Along every path the list loses its first entries to header reads, one each. -/
theorem path_incoming {s s' : World} {tr more : List (Call × Ret)} (htracks : Tracks (hist tr) s)
    (hpath : Path tunnel heldClient tr s more s') :
    Tracks (hist (tr ++ more)) s' ∧ Behind s (more.countP servesHeader) s' := by
  induction hpath with
  | refl => exact ⟨by simpa using htracks, ⟨[], by simp⟩, fun _ _ => rfl⟩
  | step c _ hp he ih =>
    obtain ⟨htr, hbehind⟩ := ih
    refine ⟨?_, ?_⟩
    · rw [← List.append_assoc, hist_snoc]
      exact htr.next c he.1 he.2
    · rw [List.countP_append]
      exact hbehind.next htr c hp he.1 he.2

/-- **What poll promises.**  In every reachable state the mask has `POLLIN` exactly if a header read
into an accessible buffer would return a header; and while fewer headers are read, by anyone, than were
waiting then, poll goes on saying so, and the next header is the next of those. -/
theorem poll_promise {P : Policy Call Ret} {blockSize size : Nat} {mem : Mem}
    {tr more : List (Call × Ret)} {s s' : World}
    (hrun : Run tunnel P (World.init blockSize size mem) tr s)
    (hpath : Path tunnel heldClient tr s more s') :
    (.pollin ∈ bdtunchPoll s.dev ↔
      ∃ req, (bdtunchRead s bdtunTxreqHeaderSize bdtunTxreqHeaderSize false).2 =
        .ret bdtunTxreqHeaderSize (.header req)) ∧
    ∀ a ∈ s.dev.incomingBioList[more.countP servesHeader]?,
      .pollin ∈ bdtunchPoll s'.dev ∧ ∃ entry, s.entries a = some entry ∧
        (bdtunchRead s' bdtunTxreqHeaderSize bdtunTxreqHeaderSize false).2 =
          .ret bdtunTxreqHeaderSize (.header (header a entry)) := by
  have htracks := run_tracks hrun
  have hread : ∀ w : World,
      bdtunchRead w bdtunTxreqHeaderSize bdtunTxreqHeaderSize false = w.readHeader false :=
    fun w => if_pos rfl
  constructor
  · rw [pollin_iff, hread]
    unfold World.readHeader
    cases hl : s.dev.incomingBioList with
    | nil => simp
    | cons a rest =>
      obtain ⟨entry, he⟩ := htracks.wf.entry_of_incoming (a := a) (by rw [hl]; simp)
      simp [he]
  · intro a ha
    obtain ⟨-, ⟨extra, hextra⟩, hentries⟩ := path_incoming htracks hpath
    have hdrop : s.dev.incomingBioList.drop (more.countP servesHeader) =
        a :: s.dev.incomingBioList.drop (more.countP servesHeader + 1) := by
      obtain ⟨hlt, hget⟩ := List.getElem?_eq_some_iff.mp ha
      rw [← hget]
      exact List.drop_eq_getElem_cons hlt
    rw [hdrop] at hextra hentries
    obtain ⟨entry, he⟩ := htracks.wf.entry_of_incoming (List.mem_of_getElem? ha)
    have he' : s'.entries a = some entry := (hentries a List.mem_cons_self).trans he
    refine ⟨?_, entry, he, ?_⟩
    · rw [pollin_iff, hextra]
      simp
    · rw [hread]
      unfold World.readHeader
      simp [hextra, he']

end

section
attribute [local instance] linux32

/-- A bio is queued, and nobody reads its header before the poller does. -/
theorem poll_promise_sample :
    ∃ entry, (bdtunchRead (exec tunnel (World.init 512 1024 fun _ => 0)
        [.submit sampleWrite (some 16), .chOpen 0, .tick]) 32 32 false).2 =
      .ret 32 (.header (header 16 entry)) := by
  have hrun := @path_exec _ _ _ tunnel serialClient [] (World.init 512 1024 fun _ => 0)
    [.submit sampleWrite (some 16)] (by decide)
  have hpath := @path_exec _ _ _ tunnel serialClient
    (traceOf tunnel (World.init 512 1024 fun _ => 0) [.submit sampleWrite (some 16)])
    (exec tunnel (World.init 512 1024 fun _ => 0) [.submit sampleWrite (some 16)])
    [.chOpen 0, .tick] (by decide)
  obtain ⟨-, entry, -, hread⟩ :=
    (poll_promise hrun (hpath.weaken heldClient_of_serial)).2 16 (by decide)
  exact ⟨entry, hread⟩

end

end BDTun
