import BDTun.MmapView
import BDTun.Removal

/-!
# The pages mapped into clients

`bdtunch_mmap` maps the pages of the current bio into the caller.  Nothing in the
driver takes a page away again: a completion ends the bio and frees its entry, a
close leaves the bios where they are, and what is mapped stays until the client
unmaps it.

`spaces` is the tunnel with the address spaces of its clients.

* `run_tunnel`: a run of `spaces` is a run of the tunnel.
* `mappings_unended`: all along a run every page that is mapped belongs to a bio that
  is not ended, and none of a bio that a completion has just ended is, exactly when no
  completion byte ends a bio with a page that is mapped (`CompletesUnmapped`).
-/

namespace BDTun

open Memory Machine

section
variable [Kernel]

/-- A page in the address space `mm`. -/
structure Mapping where
  mm : Nat
  addr : Nat
  pfn : Nat
deriving DecidableEq

structure Mapped where
  world : World
  mappings : List Mapping

/-- A call, by the client whose address space is `mm`; or a `munmap`. -/
inductive SpaceCall
  | call (mm : Nat) (c : Call)
  | munmap (mm start stop : Nat)
deriving DecidableEq

/-- What an address space loses from `start` to `stop`. -/
def unmapRange (mm start stop : Nat) (l : List Mapping) : List Mapping :=
  l.filter fun m => ¬ (m.mm = mm ∧ start ≤ m.addr ∧ m.addr < stop)

/-- The pages a call of `bdtunch_mmap` put into `mm`. -/
def newMappings (mm : Nat) : Ret → List Mapping
  | .ret _ (.pages l) => l.map fun page => ⟨mm, page.1, page.2⟩
  | _ => []

/-- `mmap` unmaps what was there before it calls the driver; a call that fails leaves no page. -/
def Mapped.after (s : Mapped) (mm : Nat) (r : Ret) : Call → List Mapping
  | .mmap _ vma _ => newMappings mm r ++ unmapRange mm vma.vmStart vma.vmEnd s.mappings
  | _ => s.mappings

def spaceNext (s : Mapped) : SpaceCall → Mapped × Ret
  | .call mm c =>
    (⟨(tunnelNext s.world c).1, s.after mm (tunnelNext s.world c).2 c⟩, (tunnelNext s.world c).2)
  | .munmap mm start stop =>
    ({ s with mappings := unmapRange mm start stop s.mappings }, .ret 0 .nothing)

def SpaceOk (s : Mapped) : SpaceCall → Prop
  | .call _ c => tunnel.enabled s.world c
  | .munmap .. => True

instance (s : Mapped) (c : SpaceCall) : Decidable (SpaceOk s c) := by
  cases c <;> unfold SpaceOk <;> infer_instance

def spaces : Machine Mapped SpaceCall Ret where
  enabled := SpaceOk
  next := spaceNext

instance (s : Mapped) (c : SpaceCall) : Decidable (spaces.enabled s c) :=
  inferInstanceAs (Decidable (SpaceOk s c))

/-! ## The calls among what clients do -/

def callOf : SpaceCall × Ret → Option (Call × Ret)
  | (.call _ c, r) => some (c, r)
  | (.munmap .., _) => none

/-- The calls on the tunnel. -/
def tunnelCalls (tr : List (SpaceCall × Ret)) : List (Call × Ret) := tr.filterMap callOf

theorem tunnelCalls_snoc (tr : List (SpaceCall × Ret)) (e : SpaceCall × Ret) :
    tunnelCalls (tr ++ [e]) = tunnelCalls tr ++ (callOf e).toList := by
  unfold tunnelCalls
  rw [List.filterMap_append]
  cases h : callOf e <;> simp [h]

/-- Clients call and unmap as they like, bios are submitted once. -/
def spaceUsers : Policy SpaceCall Ret := fun tr c =>
  match c with
  | .call _ c => vfs (tunnelCalls tr) c
  | .munmap .. => True

instance (tr : List (SpaceCall × Ret)) (c : SpaceCall) : Decidable (spaceUsers tr c) := by
  unfold spaceUsers
  cases c <;> infer_instance

/-- Nothing is mapped when the device is made. -/
def Mapped.init (blockSize size : Nat) (mem : Mem) : Mapped := ⟨World.init blockSize size mem, []⟩

variable {blockSize size : Nat} {mem : Mem}

/-- **Runs of the spaces are runs of the tunnel.** -/
theorem run_tunnel {tr : List (SpaceCall × Ret)} {s : Mapped}
    (hrun : Run spaces spaceUsers (Mapped.init blockSize size mem) tr s) :
    Run tunnel vfs (World.init blockSize size mem) (tunnelCalls tr) s.world := by
  refine hrun.invariant
    (fun tr s => Run tunnel vfs (World.init blockSize size mem) (tunnelCalls tr) s.world) ?_ ?_
  · exact .refl
  · intro tr s c h hp he
    rw [tunnelCalls_snoc]
    cases c with
    | call mm c => exact h.step c hp he
    | munmap mm start stop =>
      show Run tunnel vfs _ (tunnelCalls tr ++ []) s.world
      rw [List.append_nil]
      exact h

/-- The tunnel alone is a device with no open of the block device. -/
theorem tunnel_ledgered {tr : List (Call × Ret)} {s : World}
    (hrun : Run tunnel vfs (World.init blockSize size mem) tr s) : Ledgered ⟨tr, [], false⟩ s := by
  refine hrun.invariant (fun tr s => Ledgered ⟨tr, [], false⟩ s) ?_ ?_
  · exact ⟨World.Wf.init _ _ _, rfl, rfl, List.nodup_nil, .refl _⟩
  · intro tr s c h hp he
    exact h.call c hp he

/-! ## Whose the pages are -/

/-- The pages that the segments of a bio are on. -/
def Bio.pages (bio : Bio) : List Nat := bio.segments.map BioVec.bvPage

/-- A page that belongs to a bio with a list entry. -/
def World.Holds (s : World) (pfn : Nat) : Prop :=
  ∃ a entry, s.entries a = some entry ∧ pfn ∈ entry.bio.pages

/-- Every page that is mapped belongs to a bio that is not ended. -/
def Unended (s : Mapped) : Prop :=
  ∀ m ∈ s.mappings, ∃ a entry, s.world.entries a = some entry ∧
    entry.bio ∉ s.world.endedBios ∧ m.pfn ∈ entry.bio.pages

/-- After a completion byte no page of the bio that it ended is mapped. -/
def CompletionUnmaps (s : Mapped) : SpaceCall → Prop
  | .call mm (.write f [byte] valid) => ∀ entry ∈ s.world.entries s.world.dev.dataCurrentBio,
    ∀ m ∈ (spaceNext s (.call mm (.write f [byte] valid))).1.mappings, m.pfn ∉ entry.bio.pages
  | _ => True

/-- A completion byte ends a bio of which no page is mapped. -/
def CompletesUnmapped (s : Mapped) : SpaceCall → Prop
  | .call _ (.write _ [_] _) => ∀ entry ∈ s.world.entries s.world.dev.dataCurrentBio,
    ∀ m ∈ s.mappings, m.pfn ∉ entry.bio.pages
  | _ => True

instance (s : Mapped) (c : SpaceCall) : Decidable (CompletesUnmapped s c) := by
  unfold CompletesUnmapped
  split <;> infer_instance

/-- A completion takes no mapping away. -/
theorem completion_unmaps_iff (s : Mapped) (c : SpaceCall) :
    CompletionUnmaps s c ↔ CompletesUnmapped s c := by
  unfold CompletionUnmaps CompletesUnmapped
  split
  · rfl
  · rfl

omit [Kernel] in
theorem mem_unmapRange {mm start stop : Nat} {l : List Mapping} {m : Mapping}
    (h : m ∈ unmapRange mm start stop l) : m ∈ l :=
  (List.mem_filter.mp h).1

theorem mem_mappedFrom {start : Nat} {segs : List BioVec} {pos : Nat} {page : Nat × Nat}
    (h : page ∈ mappedFrom start segs pos) : page.2 ∈ segs.map BioVec.bvPage := by
  induction segs generalizing pos with
  | nil => cases h
  | cons bvec rest ih =>
    rcases List.mem_cons.mp h with rfl | hrest
    · exact List.mem_cons_self
    · exact List.mem_cons_of_mem _ (ih hrest)

/-- A page that a call put there is one of the current bio's. -/
theorem newMappings_current {s : World} {mm : Nat} {vma : Vma} {fail : Option Nat} {m : Mapping}
    (h : m ∈ newMappings mm (bdtunchMmap s vma fail).2) : s.Holds m.pfn := by
  rcases bdtunchMmap_pages s vma fail with hnone | ⟨entry, he, hret⟩
  · unfold newMappings at h
    split at h
    · next code l hpages => exact absurd hpages (hnone code l)
    · cases h
  · rw [hret] at h
    obtain ⟨page, hpage, rfl⟩ := List.mem_map.mp h
    exact ⟨_, entry, he, mem_mappedFrom hpage⟩

/-- What is mapped after a call was so, or is of a bio with a list entry. -/
theorem mem_after {s : Mapped} {mm : Nat} {c : Call} {m : Mapping}
    (h : m ∈ s.after mm (tunnelNext s.world c).2 c) : m ∈ s.mappings ∨ s.world.Holds m.pfn := by
  cases c with
  | mmap f vma fail =>
    rcases List.mem_append.mp h with hnew | hold
    · exact .inr (newMappings_current hnew)
    · exact .inl (mem_unmapRange hold)
  | _ => exact .inl h

/-- What is mapped belongs to bios with list entries. -/
def HeldPages (s : Mapped) : Prop := ∀ m ∈ s.mappings, s.world.Holds m.pfn

/-- A call that is no completion keeps the entries. -/
theorem holds_kept {s : World} {c : Call} (hk : KmallocOk s c) (hr : (tunnelNext s c).2 ≠ .oops)
    (hbyte : ∀ f byte valid, c ≠ .write f [byte] valid) {pfn : Nat} (h : s.Holds pfn) :
    (tunnelNext s c).1.Holds pfn := by
  obtain ⟨a, entry, hentry, hpage⟩ := h
  have heff := effect_of_next s c hr
  generalize tunnelNext s c = res at heff
  cases heff with
  | completed f byte valid found he => exact absurd rfl (hbyte f byte valid)
  | queued bio new =>
    have hne : a ≠ new := fun heq => by
      rw [heq, hk.1] at hentry
      cases hentry
    exact ⟨a, entry, (Function.update_of_ne hne _ _).trans hentry, hpage⟩
  | _ => exact ⟨a, entry, hentry, hpage⟩

/-- **Every step.**  Where a completion ends a bio that is not mapped, the pages that are belong to
others. -/
theorem HeldPages.next {s : Mapped} (h : HeldPages s) {c : SpaceCall} (he : SpaceOk s c)
    (hc : CompletesUnmapped s c) : HeldPages (spaceNext s c).1 := by
  cases c with
  | munmap mm start stop => exact fun m hm => h m (mem_unmapRange hm)
  | call mm c =>
    intro m hm
    have hholds : s.world.Holds m.pfn := (mem_after hm).elim (h m) id
    by_cases hbyte : ∃ f byte valid, c = .write f [byte] valid
    · obtain ⟨f, byte, valid, rfl⟩ := hbyte
      obtain ⟨a, entry, hentry, hpage⟩ := hholds
      have heff := effect_of_next s.world _ he.2
      have hmapped : m ∈ s.mappings := hm
      show (tunnelNext s.world (.write f [byte] valid)).1.Holds m.pfn
      generalize tunnelNext s.world (.write f [byte] valid) = res at heff
      cases heff with
      | completed _ _ _ found hfound =>
        have hne : a ≠ s.world.dev.dataCurrentBio := fun heq => by
          rw [heq, hfound] at hentry
          obtain rfl := Option.some.inj hentry
          exact hc _ hfound m hmapped hpage
        exact ⟨a, entry, (Function.update_of_ne hne _ _).trans hentry, hpage⟩
      | set _ _ _ hlen => exact absurd hlen.symm sizeofLong_ne_one
      | moved _ _ _ mem code hlen hone => exact absurd rfl hone
      | quiet _ r hq => exact ⟨a, entry, hentry, hpage⟩
    · exact holds_kept he.1 he.2 (fun f byte valid heq => hbyte ⟨f, byte, valid, heq⟩) hholds

/-- What mappings are expected to do, in every run. -/
def MappingsEnd : Prop :=
  ∀ (blockSize size : Nat) (mem : Mem) tr s,
    Run spaces spaceUsers (Mapped.init blockSize size mem) tr s →
      Unended s ∧ AllSteps spaces spaceUsers (Mapped.init blockSize size mem) CompletionUnmaps tr

/-- **Mappings and bios.**  All along a run every page that is mapped belongs to a bio that is not
ended, and none of a bio that a completion byte has ended is mapped after it, exactly when each
completion byte ended a bio of which no page was mapped.  Then that is so at its end. -/
theorem mappings_unended {tr : List (SpaceCall × Ret)} {s : Mapped}
    (hrun : Run spaces spaceUsers (Mapped.init blockSize size mem) tr s) :
    (AllStates spaces spaceUsers (Mapped.init blockSize size mem) Unended tr ∧
        AllSteps spaces spaceUsers (Mapped.init blockSize size mem) CompletionUnmaps tr ↔
      AllSteps spaces spaceUsers (Mapped.init blockSize size mem) CompletesUnmapped tr) ∧
    (AllSteps spaces spaceUsers (Mapped.init blockSize size mem) CompletesUnmapped tr →
      Unended s) := by
  have hall : AllSteps spaces spaceUsers (Mapped.init blockSize size mem) CompletesUnmapped tr →
      AllStates spaces spaceUsers (Mapped.init blockSize size mem) Unended tr := by
    intro hcompletes tr₁ tr₂ s₁ heq h₁ m hm
    have hstart : HeldPages (Mapped.init blockSize size mem) := fun m hm => by cases hm
    have hheld := Run.allStates_of hstart (fun tr s c _ _ he h hc => h.next he hc) hcompletes
    obtain ⟨a, entry, hentry, hpage⟩ := hheld tr₁ tr₂ s₁ heq h₁ m hm
    exact ⟨a, entry, hentry, ((tunnel_ledgered (run_tunnel h₁)).live hentry).2, hpage⟩
  have hsteps : AllSteps spaces spaceUsers (Mapped.init blockSize size mem) CompletionUnmaps tr ↔
      AllSteps spaces spaceUsers (Mapped.init blockSize size mem) CompletesUnmapped tr := by
    simp only [AllSteps, completion_unmaps_iff]
  refine ⟨⟨fun h => hsteps.mp h.2, fun h => ⟨hall h, hsteps.mpr h⟩⟩, fun h => ?_⟩
  exact hall h tr [] s (by simp) hrun

end

section
attribute [local instance] linux32

/-- A write is mapped, and completed while it is. -/
theorem mapping_survives : ¬ MappingsEnd := by
  intro h
  have hrun := @path_exec _ _ _ spaces spaceUsers [] (Mapped.init 512 1024 fun _ => 0)
    [.call 1 (.submit sampleWrite (some 16)), .call 1 (.chOpen 0), .call 1 (.read 0 32 32 false),
      .call 1 (.write 0 (wordBytes 8 16) 8), .call 1 (.mmap 0 ⟨8192, 12288, 0, true⟩ none),
      .call 1 (.write 0 [0] 1)] (by decide)
  obtain ⟨hunended, -⟩ := h _ _ _ _ _ hrun
  obtain ⟨a, entry, hentry, -⟩ := hunended ⟨1, 8192, 7⟩ (by decide)
  have hwf := (tunnel_ledgered (run_tunnel hrun)).wf
  have hlisted := (hwf.live a).mp (by rw [hentry]; rfl)
  cases hlisted

/-- The client unmaps the write before it completes it. -/
def sampleUnmapped : List SpaceCall :=
  [.call 1 (.submit sampleWrite (some 16)), .call 1 (.chOpen 0), .call 1 (.read 0 32 32 false),
    .call 1 (.write 0 (wordBytes 8 16) 8), .call 1 (.mmap 0 ⟨8192, 12288, 0, true⟩ none),
    .munmap 1 8192 12288, .call 1 (.write 0 [0] 1)]

theorem mappings_unended_sample :
    let start := Mapped.init 512 1024 fun _ => 0
    (exec spaces start sampleUnmapped).world.endedBios = [sampleWrite] ∧
    AllStates spaces spaceUsers start Unended (traceOf spaces start sampleUnmapped) ∧
    AllSteps spaces spaceUsers start CompletionUnmaps (traceOf spaces start sampleUnmapped) := by
  have hrun := @path_exec _ _ _ spaces spaceUsers [] (Mapped.init 512 1024 fun _ => 0)
    sampleUnmapped (by decide)
  exact ⟨by decide, (mappings_unended hrun).1.mpr (allSteps_exec _ (by decide))⟩

end

end BDTun
