import BDTun.Lib.Machine
import BDTun.Tunnel

/-!
# The use count and removal

Two device nodes share `ucnt` and `removing`: the block device
(`bdtunOpen`, `bdtunRelease`) and the tunnel (`bdtunchOpen`, `bdtunchRelease`).
Each critical section of `ru_lock` is one step of `nodes`.  `removeCheck` is the
section of `bdtun_remove_k`; when it answers 0 the call goes on to take the
device down, so what still reaches the driver then finds `removing` set.  The
count is an integer: the files a kernel can hold open do not fill an `int`.

* `Counted`: `ucnt` is the number of open handles, and `removing` says that one
  removal went on and that there is no open handle.
* `use_count`: that in every run, and what follows a removal.
-/

namespace BDTun

open Machine

/-- `bdtun_open` -/
def bdtunOpen (dev : Bdtun) : Bdtun × Int :=
  if dev.removing then (dev, -enoent)
  else ({ dev with ucnt := dev.ucnt + 1 }, 0)

/-- `bdtun_release` -/
def bdtunRelease (dev : Bdtun) : Bdtun := { dev with ucnt := dev.ucnt - 1 }

/-- The critical section of `bdtun_remove_k`. -/
def removeCheck (dev : Bdtun) : Bdtun × Int :=
  if dev.removing then (dev, -ebusy)
  else if dev.ucnt ≠ 0 then (dev, -ebusy)
  else ({ dev with removing := true }, 0)

/-- The two device nodes of a device. -/
inductive Node
  | block
  | tunnel
deriving DecidableEq

/-- An open handle: the node, and a number for the file. -/
abbrev Handle := Node × Nat

instance : LawfulBEq Handle := inferInstance

inductive NodeCall
  | opens (h : Handle)
  | releases (h : Handle)
  | remove
deriving DecidableEq

def nodeNext (dev : Bdtun) : NodeCall → Bdtun × Int
  | .opens (.block, _) => bdtunOpen dev
  | .opens (.tunnel, _) => bdtunchOpen dev
  | .releases (.block, _) => (bdtunRelease dev, 0)
  | .releases (.tunnel, _) => (bdtunchRelease dev, 0)
  | .remove => removeCheck dev

def nodes : Machine Bdtun NodeCall Int where
  enabled _ _ := True
  next := nodeNext

instance (dev : Bdtun) (c : NodeCall) : Decidable (nodes.enabled dev c) :=
  inferInstanceAs (Decidable True)

/-! ## Handles and removals of a history -/

def recordHandle (l : List Handle) : NodeCall × Int → List Handle
  | (.opens h, r) => if r = 0 then h :: l else l
  | (.releases h, _) => l.erase h
  | (.remove, _) => l

/-- The handles that are open. -/
def handles (tr : List (NodeCall × Int)) : List Handle := tr.foldl recordHandle []

/-- A removal that goes on to take the device down. -/
def isTeardown : NodeCall × Int → Bool
  | (.remove, r) => r = 0
  | _ => false

def teardowns (tr : List (NodeCall × Int)) : Nat := tr.countP isTeardown

theorem handles_snoc (tr : List (NodeCall × Int)) (e : NodeCall × Int) :
    handles (tr ++ [e]) = recordHandle (handles tr) e := by
  simp [handles]

theorem teardowns_snoc (tr : List (NodeCall × Int)) (e : NodeCall × Int) :
    teardowns (tr ++ [e]) = teardowns tr + if isTeardown e then 1 else 0 := by
  simp [teardowns, List.countP_append, List.countP_singleton]

/-- A release is for a handle that an open made. -/
def paired : Policy NodeCall Int := fun tr c =>
  match c with
  | .opens h => h ∉ handles tr
  | .releases h => h ∈ handles tr
  | .remove => True

instance (tr : List (NodeCall × Int)) (c : NodeCall) : Decidable (paired tr c) := by
  cases c <;> unfold paired <;> infer_instance

/-! ## What a step does to the count and the flag -/

theorem bdtunOpen_of_not_removing {dev : Bdtun} (h : dev.removing = false) :
    bdtunOpen dev = ({ dev with ucnt := dev.ucnt + 1 }, 0) := by
  simp [bdtunOpen, h]

/-- On either node an open is refused, and changes nothing, exactly when the device is going. -/
theorem open_effect (dev : Bdtun) (h : Handle) :
    (dev.removing = true ∧ (nodeNext dev (.opens h)).2 ≠ 0 ∧ (nodeNext dev (.opens h)).1 = dev) ∨
    (dev.removing = false ∧
      nodeNext dev (.opens h) = ({ dev with ucnt := dev.ucnt + 1 }, 0)) := by
  obtain ⟨n, k⟩ := h
  cases hr : dev.removing with
  | true =>
    left
    cases n with
    | block => simp [nodeNext, bdtunOpen, hr, enoent]
    | tunnel => simp [nodeNext, bdtunchOpen_of_removing hr, ebusy]
  | false =>
    right
    cases n with
    | block =>
      rw [← hr]
      exact ⟨rfl, bdtunOpen_of_not_removing hr⟩
    | tunnel =>
      rw [← hr]
      exact ⟨rfl, bdtunchOpen_of_not_removing hr⟩

theorem release_effect (dev : Bdtun) (h : Handle) :
    (nodeNext dev (.releases h)).1.ucnt = dev.ucnt - 1 ∧
      (nodeNext dev (.releases h)).1.removing = dev.removing := by
  obtain ⟨n, k⟩ := h
  cases n <;> exact ⟨rfl, rfl⟩

theorem removeCheck_cases (dev : Bdtun) :
    (removeCheck dev = (dev, -ebusy) ∧ (dev.removing = true ∨ dev.ucnt ≠ 0)) ∨
    (removeCheck dev = ({ dev with removing := true }, 0) ∧ dev.removing = false ∧
      dev.ucnt = 0) := by
  unfold removeCheck
  cases hr : dev.removing with
  | true => left; simp
  | false =>
    by_cases hu : dev.ucnt = 0
    · right; simp [hu]
    · left; simp [hu]

theorem remove_effect (dev : Bdtun) :
    (nodeNext dev .remove = (dev, -ebusy) ∧ (dev.removing = true ∨ dev.ucnt ≠ 0)) ∨
    (nodeNext dev .remove = ({ dev with removing := true }, 0) ∧ dev.removing = false ∧
      dev.ucnt = 0) :=
  removeCheck_cases dev

/-- A device that is going, or in use, is not idle. -/
theorem not_idle {dev : Bdtun} (h : dev.removing = true ∨ dev.ucnt ≠ 0) :
    ¬ (dev.removing = false ∧ dev.ucnt = 0) := by
  rintro ⟨hr, hu⟩
  rcases h with hgoing | hused
  · rw [hr] at hgoing
    cases hgoing
  · exact hused hu

/-- A removal goes on for an idle device. -/
theorem removable_iff (dev : Bdtun) :
    (removeCheck dev).2 = 0 ↔ dev.removing = false ∧ dev.ucnt = 0 := by
  rcases removeCheck_cases dev with ⟨hbusy, hwhy⟩ | ⟨hgone, hr, hu⟩
  · rw [hbusy]
    exact iff_of_false (show (-ebusy : Int) ≠ 0 by decide) (not_idle hwhy)
  · rw [hgone]
    exact iff_of_true rfl ⟨hr, hu⟩

/-! ## The invariant -/

structure Counted (tr : List (NodeCall × Int)) (dev : Bdtun) : Prop where
  count : dev.ucnt = (handles tr).length
  idle : dev.removing = true → handles tr = []
  once : teardowns tr = if dev.removing then 1 else 0

theorem Counted.next {tr : List (NodeCall × Int)} {dev : Bdtun} (h : Counted tr dev)
    (c : NodeCall) (hp : paired tr c) :
    Counted (tr ++ [(c, (nodeNext dev c).2)]) (nodeNext dev c).1 := by
  obtain ⟨hcount, hidle, honce⟩ := h
  cases c with
  | opens k =>
    rcases open_effect dev k with ⟨-, hrefused, hsame⟩ | ⟨hr, hopened⟩
    · have hhandles : handles (tr ++ [(.opens k, (nodeNext dev (.opens k)).2)]) = handles tr := by
        rw [handles_snoc, recordHandle, if_neg hrefused]
      rw [hsame]
      refine ⟨by rw [hhandles]; exact hcount, by rw [hhandles]; exact hidle, ?_⟩
      rw [teardowns_snoc, honce]
      rfl
    · rw [hopened]
      refine ⟨?_, ?_, ?_⟩
      · rw [handles_snoc]
        show dev.ucnt + 1 = ((k :: handles tr).length : Int)
        rw [List.length_cons, hcount]
        omega
      · intro hgoing
        exact absurd (hr.symm.trans hgoing) (by decide)
      · rw [teardowns_snoc, honce]
        rfl
  | releases k =>
    obtain ⟨hucnt, hremoving⟩ := release_effect dev k
    have hmem : k ∈ handles tr := hp
    have hpos := List.length_pos_of_mem hmem
    refine ⟨?_, ?_, ?_⟩
    · rw [handles_snoc, hucnt, hcount]
      show ((handles tr).length : Int) - 1 = (((handles tr).erase k).length : Int)
      rw [List.length_erase_of_mem hmem]
      omega
    · intro hgoing
      rw [hremoving] at hgoing
      rw [hidle hgoing] at hmem
      cases hmem
    · rw [teardowns_snoc, honce, hremoving]
      rfl
  | remove =>
    have hhandles : ∀ r, handles (tr ++ [(.remove, r)]) = handles tr := by
      intro r
      rw [handles_snoc]
      rfl
    rcases remove_effect dev with ⟨hbusy, -⟩ | ⟨hgone, hr, hu⟩
    · rw [hbusy]
      refine ⟨by rw [hhandles]; exact hcount, by rw [hhandles]; exact hidle, ?_⟩
      rw [teardowns_snoc, honce]
      rfl
    · rw [hgone]
      have hnone : handles tr = [] := by
        apply List.eq_nil_of_length_eq_zero
        omega
      refine ⟨by rw [hhandles]; exact hcount, fun _ => by rw [hhandles]; exact hnone, ?_⟩
      rw [teardowns_snoc, honce, hr]
      rfl

theorem run_counted {blockSize size : Nat} {tr : List (NodeCall × Int)} {dev : Bdtun}
    (h : Run nodes paired (newBdtun blockSize size) tr dev) : Counted tr dev := by
  refine h.invariant Counted ?_ ?_
  · exact ⟨rfl, fun _ => rfl, rfl⟩
  · intro tr dev c hc hp _
    exact hc.next c hp

/-- Once a device is going it stays so, and no open succeeds. -/
theorem path_going {P : Policy NodeCall Int} {tr more : List (NodeCall × Int)} {dev dev' : Bdtun}
    (h : Path nodes P tr dev more dev') (hr : dev.removing = true) :
    dev'.removing = true ∧ (∀ e ∈ more, ∀ k, e.1 = .opens k → e.2 ≠ 0) := by
  induction h with
  | refl => exact ⟨hr, by simp⟩
  | @step more dev' c _ _ _ ih =>
    obtain ⟨hgoing, hopens⟩ := ih
    have hstep : (nodeNext dev' c).1.removing = true ∧
        ∀ k, c = .opens k → (nodeNext dev' c).2 ≠ 0 := by
      cases c with
      | opens k =>
        rcases open_effect dev' k with ⟨-, hrefused, hsame⟩ | ⟨hno, -⟩
        · exact ⟨by rw [hsame]; exact hgoing, fun _ _ => hrefused⟩
        · exact absurd (hno.symm.trans hgoing) (by decide)
      | releases k => exact ⟨(release_effect dev' k).2.trans hgoing, fun _ h => by cases h⟩
      | remove =>
        rcases remove_effect dev' with ⟨hbusy, -⟩ | ⟨hgone, -, -⟩
        · exact ⟨by rw [hbusy]; exact hgoing, fun _ h => by cases h⟩
        · exact ⟨by rw [hgone], fun _ h => by cases h⟩
    refine ⟨hstep.1, fun e he k hk => ?_⟩
    rcases List.mem_append.mp he with he | he
    · exact hopens e he k hk
    · obtain rfl := List.mem_singleton.mp he
      exact hstep.2 k hk

/-- **Use and removal exclude each other.**  In every run: the count is the number of open handles of
both nodes; a refused open changes nothing; `removing` means that the count is 0 and no handle is
open; a device is taken down at most once, exactly when `removing` is set, and then no handle is
open; and `removing` stays set, with every later open refused. -/
theorem use_count {blockSize size : Nat} {tr : List (NodeCall × Int)} {dev : Bdtun}
    (h : Run nodes paired (newBdtun blockSize size) tr dev) :
    dev.ucnt = (handles tr).length ∧ 0 ≤ dev.ucnt ∧
    (∀ k, (nodeNext dev (.opens k)).2 ≠ 0 → (nodeNext dev (.opens k)).1 = dev) ∧
    (dev.removing = true → dev.ucnt = 0 ∧ handles tr = []) ∧
    teardowns tr ≤ 1 ∧ (teardowns tr = 1 ↔ dev.removing = true) ∧
    ((nodeNext dev .remove).2 = 0 → dev.removing = false ∧ handles tr = [] ∧
      (nodeNext dev .remove).1.removing = true) ∧
    (∀ more dev', Path nodes paired tr dev more dev' → dev.removing = true →
      dev'.removing = true ∧ ∀ e ∈ more, ∀ k, e.1 = .opens k → e.2 ≠ 0) := by
  obtain ⟨hcount, hidle, honce⟩ := run_counted h
  refine ⟨hcount, by omega, fun k hk => ?_, fun hr => ?_, ?_, ?_, fun hgone => ?_, ?_⟩
  · rcases open_effect dev k with ⟨-, -, hsame⟩ | ⟨-, hopened⟩
    · exact hsame
    · rw [hopened] at hk
      exact absurd rfl hk
  · have hnone := hidle hr
    rw [hcount, hnone]
    exact ⟨rfl, rfl⟩
  · rw [honce]
    split <;> omega
  · rw [honce]
    cases dev.removing <;> simp
  · rcases remove_effect dev with ⟨hbusy, -⟩ | ⟨hgoing, hr, hu⟩
    · rw [hbusy] at hgone
      exact absurd hgone (show (-ebusy : Int) ≠ 0 by decide)
    · refine ⟨hr, ?_, by rw [hgoing]⟩
      apply List.eq_nil_of_length_eq_zero
      omega
  · intro more dev' hpath hr
    exact path_going hpath hr

/-- A device that is used, released and removed; the opens after that are refused. -/
theorem use_count_sample :
    let calls := [.opens (.block, 0), .opens (.tunnel, 0), .remove, .releases (.block, 0),
      .releases (.tunnel, 0), .remove, .opens (.tunnel, 1)]
    (exec nodes (newBdtun 512 1024) calls).ucnt = 0 ∧
      handles (traceOf nodes (newBdtun 512 1024) calls) = [] := by
  have hrun := @path_exec _ _ _ nodes paired [] (newBdtun 512 1024)
    [.opens (.block, 0), .opens (.tunnel, 0), .remove, .releases (.block, 0),
      .releases (.tunnel, 0), .remove, .opens (.tunnel, 1)] (by decide)
  obtain ⟨-, -, -, hgoing, -⟩ := use_count hrun
  exact hgoing (by decide)

end BDTun
