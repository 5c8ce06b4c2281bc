import BDTun.Header

/-!
# The flag words of user space

`bdtun_translate_bio_rw` reads the kernel's numbering of the flags and writes the
header's, so that user space sees the same words with any kernel.

* `translation`: it is a translation between the two numberings, for the flags of its
  version branch.
* `flags_translated`: so its words depend on the set of flags alone, and tell the set.
-/

namespace BDTun

open FlagWord

/-- The flags of a branch, as a set. -/
def branchFlags (v : Bool) : Set ReqFlag := {f | f ∈ translatedFlags v}

/-- The flags of a branch that a word of the kernel has. -/
def givenFlags (req : ReqFlag → Nat) (v : Bool) (rw : Nat) : Set ReqFlag :=
  branchFlags v ∩ flags req rw

theorem translation (req : ReqFlag → Nat) (v : Bool) :
    Translation req bdtunReqShift (branchFlags v) (bdtunTranslateBioRw req v) :=
  testBit_translate req v

/-- **Flags.**  For any numberings of the kernel's flags and in both branches, a word has the header's
bits of the branch's flags that are set and no others; two words are the same exactly when the same
flags are set; unions are translated part by part; and any flags of the branch, if their bits are
distinct, come out as they are. -/
theorem flags_translated (req : ReqFlag → Nat) (v : Bool) :
    (∀ rw i, (bdtunTranslateBioRw req v rw).testBit i = true ↔
      ∃ f ∈ translatedFlags v, bdtunReqShift f = i ∧ rw.testBit (req f) = true) ∧
    (∀ req' v' rw rw', bdtunTranslateBioRw req v rw = bdtunTranslateBioRw req' v' rw' ↔
      givenFlags req v rw = givenFlags req' v' rw') ∧
    (∀ rw rw', bdtunTranslateBioRw req v (rw ||| rw') =
      bdtunTranslateBioRw req v rw ||| bdtunTranslateBioRw req v rw') ∧
    (Set.InjOn req (branchFlags v) → ∀ fs, (∀ f ∈ fs, f ∈ translatedFlags v) →
      bdtunTranslateBioRw req v (word req fs) = word bdtunReqShift fs) := by
  have htrans := translation req v
  refine ⟨testBit_translate req v, ?_, htrans.or, ?_⟩
  · intro req' v' rw rw'
    exact htrans.eq_iff (translation req' v') bdtunReqShift_injective rw rw'
  · intro hreq fs hfs
    exact htrans.word hreq hfs

end BDTun
