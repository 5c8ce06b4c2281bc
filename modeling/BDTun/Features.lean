import BDTun.Registry

/-!
# The features of a queue

`bdtun_create_k` keeps the capabilities word and sets up the queue from it.  What
`blk_queue_flush` is given are features of the queue; `blk_queue_discard` and
`test_bit` ask for a flag and change none.

* `run_configured`: so in every run the queue of a device is that of its word, less
  the two discard features.
* `features_reported`: a feature is enabled exactly when it was asked for and is
  reported, unless it is one of those two and was asked for.
-/

namespace BDTun

open Machine

def bdtunDiscard : BitVec 32 := 4
def bdtunSecure : BitVec 32 := 8

/-- What an administrator can ask to have forwarded. -/
inductive Feature
  | flush | fua | discard | secure
deriving DecidableEq

/-- The bit of `struct bdtun_info` and of the create command. -/
def Feature.bit : Feature → BitVec 32
  | .flush => bdtunFlush
  | .fua => bdtunFua
  | .discard => bdtunDiscard
  | .secure => bdtunSecure

/-- `capabilities & BDTUN_...` -/
def Feature.In (f : Feature) (capabilities : BitVec 32) : Prop := capabilities &&& f.bit ≠ 0

instance (f : Feature) (capabilities : BitVec 32) : Decidable (f.In capabilities) :=
  inferInstanceAs (Decidable (_ ≠ _))

section
variable [Kernel]

/-- The block layer lets such requests through to the queue's driver. -/
def RequestQueue.enabled (q : RequestQueue) : Feature → Bool
  | .flush => q.flushFlags.testBit (reqBit .reqFlush)
  | .fua => q.flushFlags.testBit (reqBit .reqFua)
  | .discard => q.discard
  | .secure => q.secdiscard

omit [Kernel] in
theorem testBit_flag (p : Prop) [Decidable p] (i j : Nat) :
    (if p then 1 <<< i else 0).testBit j = true ↔ p ∧ i = j := by
  by_cases hp : p
  · rw [if_pos hp, Nat.one_shiftLeft, Nat.testBit_two_pow, decide_eq_true_eq]
    exact (and_iff_right hp).symm
  · rw [if_neg hp, Nat.zero_testBit]
    exact iff_of_false (by simp) fun hand => hp hand.1

/-- What the queue is given has the two flags for the two bits. -/
theorem testBit_qflags (capabilities : BitVec 32) :
    ((qflags capabilities).testBit (reqBit .reqFlush) = true ↔ Feature.flush.In capabilities) ∧
      ((qflags capabilities).testBit (reqBit .reqFua) = true ↔ Feature.fua.In capabilities) := by
  have hne : reqBit .reqFlush ≠ reqBit .reqFua := Kernel.reqBit_injective.ne (by decide)
  unfold qflags
  rw [Nat.testBit_or, Nat.testBit_or, Bool.or_eq_true, Bool.or_eq_true, testBit_flag, testBit_flag,
    testBit_flag, testBit_flag]
  constructor
  · constructor
    · rintro (⟨hin, -⟩ | ⟨-, heq⟩)
      · exact hin
      · exact absurd heq.symm hne
    · exact fun hin => Or.inl ⟨hin, rfl⟩
  · constructor
    · rintro (⟨-, heq⟩ | ⟨hin, -⟩)
      · exact absurd heq hne
      · exact hin
    · exact fun hin => Or.inr ⟨hin, rfl⟩

/-- The queue of a device is set up from its capabilities, with no discard. -/
structure Device.Configured (d : Device) : Prop where
  flushFlags : d.queue.flushFlags = qflags d.capabilities
  discard : d.queue.discard = false
  secdiscard : d.queue.secdiscard = false

/-- What a feature of such a device is. -/
theorem Device.Configured.enabled {d : Device} (h : d.Configured) (f : Feature) :
    d.queue.enabled f = true ↔ f.In d.capabilities ∧ f ≠ .discard ∧ f ≠ .secure := by
  unfold RequestQueue.enabled
  cases f with
  | flush =>
    rw [h.flushFlags, (testBit_qflags d.capabilities).1]
    simp
  | fua =>
    rw [h.flushFlags, (testBit_qflags d.capabilities).2]
    simp
  | discard => simp [h.discard]
  | secure => simp [h.secdiscard]

/-- The devices of a list are set up. -/
def Ctrl.Configured (s : Ctrl) : Prop := ∀ d ∈ s.deviceList, d.Configured

/-- A write to a device that leaves its queue and its capabilities alone. -/
theorem Ctrl.Configured.update {s : Ctrl} (h : s.Configured) (a : Addr) {f : Device → Device}
    (hf : ∀ d, (f d).queue = d.queue ∧ (f d).capabilities = d.capabilities) :
    (s.update a f).Configured := by
  intro d hd
  obtain ⟨e, he, rfl⟩ := mem_update.mp hd
  have hown := h e he
  split
  · exact ⟨by rw [(hf e).1, (hf e).2]; exact hown.flushFlags, by rw [(hf e).1]; exact hown.discard,
      by rw [(hf e).1]; exact hown.secdiscard⟩
  · exact hown

/-- **Every call keeps it.** -/
theorem Ctrl.Configured.next {s : Ctrl} (h : s.Configured) (c : CtrlCall)
    (hr : (controlNext s c).2 ≠ .oops) : (controlNext s c).1.Configured := by
  have heff := ctrl_effect s c hr
  generalize controlNext s c = res at heff
  cases heff with
  | created count name blocksize size capabilities k new queue major chNum gd w _ _ _ _ =>
    intro d hd
    rcases List.mem_append.mp hd with hold | hone
    · exact h d hold
    · rw [List.mem_singleton.mp hone]
      exact ⟨rfl, rfl, rfl⟩
  | resized count name size k dev hf => exact h.update _ fun _ => ⟨rfl, rfl⟩
  | notResized count name size k dev hf e _ => exact h.update _ fun _ => ⟨rfl, rfl⟩
  | removed count name k dev hf _ _ =>
    intro d hd
    exact h d (List.mem_of_mem_filter hd)
  | opened name k dev hf _ => exact h.update _ fun _ => ⟨rfl, rfl⟩
  | going name k dev hf _ code _ => exact h.update _ fun _ => ⟨rfl, rfl⟩
  | released name k dev hf b _ _ _ => exact h.update _ fun _ => ⟨rfl, rfl⟩
  | added w work hw =>
    exact h.update work.dev fun _ => ⟨rfl, rfl⟩
  | _ => exact h

theorem run_configured {P : Policy CtrlCall CtrlRet} {tr : List (CtrlCall × CtrlRet)} {s : Ctrl}
    (hrun : Run control P .init tr s) : s.Configured := by
  refine hrun.invariant (fun _ => Ctrl.Configured) ?_ ?_
  · intro d hd
    cases hd
  · intro tr s c hs _ he
    exact hs.next c he.2

/-- The feature is on exactly when it was asked for and is reported. -/
def FeatureExact (d : Device) (asked : BitVec 32) (info : BdtunInfo) (f : Feature) : Prop :=
  d.queue.enabled f = true ↔ f.In asked ∧ f.In info.capabilities

/-- **Capabilities.**  In every run, for every listed device: INFO reports the word it was created
with, and each feature is enabled exactly when it was asked for and is reported, unless it is one of
the two discard features, and was asked for. -/
theorem features_reported {tr : List (CtrlCall × CtrlRet)} {s : Ctrl}
    (hrun : Run control ctrlUsers .init tr s) {d : Device} (hd : d ∈ s.deviceList) :
    ∃ e info, (replay tr).lookup d.diskName = some e ∧
      bdtunInfoK s.deviceList d.diskName = .ok info ∧ info.capabilities = e.capabilities ∧
      ∀ f, FeatureExact d e.capabilities info f ↔
        ¬ (f.In e.capabilities ∧ (f = .discard ∨ f = .secure)) := by
  have hfind := (run_listed (fun _ _ h => h) hrun).find hd
  have hlookup := (run_represents hrun).lookup d.diskName
  rw [hfind] at hlookup
  have henabled := (run_configured hrun d hd).enabled
  refine ⟨_, _, hlookup, by rw [bdtunInfoK, hfind], rfl, fun f => ?_⟩
  unfold FeatureExact
  rw [henabled f]
  show (f.In d.capabilities ∧ _ ↔ f.In d.capabilities ∧ f.In d.capabilities) ↔
    ¬ (f.In d.capabilities ∧ _)
  constructor
  · rintro hexact ⟨hin, hkind⟩
    obtain ⟨-, hdiscard, hsecure⟩ := hexact.mpr ⟨hin, hin⟩
    rcases hkind with hkind | hkind
    · exact hdiscard hkind
    · exact hsecure hkind
  · intro hnot
    constructor
    · rintro ⟨hin, -⟩
      exact ⟨hin, hin⟩
    · rintro ⟨hin, -⟩
      exact ⟨hin, fun hkind => hnot ⟨hin, Or.inl hkind⟩, fun hkind => hnot ⟨hin, Or.inr hkind⟩⟩

end

section
attribute [local instance] linux32

/-- A device is created with `BDTUN_DISCARD`. -/
def sampleDiscard : List CtrlCall :=
  [.ctrlOpen, .ctrlWrite 64 (.create sampleName 512 1024 bdtunDiscard) sampleAnswers]

/-- INFO reports a discard feature that the queue does not have. -/
theorem discard_not_enabled : ¬ ∀ tr s, Run control ctrlUsers .init tr s → ∀ d ∈ s.deviceList,
    ∀ e info, (replay tr).lookup d.diskName = some e →
      bdtunInfoK s.deviceList d.diskName = .ok info → ∀ f, FeatureExact d e.capabilities info f := by
  intro h
  have hrun := @path_exec _ _ _ control ctrlUsers [] .init sampleDiscard (by decide)
  have hexact := h _ _ hrun _ List.mem_cons_self _ _ rfl rfl .discard
  exact absurd (hexact.mpr ⟨by decide, by decide⟩) (by decide)

/-- A device is created with a flush, a FUA and a discard feature: it has the first two. -/
theorem features_reported_sample :
    let calls := [.ctrlOpen, .ctrlWrite 64
      (.create sampleName 512 1024 (bdtunFlush ||| bdtunFua ||| bdtunDiscard)) sampleAnswers]
    ∃ d ∈ (exec control .init calls).deviceList, ∃ e info,
      (replay (traceOf control .init calls)).lookup d.diskName = some e ∧
      FeatureExact d e.capabilities info .flush ∧ FeatureExact d e.capabilities info .fua ∧
      ¬ FeatureExact d e.capabilities info .discard := by
  intro calls
  have hrun := @path_exec _ _ _ control ctrlUsers [] .init calls (by decide)
  obtain ⟨e, info, hlookup, -, -, hfeatures⟩ := features_reported hrun List.mem_cons_self
  refine ⟨_, List.mem_cons_self, e, info, hlookup, (hfeatures .flush).mpr ?_,
    (hfeatures .fua).mpr ?_, fun hexact => (hfeatures .discard).mp hexact ⟨?_, Or.inl rfl⟩⟩
  · rintro ⟨-, hkind | hkind⟩ <;> cases hkind
  · rintro ⟨-, hkind | hkind⟩ <;> cases hkind
  · obtain rfl := Option.some.inj hlookup
    decide

end

end BDTun
