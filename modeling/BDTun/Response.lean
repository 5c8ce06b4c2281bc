import BDTun.Sizes

/-!
# Responses and the commands they belong to

The response of a query lies in one static buffer until it is read.  `answer`
says what a history leaves to be read: the response to the last command that
succeeded in this session, if it has not been read yet.  The buffer does not
follow it when a session is opened or when a create, remove or resize succeeds;
then what an earlier query left in it is still there (`stale`).

* `Kept`: the buffer, against the history; `run_kept`: in every run.
* `responses_paired`: a read gives what is to be read, within the bytes asked for,
  exactly when nothing stale is left and the caller asks for enough; nothing stale
  is left in runs that open sessions and give commands with the last response
  read (`Emptied`).
-/

namespace BDTun

open Memory Machine

/-- What is to be read, and whether the buffer may have something else. -/
structure Answer where
  due : List UInt8
  stale : Bool

def Answer.record (h : Answer) : CtrlCall × CtrlRet → Answer
  | (.ctrlOpen, .ret code) => if code = 0 then ⟨[], true⟩ else h
  | (.ctrlWrite _ c _, .wrote _ response) => ⟨response, !c.asks⟩
  | (.ctrlRead _ _, .data code _) => if code < 0 then h else ⟨[], false⟩
  | _ => h

def answer (tr : List (CtrlCall × CtrlRet)) : Answer := tr.foldl Answer.record ⟨[], false⟩

theorem answer_snoc (tr : List (CtrlCall × CtrlRet)) (e : CtrlCall × CtrlRet) :
    answer (tr ++ [e]) = (answer tr).record e := by
  simp [answer]

/-- The read of a response, into memory whose first `valid` bytes can be written. -/
def readOf (response : List UInt8) (valid : Nat) : CtrlRet :=
  if response.length ≤ valid then .data response.length response
  else .data (-efault) (response.take valid)

def CtrlRet.copied : CtrlRet → List UInt8
  | .data _ bytes => bytes
  | _ => []

/-- A read that gives what is due, and no more bytes than asked for. -/
def ReadRight (due : List UInt8) (count valid : Nat) (r : CtrlRet) : Prop :=
  r.copied.length ≤ count ∧ r = readOf due valid

theorem length_copied_readOf (response : List UInt8) (valid : Nat) :
    (readOf response valid).copied.length = min valid response.length := by
  unfold readOf
  split
  · next h => exact (Nat.min_eq_right h).symm
  · exact List.length_take

/-- Only the empty response reads like the empty one. -/
theorem readOf_nil {response : List UInt8} {valid : Nat} :
    readOf response valid = readOf [] valid ↔ response = [] := by
  constructor
  · intro h
    unfold readOf at h
    rw [List.length_nil, if_pos (Nat.zero_le _)] at h
    split at h
    · exact (CtrlRet.data.inj h).2
    · exact absurd (CtrlRet.data.inj h).1 (by decide)
  · intro h
    rw [h]

section
variable [Kernel]

/-- The buffer, against what is to be read. -/
structure Kept (h : Answer) (s : Ctrl) : Prop where
  size : 0 ≤ s.ctrlResponseSize
  fresh : h.stale = false → s.response = h.due
  none : h.stale = true → h.due = []

variable {h : Answer} {s : Ctrl}

omit [Kernel] in
theorem length_response (s : Ctrl) : s.response.length = s.ctrlResponseSize.toNat := by
  simp [Ctrl.response, gather]

omit [Kernel] in
/-- A read, by what is in the buffer. -/
theorem ctrlRead_eq (hsize : 0 ≤ s.ctrlResponseSize) (count valid : Nat) :
    (ctrlRead s count valid).2 = readOf s.response valid ∧
      (ctrlRead s count valid).1 =
        if s.response.length ≤ valid then { s with ctrlResponseSize := 0 } else s := by
  have hlength := length_response s
  have hnat : s.ctrlResponseSize = s.response.length := by omega
  unfold ctrlRead readOf
  rw [if_neg (by omega)]
  by_cases hfits : s.response.length ≤ valid
  · rw [if_pos (by omega), if_pos hfits, if_pos hfits, ← hnat]
    exact ⟨rfl, rfl⟩
  · rw [if_neg (by omega), if_neg hfits, if_neg hfits]
    exact ⟨rfl, rfl⟩

omit [Kernel] in
/-- A step that leaves the buffer alone, and after which nothing else is due. -/
theorem Kept.congr (hk : Kept h s) {s' : Ctrl} (hbuf : s'.ctrlResponseBuf = s.ctrlResponseBuf)
    (hsize : s'.ctrlResponseSize = s.ctrlResponseSize) : Kept h s' := by
  have hsame : s'.response = s.response := by
    rw [Ctrl.response, Ctrl.response, hbuf, hsize]
  exact ⟨by rw [hsize]; exact hk.size, by rw [hsame]; exact hk.fresh, hk.none⟩

omit [Kernel] in
/-- A step after which nothing is due, whatever is in the buffer. -/
theorem Kept.stale (hk : Kept h s) {s' : Ctrl}
    (hsize : s'.ctrlResponseSize = s.ctrlResponseSize) : Kept ⟨[], true⟩ s' :=
  ⟨by rw [hsize]; exact hk.size, fun h => absurd h (by decide), fun _ => rfl⟩

omit [Kernel] in
theorem Kept.read (hk : Kept h s) (count valid : Nat) :
    Kept (h.record (.ctrlRead count valid, (ctrlRead s count valid).2))
      (ctrlRead s count valid).1 := by
  obtain ⟨hret, hstate⟩ := ctrlRead_eq hk.size count valid
  rw [hret, hstate, readOf]
  by_cases hfits : s.response.length ≤ valid
  · have hok : ¬ ((s.response.length : Nat) : Int) < 0 := by omega
    rw [if_pos hfits, if_pos hfits]
    simp only [Answer.record, if_neg hok]
    exact ⟨Int.le_refl 0, fun _ => rfl, fun _ => rfl⟩
  · rw [if_neg hfits, if_neg hfits]
    exact hk

/-- **Every call.** -/
theorem Kept.next (hk : Kept h s) (c : CtrlCall) (hr : (controlNext s c).2 ≠ .oops) :
    Kept (h.record (c, (controlNext s c).2)) (controlNext s c).1 := by
  by_cases hread : ∃ count valid, c = .ctrlRead count valid
  · obtain ⟨count, valid, rfl⟩ := hread
    exact hk.read count valid
  · have heff := ctrl_effect s c hr
    generalize controlNext s c = res at heff
    cases heff with
    | session hlock => exact hk.stale rfl
    | created count name blocksize size capabilities k new queue major chNum gd w _ _ _ _ =>
      exact hk.stale rfl
    | resized count name size k dev hf => exact hk.stale rfl
    | removed count name k dev hf _ _ => exact hk.stale rfl
    | answered count c k hc buf size response hresponse =>
      refine ⟨Int.natCast_nonneg size, fun _ => hresponse, fun hstale => ?_⟩
      rw [Answer.record, hc] at hstale
      cases hstale
    | read count valid size r => exact absurd ⟨_, _, rfl⟩ hread
    | missed name k c hc hf =>
      rcases hc with rfl | rfl
      · exact hk
      · exact hk
    | _ => exact hk.congr rfl rfl

theorem run_kept {P : Policy CtrlCall CtrlRet} {tr : List (CtrlCall × CtrlRet)}
    (hrun : Run control P .init tr s) : Kept (answer tr) s := by
  refine hrun.invariant (fun tr s => Kept (answer tr) s) ?_ ?_
  · exact ⟨Int.le_refl 0, fun _ => rfl, fun _ => rfl⟩
  · intro tr s c hk _ he
    rw [answer_snoc]
    exact hk.next c he.2

omit [Kernel] in
/-- **A read**, by the history and what is in the buffer. -/
theorem Kept.readRight_iff (hk : Kept h s) (count valid : Nat) :
    ReadRight h.due count valid (ctrlRead s count valid).2 ↔
      (h.stale = true → s.ctrlResponseSize = 0) ∧
        min valid s.ctrlResponseSize.toNat ≤ count := by
  obtain ⟨hsize, hfresh, hnone⟩ := hk
  have hlength := length_response s
  have hempty : s.response = [] ↔ s.ctrlResponseSize = 0 := by
    rw [← List.length_eq_zero_iff, hlength]
    omega
  rw [ReadRight, (ctrlRead_eq hsize count valid).1, length_copied_readOf, hlength, and_comm]
  refine and_congr_left ?_
  intro _
  cases hstale : h.stale with
  | false =>
    rw [hfresh hstale]
    simp
  | true =>
    rw [hnone hstale, readOf_nil, hempty]
    simp

/-- A session is opened, and a command that is no query given, with no response unread. -/
def Emptied (s : Ctrl) : CtrlCall → Prop
  | .ctrlOpen => s.ctrlLock = 1 → s.ctrlResponseSize = 0
  | .ctrlWrite _ c _ => c.asks = false → s.ctrlResponseSize = 0
  | _ => True

/-- What may be stale is empty. -/
def Fresh (h : Answer) (s : Ctrl) : Prop := h.stale = true → s.ctrlResponseSize = 0

theorem Fresh.next (hf : Fresh h s) (hk : Kept h s) (c : CtrlCall)
    (hr : (controlNext s c).2 ≠ .oops) (he : Emptied s c) :
    Fresh (h.record (c, (controlNext s c).2)) (controlNext s c).1 := by
  by_cases hread : ∃ count valid, c = .ctrlRead count valid
  · obtain ⟨count, valid, rfl⟩ := hread
    obtain ⟨hret, hstate⟩ := ctrlRead_eq hk.size count valid
    show Fresh (h.record (_, (ctrlRead s count valid).2)) (ctrlRead s count valid).1
    rw [hret, hstate, readOf]
    by_cases hfits : s.response.length ≤ valid
    · rw [if_pos hfits, if_pos hfits]
      exact fun _ => rfl
    · rw [if_neg hfits, if_neg hfits]
      exact hf
  · have heff := ctrl_effect s c hr
    generalize controlNext s c = res at heff
    cases heff with
    | session hlock => exact fun _ => he hlock
    | created count name blocksize size capabilities k new queue major chNum gd w _ _ _ _ =>
      exact fun _ => he rfl
    | resized count name size k dev hf => exact fun _ => he rfl
    | removed count name k dev hf _ _ => exact fun _ => he rfl
    | answered count c k hc buf size response _ =>
      intro hstale
      simp [Answer.record, hc] at hstale
    | read count valid size r => exact absurd ⟨_, _, rfl⟩ hread
    | missed name k c hc _ =>
      rcases hc with rfl | rfl
      · exact hf
      · exact hf
    | _ => exact hf

/-- **Runs** that leave nothing unread behind. -/
theorem run_fresh {tr : List (CtrlCall × CtrlRet)} (hrun : Run control ctrlUsers .init tr s)
    (he : AllSteps control ctrlUsers .init Emptied tr) : Fresh (answer tr) s := by
  induction hrun with
  | refl => exact fun _ => rfl
  | step c hrun hp hok ih =>
    obtain ⟨hall, hlast⟩ := (allSteps_snoc hrun).mp he
    rw [answer_snoc]
    exact (ih hall).next (run_kept hrun) c hok.2 hlast

/-- What reads are expected to give, in every run. -/
def PairsResponses : Prop :=
  ∀ tr s, Run control ctrlUsers .init tr s → ∀ count valid, ctrlUsers tr (.ctrlRead count valid) →
    ReadRight (answer tr).due count valid (ctrlRead s count valid).2

/-- **Responses.**  After every run, a read gives the response to the last command that succeeded in
its session, once, and no more bytes than it asks for, exactly when no response is left in the
buffer from before that command or session, and the caller asks for as many bytes as are copied.
None is left after a run in which sessions are opened, and commands that are no queries given, with
the last response read. -/
theorem responses_paired {tr : List (CtrlCall × CtrlRet)}
    (hrun : Run control ctrlUsers .init tr s) :
    (∀ count valid, ReadRight (answer tr).due count valid (ctrlRead s count valid).2 ↔
      ((answer tr).stale = true → s.ctrlResponseSize = 0) ∧
        min valid s.ctrlResponseSize.toNat ≤ count) ∧
    (AllSteps control ctrlUsers .init Emptied tr → ∀ count valid,
      (ReadRight (answer tr).due count valid (ctrlRead s count valid).2 ↔
        min valid s.ctrlResponseSize.toNat ≤ count)) := by
  have hk := run_kept hrun
  refine ⟨hk.readRight_iff, fun he count valid => ?_⟩
  have hfresh : (answer tr).stale = true → s.ctrlResponseSize = 0 := run_fresh hrun he
  rw [hk.readRight_iff, and_iff_right hfresh]

end

section
attribute [local instance] linux32

/-- A list is asked for and not read; the next session reads it without a command. -/
theorem reads_earlier_session : ¬ PairsResponses := by
  intro h
  have hrun := @path_exec _ _ _ control ctrlUsers [] .init
    (sampleCreate ++ [.ctrlWrite 64 (.list 0 1) sampleAnswers, .ctrlRelease, .ctrlOpen]) (by decide)
  have hright := h _ _ hrun 1024 1024 (by decide)
  exact absurd hright.2 (by decide)

/-- A list is asked for and read. -/
theorem responses_paired_sample :
    let calls := sampleCreate ++ [.ctrlWrite 64 (.list 0 1) sampleAnswers]
    ReadRight (answer (traceOf control .init calls)).due 1024 1024
      (ctrlRead (exec control .init calls) 1024 1024).2 := by
  have hrun := @path_exec _ _ _ control ctrlUsers [] .init
    (sampleCreate ++ [.ctrlWrite 64 (.list 0 1) sampleAnswers]) (by decide)
  exact ((responses_paired hrun).1 1024 1024).mpr ⟨by decide, by decide⟩

end

end BDTun
