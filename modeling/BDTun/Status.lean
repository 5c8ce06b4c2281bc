import BDTun.Conservation
import BDTun.Library

/-!
# The status of a finished request

A client of the library finishes a request with `bdtun_complete_request` or
`bdtun_fail_request` (`Via`).  `clients` runs such clients on the device and
remembers which bio was finished which way; both ways write the byte 0.

* `status_carried`: a bio is ended with the status its client asked for exactly
  when it was not failed; a submitter can trust the status of every bio exactly
  in the runs without a `bdtun_fail_request`.
-/

namespace BDTun

open Memory Machine

/-- How a client finishes a request. -/
inductive Via
  | complete
  | fail
deriving DecidableEq

/-- The status the bio is to be ended with. -/
def Via.status : Via → Int
  | .complete => 0
  | .fail => -eio

section
variable [Kernel]

def Via.call (f : FileId) : Via → LibCall
  | .complete => bdtunCompleteRequest f
  | .fail => bdtunFailRequest f

/-- Both write the byte 0. -/
theorem via_call (f : FileId) (via : Via) : (via.call f).call = .write f [0] 1 := by
  cases via with
  | complete => exact completion_call f
  | fail => exact failure_call f

inductive LibStep
  | call (c : Call)
  | finish (f : FileId) (via : Via)
deriving DecidableEq

def LibStep.toCall : LibStep → Call
  | .call c => c
  | .finish f via => (via.call f).call

structure Clients where
  world : World
  /-- the bios the clients finished, oldest first -/
  finished : List (Bio × Via)

/-- What a step finishes: the data-current bio. -/
def LibStep.finishes (world : World) : LibStep → List (Bio × Via)
  | .call _ => []
  | .finish _ via => (world.bioAt world.dev.dataCurrentBio).toList.map fun bio => (bio, via)

def clients : Machine Clients LibStep Ret where
  enabled c e := tunnel.enabled c.world e.toCall
  next c e :=
    (⟨(tunnelNext c.world e.toCall).1, c.finished ++ e.finishes c.world⟩,
      (tunnelNext c.world e.toCall).2)

instance (c : Clients) (e : LibStep) : Decidable (clients.enabled c e) :=
  inferInstanceAs (Decidable (tunnel.enabled _ _))

def Clients.start (world : World) : Clients := ⟨world, []⟩

def callsOf (tr : List (LibStep × Ret)) : List (Call × Ret) :=
  tr.map fun e => (e.1.toCall, e.2)

theorem callsOf_snoc (tr : List (LibStep × Ret)) (e : LibStep) (r : Ret) :
    callsOf (tr ++ [(e, r)]) = callsOf tr ++ [(e.toCall, r)] := by
  simp [callsOf]

/-- A completion byte. -/
def isByte : Call → Bool
  | .write _ buf _ => buf.length = 1
  | _ => false

/-- A client finishes requests through the library, and only while it has set an outstanding one. -/
def library : Policy LibStep Ret := fun tr e =>
  vfs (callsOf tr) e.toCall ∧
  match e with
  | .call c => isByte c = false
  | .finish _ _ => (hist (callsOf tr)).lastSet ∈ (hist (callsOf tr)).owed

instance (tr : List (LibStep × Ret)) (e : LibStep) : Decidable (library tr e) := by
  cases e <;> unfold library <;> infer_instance

/-- Each finished bio is ended as its client asked, and a submitter sees success exactly for the bios
that were completed. -/
def Faithful (c : Clients) : Prop :=
  (∀ p ∈ c.finished, (p.1, p.2.status) ∈ c.world.ended) ∧
  ∀ bio, (bio, (0 : Int)) ∈ c.world.ended ↔ (bio, Via.complete) ∈ c.finished

def isFail : LibStep × Ret → Bool
  | (.finish _ .fail, _) => true
  | _ => false

variable {blockSize size : Nat} {mem : Mem} {tr : List (LibStep × Ret)} {c : Clients}

/-- What a run of clients does to the bios they finish. -/
structure Carried (blockSize size : Nat) (mem : Mem) (tr : List (LibStep × Ret)) (c : Clients) :
    Prop where
  run : Run tunnel heldClient (World.init blockSize size mem) (callsOf tr) c.world
  zero : ∀ p ∈ c.finished, (p.1, (0 : Int)) ∈ c.world.ended
  finished : ∀ bio, (bio, (0 : Int)) ∈ c.world.ended → ∃ via, (bio, via) ∈ c.finished
  fails : (∃ bio, (bio, Via.fail) ∈ c.finished) ↔ ∃ e ∈ tr, isFail e = true

/-- A call that is not a completion ends a bio with an error or none. -/
theorem ended_call {s : World} {call : Call} (hr : (tunnelNext s call).2 ≠ .oops)
    (hbyte : isByte call = false) :
    (tunnelNext s call).1.ended = s.ended ∨
      ∃ bio, (tunnelNext s call).1.ended = s.ended ++ [(bio, -eio)] := by
  have heff := effect_of_next s call hr
  generalize tunnelNext s call = res at heff
  cases heff with
  | refused bio => exact Or.inr ⟨bio, rfl⟩
  | completed f byte valid entry _ => cases hbyte
  | queued bio new => exact Or.inl rfl
  | opened f _ => exact Or.inl rfl
  | closed f => exact Or.inl rfl
  | delivered f valid signal a rest entry _ _ => exact Or.inl rfl
  | set f buf valid _ => exact Or.inl rfl
  | moved f buf valid mem code _ _ => exact Or.inl rfl
  | quiet call r _ => exact Or.inl rfl
  | ticked j => exact Or.inl rfl

/-- Finishing the data-current request, either way, ends its bio with 0. -/
theorem finish_ended {s : World} (f : FileId) (via : Via) (hr : (tunnelNext s (via.call f).call).2 ≠ .oops) :
    ∃ bio, s.bioAt s.dev.dataCurrentBio = some bio ∧
      (tunnelNext s (via.call f).call).1.ended = s.ended ++ [(bio, 0)] := by
  rw [via_call] at hr ⊢
  simp only [tunnelNext, bdtunchWrite_byte, World.complete] at hr ⊢
  cases he : s.entries s.dev.dataCurrentBio with
  | none => simp [he] at hr
  | some entry => exact ⟨entry.bio, bioAt_of_entry he, rfl⟩

/-- What a step can be in the run of calls. -/
theorem library_held (e : LibStep) (hp : library tr e) : heldClient (callsOf tr) e.toCall := by
  obtain ⟨hvfs, hlib⟩ := hp
  cases e with
  | call call =>
    cases call with
    | submit bio new => exact hvfs
    | write f buf valid =>
      intro hone
      simp [isByte, hone] at hlib
    | _ => trivial
  | finish f via =>
    rw [LibStep.toCall, via_call]
    exact fun _ => hlib

theorem exists_fail_snoc (tr : List (LibStep × Ret)) (e : LibStep × Ret) :
    (∃ x ∈ tr ++ [e], isFail x = true) ↔ (∃ x ∈ tr, isFail x = true) ∨ isFail e = true := by
  simp only [List.mem_append, List.mem_singleton, or_and_right, exists_or, exists_eq_left]

/-- A call that is not a completion finishes nothing and ends nothing with 0. -/
theorem Carried.call (h : Carried blockSize size mem tr c) (call : Call)
    (hp : library tr (.call call)) (he : clients.enabled c (.call call)) :
    Carried blockSize size mem (tr ++ [(.call call, (clients.next c (.call call)).2)])
      (clients.next c (.call call)).1 := by
  have hrun := h.run.step call (library_held _ hp) he
  have hsame : (clients.next c (.call call)).1.finished = c.finished := List.append_nil _
  have hzero : ∀ bio, (bio, (0 : Int)) ∈ (clients.next c (.call call)).1.world.ended ↔
      (bio, (0 : Int)) ∈ c.world.ended := by
    intro bio
    show _ ∈ (tunnelNext c.world (LibStep.call call).toCall).1.ended ↔ _
    rcases ended_call he.2 hp.2 with hended | ⟨refused, hended⟩
    · rw [hended]
    · rw [hended, List.mem_append, List.mem_singleton]
      refine ⟨fun hor => hor.resolve_right fun heq => ?_, Or.inl⟩
      have hstatus : (0 : Int) = -eio := congrArg Prod.snd heq
      exact absurd hstatus (by decide)
  refine ⟨by rw [callsOf_snoc]; exact hrun, ?_, ?_, ?_⟩
  · intro p hp
    rw [hsame] at hp
    exact (hzero p.1).mpr (h.zero p hp)
  · intro bio hbio
    rw [hsame]
    exact h.finished bio ((hzero bio).mp hbio)
  · rw [exists_fail_snoc, hsame, h.fails]
    simp [isFail]

/-- Finishing a request, either way, ends its bio with 0. -/
theorem Carried.finish (h : Carried blockSize size mem tr c) (f : FileId) (via : Via)
    (hp : library tr (.finish f via)) (he : clients.enabled c (.finish f via)) :
    Carried blockSize size mem (tr ++ [(.finish f via, (clients.next c (.finish f via)).2)])
      (clients.next c (.finish f via)).1 := by
  have hrun := h.run.step (via.call f).call (library_held _ hp) he
  obtain ⟨cur, hcur, hended⟩ := finish_ended f via he.2
  have hmore : (clients.next c (.finish f via)).1.finished = c.finished ++ [(cur, via)] := by
    show c.finished ++ LibStep.finishes c.world (.finish f via) = _
    rw [LibStep.finishes, hcur]
    rfl
  have hended' : (clients.next c (.finish f via)).1.world.ended = c.world.ended ++ [(cur, 0)] :=
    hended
  refine ⟨by rw [callsOf_snoc]; exact hrun, ?_, ?_, ?_⟩
  · intro p hp
    rw [hended', List.mem_append]
    rw [hmore] at hp
    rcases List.mem_append.mp hp with hold | hone
    · exact Or.inl (h.zero p hold)
    · rw [List.mem_singleton.mp hone]
      exact Or.inr (List.mem_singleton.mpr rfl)
  · intro bio hbio
    rw [hended'] at hbio
    rw [hmore]
    rcases List.mem_append.mp hbio with hold | hone
    · obtain ⟨v, hv⟩ := h.finished bio hold
      exact ⟨v, List.mem_append_left _ hv⟩
    · have heq : bio = cur := congrArg Prod.fst (List.mem_singleton.mp hone)
      exact ⟨via, by rw [heq]; exact List.mem_append_right _ (List.mem_singleton.mpr rfl)⟩
  · rw [exists_fail_snoc, hmore, ← h.fails]
    cases via <;> simp [isFail]

theorem run_carried (h : Run clients library (Clients.start (World.init blockSize size mem)) tr c) :
    Carried blockSize size mem tr c := by
  refine h.invariant (Carried blockSize size mem) ?_ ?_
  · exact ⟨.refl, by simp [Clients.start], by simp [Clients.start, World.init],
      by simp [Clients.start]⟩
  · intro tr c e hc hp he
    cases e with
    | call call => exact hc.call call hp he
    | finish f via => exact hc.finish f via hp he

/-- **The status a submitter sees.**  In every run of clients of the library: a bio that was finished
is ended with the status its client asked for exactly if it was completed, not failed; and the
statuses of all bios are faithful exactly if no request was failed. -/
theorem status_carried (h : Run clients library (Clients.start (World.init blockSize size mem)) tr c) :
    (∀ bio via, (bio, via) ∈ c.finished → ((bio, via.status) ∈ c.world.ended ↔ via = .complete)) ∧
    (Faithful c ↔ ∀ e ∈ tr, isFail e = false) := by
  obtain ⟨hrun, hzero, hfinished, hfails⟩ := run_carried h
  obtain ⟨acts, hsp⟩ := run_spooled hrun
  have hnodup : c.world.endedBios.Nodup := by
    have hall := (Spool.Run.conserved hsp.run).2
    rw [Spool.all, List.nodup_append', List.nodup_append'] at hall
    exact hall.2.1.2.1
  have hone : ∀ bio via, (bio, via) ∈ c.finished →
      ((bio, via.status) ∈ c.world.ended ↔ via = .complete) := by
    intro bio via hmem
    have h0 := hzero _ hmem
    cases via with
    | complete => exact ⟨fun _ => rfl, fun _ => h0⟩
    | fail =>
      refine ⟨fun hbad => ?_, fun heq => by cases heq⟩
      have hpair := List.inj_on_of_nodup_map hnodup hbad h0 rfl
      have hstatus : (-eio : Int) = 0 := congrArg Prod.snd hpair
      exact absurd hstatus (by decide)
  refine ⟨hone, ?_, ?_⟩
  · rintro ⟨hstatus, -⟩ e he
    by_contra hfail
    obtain ⟨bio, hbio⟩ := hfails.mpr ⟨e, he, by simpa using hfail⟩
    have := (hone bio .fail hbio).mp (hstatus _ hbio)
    cases this
  · intro hnone
    have hcomplete : ∀ p ∈ c.finished, p.2 = .complete := by
      rintro ⟨bio, via⟩ hmem
      cases via with
      | complete => rfl
      | fail =>
        obtain ⟨e, he, hfail⟩ := hfails.mp ⟨bio, hmem⟩
        rw [hnone e he] at hfail
        cases hfail
    refine ⟨fun p hp => ?_, fun bio => ⟨fun hended => ?_, fun hmem => hzero _ hmem⟩⟩
    · rw [hcomplete p hp]
      exact hzero p hp
    · obtain ⟨via, hvia⟩ := hfinished bio hended
      have hv := hcomplete _ hvia
      cases hv
      exact hvia

/-- What the library promises. -/
def StatusCarried (blockSize size : Nat) (mem : Mem) : Prop :=
  ∀ tr c, Run clients library (Clients.start (World.init blockSize size mem)) tr c → Faithful c

end

section
attribute [local instance] linux32

/-- A failed write is ended with success. -/
theorem failure_reported_as_success : ¬ StatusCarried 512 1024 fun _ => 0 := by
  intro h
  have hrun := @path_exec _ _ _ clients library []
    (Clients.start (World.init 512 1024 fun _ => 0)) (sampleCalls.map .call ++ [.finish 0 .fail])
    (by decide)
  exact absurd ((h _ _ hrun).1 (sampleWrite, .fail) (by decide)) (by decide)

/-- A completed one is too. -/
theorem status_carried_sample :
    Faithful (exec clients (Clients.start (World.init 512 1024 fun _ => 0))
      (sampleCalls.map .call ++ [.finish 0 .complete])) := by
  have hrun := @path_exec _ _ _ clients library []
    (Clients.start (World.init 512 1024 fun _ => 0))
    (sampleCalls.map .call ++ [.finish 0 .complete]) (by decide)
  exact (status_carried hrun).2.mpr (by decide)

end

end BDTun
