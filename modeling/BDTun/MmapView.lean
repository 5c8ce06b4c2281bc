import BDTun.Library
import BDTun.Transfer

/-!
# The mapping of a request and its byte stream

`bdtunch_mmap` maps one page for each segment; the copy loops move `bvLen` bytes
from `bvOffset` on.  Byte `i` of the stream is at place `i` of the bio
(`readPayload_all`, `writePayload_all`); byte `i` of the mapping is at `pageAt`.

* `Full`: each segment is a page from its start on, and the last may be short.
* `mmap_view`: the mapping shows the stream exactly when the sizes do not fit and
  the call fails, or the segments are `Full` and hold the bio's bytes.
-/

namespace BDTun

open Memory Machine

section
variable [Kernel]

/-- The place that a virtual address is mapped to. -/
def pageAt (l : List (Nat × Nat)) (v : Nat) : Option Place :=
  (l.find? fun p => p.1 ≤ v ∧ v < p.1 + pageSize).map fun p => (p.2, v - p.1)

/-- The bytes of the mapping are the bytes of the stream. -/
def SameBytes (start : Nat) (l : List (Nat × Nat)) (bio : Bio) : Prop :=
  ∀ i < bio.biSize, ∃ place, pageAt l (start + i) = some place ∧ bio.places[i]? = some place

/-- Pages from their start on, all of them whole but the last. -/
def Full : List BioVec → Prop
  | [] => True
  | [bvec] => bvec.bvOffset = 0
  | bvec :: rest => bvec.bvOffset = 0 ∧ bvec.bvLen = pageSize ∧ Full rest

/-- The length of the mapping of a request: its size, rounded up to pages. -/
def mapLength (size : Nat) : Nat := (size + pageSize - 1) / pageSize * pageSize

/-! ## What is mapped where -/

/-- The pages of a mapping that no call failed to make. -/
def mappedFrom (start : Nat) : List BioVec → Nat → List (Nat × Nat)
  | [], _ => []
  | bvec :: rest, pos => (start + pageSize * pos, bvec.bvPage) :: mappedFrom start rest (pos + 1)

theorem remapSegments_some {start : Nat} {fail : Option Nat} {segs : List BioVec} {pos : Nat}
    {l : List (Nat × Nat)} (h : remapSegments start fail segs pos = some l) :
    l = mappedFrom start segs pos := by
  induction segs generalizing pos l with
  | nil =>
    simp only [remapSegments, Option.some.injEq] at h
    exact h.symm
  | cons bvec rest ih =>
    rw [remapSegments] at h
    split at h
    · cases h
    · obtain ⟨l', hl', rfl⟩ := Option.map_eq_some_iff.mp h
      rw [mappedFrom, ih hl']

theorem remapSegments_none (start : Nat) (segs : List BioVec) (pos : Nat) :
    remapSegments start none segs pos = some (mappedFrom start segs pos) := by
  induction segs generalizing pos with
  | nil => rfl
  | cons bvec rest ih =>
    rw [remapSegments, if_neg (by simp), ih]
    rfl

/-- A call maps no page, or one for each segment of the current bio. -/
theorem bdtunchMmap_pages (s : World) (vma : Vma) (fail : Option Nat) :
    (∀ code l, (bdtunchMmap s vma fail).2 ≠ .ret code (.pages l)) ∨
    ∃ entry, s.entries s.dev.dataCurrentBio = some entry ∧
      (bdtunchMmap s vma fail).2 =
        .ret 0 (.pages (mappedFrom vma.vmStart entry.bio.segments 0)) := by
  unfold bdtunchMmap World.mapEntry
  dsimp only
  split
  · left; simp
  · split
    · left; simp
    · cases he : s.entries s.dev.dataCurrentBio with
      | none => left; simp
      | some entry =>
        simp only
        split
        · left; simp
        · cases hremap : remapSegments vma.vmStart fail entry.bio.segments 0 with
          | none => left; simp
          | some l =>
            right
            rw [remapSegments_some hremap]
            exact ⟨entry, rfl, rfl⟩

/-- Byte `i` is in page `i / pageSize`, the page of the segment of that number. -/
theorem pageAt_mappedFrom (start : Nat) (segs : List BioVec) (pos i : Nat) :
    pageAt (mappedFrom start segs pos) (start + pageSize * pos + i) =
      segs[i / pageSize]?.map fun bvec => (bvec.bvPage, i % pageSize) := by
  have hpos := pageSize_pos
  induction segs generalizing pos i with
  | nil => rfl
  | cons bvec rest ih =>
    by_cases hi : i < pageSize
    · rw [Nat.div_eq_of_lt hi, Nat.mod_eq_of_lt hi]
      have hin : start + pageSize * pos ≤ start + pageSize * pos + i ∧
          start + pageSize * pos + i < start + pageSize * pos + pageSize := by omega
      simp only [pageAt, mappedFrom, List.find?_cons, hin, and_self, decide_true, Option.map_some,
        List.getElem?_cons_zero]
      rw [Nat.add_sub_cancel_left]
    · obtain ⟨j, rfl⟩ : ∃ j, i = j + pageSize := ⟨i - pageSize, by omega⟩
      have hout : ¬ (start + pageSize * pos ≤ start + pageSize * pos + (j + pageSize) ∧
          start + pageSize * pos + (j + pageSize) < start + pageSize * pos + pageSize) := by omega
      have haddr : start + pageSize * pos + (j + pageSize) = start + pageSize * (pos + 1) + j := by
        rw [Nat.mul_succ]
        omega
      rw [Nat.add_div_right _ hpos, Nat.add_mod_right, List.getElem?_cons_succ, ← ih (pos + 1) j]
      simp only [pageAt, mappedFrom, List.find?_cons, hout, decide_false]
      rw [haddr]

/-! ## The stream of full pages -/

theorem places_getElem (bvec : BioVec) {i : Nat} (h : i < bvec.bvLen) :
    bvec.places[i]? = some (bvec.bvPage, bvec.bvOffset + i) := by
  simp [BioVec.places, h]

theorem stream_left (bvec : BioVec) (rest : List BioVec) {i : Nat} (h : i < bvec.bvLen) :
    ((bvec :: rest).flatMap BioVec.places)[i]? = some (bvec.bvPage, bvec.bvOffset + i) := by
  rw [List.flatMap_cons, List.getElem?_append_left (by rwa [BioVec.length_places]),
    places_getElem bvec h]

theorem stream_right (bvec : BioVec) (rest : List BioVec) (i : Nat) :
    ((bvec :: rest).flatMap BioVec.places)[bvec.bvLen + i]? =
      (rest.flatMap BioVec.places)[i]? := by
  rw [List.flatMap_cons, List.getElem?_append_right (by simp), BioVec.length_places,
    Nat.add_sub_cancel_left]

/-- Page by page: the stream of full pages is their bytes in order. -/
theorem full_stream {segs : List BioVec} (h : Full segs) {i : Nat} (hi : i < totalLen segs) :
    ∃ bvec, segs[i / pageSize]? = some bvec ∧
      (segs.flatMap BioVec.places)[i]? = some (bvec.bvPage, i % pageSize) := by
  have hpos := pageSize_pos
  induction segs generalizing i with
  | nil => simp at hi
  | cons bvec rest ih =>
    have hfirst : bvec.bvOffset = 0 := by
      cases rest with
      | nil => exact h
      | cons c rest => exact h.1
    have hpage := bvec.inPage
    by_cases hlen : i < bvec.bvLen
    · have hi' : i < pageSize := by omega
      refine ⟨bvec, ?_, ?_⟩
      · rw [Nat.div_eq_of_lt hi']
        rfl
      · rw [stream_left bvec rest hlen, hfirst, Nat.mod_eq_of_lt hi', Nat.zero_add]
    · rw [totalLen_cons] at hi
      cases rest with
      | nil => simp at hi; omega
      | cons c rest =>
        obtain ⟨-, hwhole, hfull⟩ := h
        obtain ⟨j, rfl⟩ : ∃ j, i = bvec.bvLen + j := ⟨i - bvec.bvLen, by omega⟩
        obtain ⟨b, hb, hstream⟩ := ih hfull (i := j) (by omega)
        refine ⟨b, ?_, ?_⟩
        · rw [hwhole, Nat.add_div_left _ hpos, List.getElem?_cons_succ]
          exact hb
        · rw [stream_right, hstream, hwhole, Nat.add_mod_left]

theorem totalLen_le (segs : List BioVec) : totalLen segs ≤ segs.length * pageSize := by
  induction segs with
  | nil => simp
  | cons bvec rest ih =>
    have hpage := bvec.inPage
    rw [totalLen_cons, List.length_cons, Nat.succ_mul]
    omega

/-- And only full pages look like that, if the bytes reach into the last page. -/
theorem full_of_stream {segs : List BioVec} {size : Nat}
    (hsize : (segs.length - 1) * pageSize < size)
    (h : ∀ i < size, ∃ bvec, segs[i / pageSize]? = some bvec ∧
      (segs.flatMap BioVec.places)[i]? = some (bvec.bvPage, i % pageSize)) :
    Full segs ∧ size ≤ totalLen segs := by
  have hpos := pageSize_pos
  have htotal : size ≤ totalLen segs := by
    obtain ⟨bvec, -, hlast⟩ := h (size - 1) (by omega)
    obtain ⟨hlt, -⟩ := List.getElem?_eq_some_iff.mp hlast
    rw [length_flatMap_places] at hlt
    omega
  refine ⟨?_, htotal⟩
  induction segs generalizing size with
  | nil => trivial
  | cons bvec rest ih =>
    have hpage := bvec.inPage
    have hrest := totalLen_le rest
    rw [totalLen_cons] at htotal
    rw [List.length_cons, Nat.add_sub_cancel] at hsize
    have hlen : 0 < bvec.bvLen := by omega
    obtain ⟨b, hb, hzero⟩ := h 0 (by omega)
    rw [Nat.zero_div, List.getElem?_cons_zero] at hb
    obtain rfl := Option.some.inj hb
    rw [stream_left bvec rest hlen, Option.some.injEq, Prod.mk.injEq] at hzero
    have hfirst : bvec.bvOffset = 0 := by
      have := hzero.2
      rw [Nat.zero_mod] at this
      omega
    cases rest with
    | nil => exact hfirst
    | cons c rest =>
      have hcpage := c.inPage
      have htail := totalLen_le rest
      rw [totalLen_cons] at htotal hrest
      rw [List.length_cons, Nat.succ_mul] at hsize hrest
      have hclen : 0 < c.bvLen := by omega
      -- a short first page would go on in the same page, and there are not bytes enough for that
      have hwhole : bvec.bvLen = pageSize := by
        by_contra hshort
        have hlt : bvec.bvLen < pageSize := by omega
        obtain ⟨b, hb, hnext⟩ := h bvec.bvLen (by omega)
        have hstream := stream_right bvec (c :: rest) 0
        rw [Nat.add_zero, stream_left c rest hclen, hnext, Option.some.injEq, Prod.mk.injEq,
          Nat.mod_eq_of_lt hlt] at hstream
        omega
      have hrec := @ih (size - pageSize)
      refine ⟨hfirst, hwhole, hrec ?_ ?_ ?_⟩
      · rw [List.length_cons, Nat.add_sub_cancel]
        omega
      · intro i hi
        obtain ⟨b, hb, hstream⟩ := h (pageSize + i) (by omega)
        rw [Nat.add_div_left _ hpos, List.getElem?_cons_succ] at hb
        have hright := stream_right bvec (c :: rest) i
        rw [hwhole, hstream, Nat.add_mod_left] at hright
        exact ⟨b, hb, hright.symm⟩
      · rw [totalLen_cons]
        omega

/-! ## The mapping of a request -/

theorem mmap_request_next {s : World} {entry : BioListEntry}
    (he : s.entries s.dev.dataCurrentBio = some entry) (f : FileId) (start : Nat)
    (fail : Option Nat) :
    tunnelNext s (bdtunMmapRequest f (header s.dev.dataCurrentBio entry) start fail) =
      if mapLength entry.bio.biSize ≠ entry.bio.biVcnt * pageSize then (s, .ret (-eio) .nothing)
      else
        match remapSegments start fail entry.bio.segments 0 with
        | none => (s, .ret (-eio) .nothing)
        | some l => (s, .ret 0 (.pages l)) := by
  have haligned : 0 <<< pageShift % 2 ^ bitsPerLong % pageSize = 0 := by
    rw [Nat.zero_shiftLeft, Nat.zero_mod, Nat.zero_mod]
  simp only [bdtunMmapRequest, tunnelNext, bdtunchMmap, haligned, World.mapEntry, he, header]
  rw [if_neg (by simp), if_neg (by simp), Nat.add_sub_cancel_left]
  rfl

/-- The mapping shows the stream, byte for byte. -/
theorem sameBytes_iff (start : Nat) (bio : Bio) :
    SameBytes start (mappedFrom start bio.segments 0) bio ↔
      ∀ i < bio.biSize, ∃ bvec, bio.segments[i / pageSize]? = some bvec ∧
        bio.places[i]? = some (bvec.bvPage, i % pageSize) := by
  have hpage : ∀ i, pageAt (mappedFrom start bio.segments 0) (start + i) =
      bio.segments[i / pageSize]?.map fun bvec => (bvec.bvPage, i % pageSize) :=
    fun i => pageAt_mappedFrom start bio.segments 0 i
  constructor
  · intro h i hi
    obtain ⟨place, hmap, hplace⟩ := h i hi
    rw [hpage] at hmap
    obtain ⟨bvec, hb, rfl⟩ := Option.map_eq_some_iff.mp hmap
    exact ⟨bvec, hb, hplace⟩
  · intro h i hi
    obtain ⟨bvec, hb, hplace⟩ := h i hi
    exact ⟨_, by rw [hpage, hb]; rfl, hplace⟩

/-- A mapping of the right length reaches into the last page. -/
theorem size_reaches_last {bio : Bio} (h : mapLength bio.biSize = bio.biVcnt * pageSize)
    (hsize : 0 < bio.biSize) : (bio.segments.length - 1) * pageSize < bio.biSize := by
  have hpos := pageSize_pos
  have hdown : bio.biVcnt * pageSize ≤ bio.biSize + pageSize - 1 := by
    rw [← h]
    exact Nat.div_mul_le_self _ _
  have hlen : bio.segments.length ≤ bio.biVcnt := by
    rw [Bio.segments, List.length_drop, Bio.biVcnt]
    omega
  have hle : (bio.segments.length - 1) * pageSize ≤ (bio.biVcnt - 1) * pageSize :=
    Nat.mul_le_mul_right _ (by omega)
  have hsub : (bio.biVcnt - 1) * pageSize = bio.biVcnt * pageSize - pageSize := by
    rw [Nat.sub_mul, Nat.one_mul]
  omega

/-- What a client of the mapping relies on, for the data-current request of a state. -/
def ViewsAgree (s : World) (entry : BioListEntry) : Prop :=
  ∀ f start fail t l,
    tunnelNext s (bdtunMmapRequest f (header s.dev.dataCurrentBio entry) start fail) =
      (t, .ret 0 (.pages l)) → SameBytes start l entry.bio

/-- And in every run. -/
def MappingsAgree (blockSize size : Nat) (mem : Mem) : Prop :=
  ∀ tr s, Run tunnel vfs (World.init blockSize size mem) tr s →
    ∀ entry, s.entries s.dev.dataCurrentBio = some entry → ViewsAgree s entry

/-- **The two views of a request.**  Whatever the data-current bio, every mapping of it that succeeds
shows the bytes that payload reads and writes move, if and only if its length is not that of the
bio's pages, so that none succeeds, or the segments are full pages and hold the bio's bytes. -/
theorem mmap_view {s : World} {entry : BioListEntry}
    (he : s.entries s.dev.dataCurrentBio = some entry) :
    ViewsAgree s entry ↔
      mapLength entry.bio.biSize ≠ entry.bio.biVcnt * pageSize ∨
        Full entry.bio.segments ∧ entry.bio.biSize ≤ totalLen entry.bio.segments := by
  constructor
  · intro h
    by_cases hlen : mapLength entry.bio.biSize = entry.bio.biVcnt * pageSize
    · right
      have hcall := mmap_request_next he 0 0 none
      rw [if_neg (by simpa using hlen), remapSegments_none] at hcall
      have hsame := (sameBytes_iff 0 entry.bio).mp (h 0 0 none _ _ hcall)
      by_cases hsize : entry.bio.biSize = 0
      · have hnone : entry.bio.segments = [] := by
          rw [hsize, mapLength, Nat.zero_add, Nat.div_eq_of_lt (by have := pageSize_pos; omega),
            Nat.zero_mul] at hlen
          have hvcnt : entry.bio.biVcnt = 0 := by
            rcases Nat.mul_eq_zero.mp hlen.symm with h0 | h0
            · exact h0
            · exact absurd h0 (Nat.pos_iff_ne_zero.mp pageSize_pos)
          rw [Bio.segments, List.eq_nil_of_length_eq_zero hvcnt, List.drop_nil]
        rw [hnone, hsize]
        exact ⟨trivial, Nat.zero_le _⟩
      · exact full_of_stream (size_reaches_last hlen (by omega)) hsame
    · exact Or.inl hlen
  · intro h f start fail t l hcall
    rw [mmap_request_next he] at hcall
    split at hcall
    · simp at hcall
    · next hlen =>
      obtain ⟨hfull, htotal⟩ := h.resolve_left hlen
      cases hremap : remapSegments start fail entry.bio.segments 0 with
      | none => simp [hremap] at hcall
      | some l' =>
        simp only [hremap, Prod.mk.injEq, Ret.ret.injEq, Out.pages.injEq] at hcall
        obtain ⟨-, -, rfl⟩ := hcall
        rw [remapSegments_some hremap, sameBytes_iff]
        intro i hi
        exact full_stream hfull (by omega)

end

section
attribute [local instance] linux32

/-- A write of the second block of page 7. -/
def sampleInside : Bio := ⟨0, 1, 1, 512, 0, [⟨7, 512, 512, by decide⟩]⟩

/-- The bio is submitted, read and set. -/
def currentCalls (bio : Bio) : List Call :=
  [.submit bio (some 16), .chOpen 0, .read 0 32 32 false, .write 0 (wordBytes 8 16) 8]

/-- The mapping of a block inside a page shows the page from its start. -/
theorem mmap_shows_page_start : ¬ MappingsAgree 512 1024 fun _ => 0 := by
  intro h
  have hrun := @path_exec _ _ _ tunnel vfs [] (World.init 512 1024 fun _ => 0)
    (currentCalls sampleInside) (by decide)
  have hview := h _ _ hrun ⟨sampleInside, 0⟩ rfl
  have hcall := @mmap_request_next _
    (exec tunnel (World.init 512 1024 fun _ => 0) (currentCalls sampleInside)) ⟨sampleInside, 0⟩
    rfl 0 0 none
  rw [if_neg (by decide), remapSegments_none] at hcall
  have hsame := (sameBytes_iff 0 sampleInside).mp (hview 0 0 none _ _ hcall)
  obtain ⟨bvec, -, hplace⟩ := hsame 0 (by decide)
  have hfirst : sampleInside.places[0]? = some (7, 512 + 0) := stream_left _ [] (by decide)
  rw [hplace, Option.some.injEq, Prod.mk.injEq, Nat.zero_mod] at hfirst
  omega

/-- The mapping of a block at the start of a page. -/
theorem mmap_view_sample :
    ViewsAgree (exec tunnel (World.init 512 1024 fun _ => 0) (currentCalls sampleWrite))
      ⟨sampleWrite, 0⟩ := by
  have he : (exec tunnel (World.init 512 1024 fun _ => 0) (currentCalls sampleWrite)).entries
      (exec tunnel (World.init 512 1024 fun _ => 0)
        (currentCalls sampleWrite)).dev.dataCurrentBio = some ⟨sampleWrite, 0⟩ := rfl
  exact (mmap_view he).mpr (Or.inr ⟨rfl, by decide⟩)

end

end BDTun
