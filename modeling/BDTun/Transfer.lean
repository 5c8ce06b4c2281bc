import Mathlib.Data.List.Nodup
import BDTun.Tunnel

/-!
# Payload transfers as reads and writes of places

The copy loops walk the segments of a bio one after another.  With a buffer that
is long enough they are one `gather` and one `scatter` over the places of all
segments, whatever the segmentation.
-/

namespace BDTun

open Memory

section
variable [Kernel]

/-- The number of bytes of a list of segments. -/
def totalLen (segs : List BioVec) : Nat := (segs.map BioVec.bvLen).sum

@[simp] theorem totalLen_nil : totalLen [] = 0 := rfl

@[simp] theorem totalLen_cons (bvec : BioVec) (rest : List BioVec) :
    totalLen (bvec :: rest) = bvec.bvLen + totalLen rest := by
  simp [totalLen]

theorem length_flatMap_places (segs : List BioVec) :
    (segs.flatMap BioVec.places).length = totalLen segs := by
  simp [totalLen, List.length_flatMap]

theorem length_places (bio : Bio) : bio.places.length = totalLen bio.segments :=
  length_flatMap_places bio.segments

/-- A segment does not visit a byte twice. -/
theorem BioVec.nodup_places (bvec : BioVec) : bvec.places.Nodup := by
  apply List.Nodup.map _ List.nodup_range
  intro i j hij
  have hoffset := congrArg Prod.snd hij
  simpa using hoffset

theorem copyOut_all (mem : Mem) (valid : Nat) (segs : List BioVec) (pos : Nat)
    (h : pos + totalLen segs ≤ valid) :
    copyOut mem valid segs pos = (gather mem (segs.flatMap BioVec.places), true) := by
  induction segs generalizing pos with
  | nil => rfl
  | cons bvec rest ih =>
    rw [totalLen_cons] at h
    have hfits : pos + bvec.bvLen ≤ valid := by omega
    have hrest := ih (pos + bvec.bvLen) (by omega)
    rw [copyOut, if_pos hfits, hrest, List.flatMap_cons, gather_append]

theorem copyIn_all (buf : List UInt8) (valid : Nat) (segs : List BioVec) (pos : Nat) (mem : Mem)
    (h : pos + totalLen segs ≤ valid) (hbuf : pos + totalLen segs ≤ buf.length) :
    copyIn buf valid segs pos mem =
      (scatter mem (segs.flatMap BioVec.places) ((buf.drop pos).take (totalLen segs)), true) := by
  induction segs generalizing pos mem with
  | nil => rfl
  | cons bvec rest ih =>
    rw [totalLen_cons] at h hbuf
    have hfits : pos + bvec.bvLen ≤ valid := by omega
    rw [copyIn, if_pos hfits, ih (pos + bvec.bvLen) _ (by omega) (by omega)]
    have hsplit : (buf.drop pos).take (totalLen (bvec :: rest)) =
        (buf.drop pos).take bvec.bvLen ++
          ((buf.drop (pos + bvec.bvLen)).take (totalLen rest)) := by
      rw [totalLen_cons, List.take_add, List.drop_drop]
    have hlen : ((buf.drop pos).take bvec.bvLen).length = bvec.places.length := by
      rw [BioVec.length_places, List.length_take, List.length_drop]
      omega
    rw [hsplit, List.flatMap_cons, scatter_append _ _ _ _ _ hlen]

/-- A payload read of a write bio whose segments hold its size copies out its places. -/
theorem readPayload_all {s : World} {a : Addr} {entry : BioListEntry} {count valid : Nat}
    (he : s.entries a = some entry) (hdir : bioDataDir entry.bio = dirWrite)
    (hcount : count = entry.bio.biSize) (htotal : totalLen entry.bio.segments = entry.bio.biSize)
    (hvalid : count ≤ valid) :
    s.readPayload a count valid = (s, .ret count (.data (gather s.mem entry.bio.places))) := by
  have hcopy := copyOut_all s.mem valid entry.bio.segments 0 (by omega)
  simp only [World.readPayload, he, hdir, hcount, and_self, if_true, hcopy]
  rfl

/-- A payload write of a read bio copies the buffer to its places. -/
theorem writePayload_all {s : World} {a : Addr} {entry : BioListEntry} {buf : List UInt8}
    {valid : Nat} (he : s.entries a = some entry) (hdir : bioDataDir entry.bio = dirRead)
    (hcount : buf.length = entry.bio.biSize)
    (htotal : totalLen entry.bio.segments = entry.bio.biSize) (hvalid : buf.length ≤ valid) :
    s.writePayload a buf valid =
      ({ s with mem := scatter s.mem entry.bio.places buf }, .ret buf.length .nothing) := by
  have hcopy := copyIn_all buf valid entry.bio.segments 0 s.mem (by omega) (by omega)
  have hwhole : (buf.drop 0).take (totalLen entry.bio.segments) = buf := by
    rw [List.drop_zero, List.take_of_length_le (by omega)]
  rw [hwhole] at hcopy
  simp only [World.writePayload, he, hdir, hcount, and_self, if_true, hcopy]
  rfl

end

end BDTun
