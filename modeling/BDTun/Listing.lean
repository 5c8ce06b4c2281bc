import BDTun.Lib.Terminated
import BDTun.Registry

/-!
# The device list, encoded and decoded

`bdtun_list_k` writes names one after the other, each with its terminating zero
(`encodedNames`, `list_response`); `bdtun_list` in the library scans the response
for zeros and puts the beginnings of the names into a table of 32.  The two do
not agree on how many names there can be (the kernel stops after 33), and the
scan begins behind the first byte.

* `scan_eq`: what the scan makes of a response.
* `list_round_trip`: the library gives back the names the kernel wrote, exactly
  when they are not 33 (`Overfull`) and do not begin with an empty one (`Headless`).
-/

namespace BDTun

open Memory Machine Terminated

section
variable [Kernel]

/-! ## The library -/

/-- What `bdtun_list` leaves: its value, its buffer, and `name_pbuf`, in which a pointer is a position
of the buffer. -/
structure Listing where
  ret : Int
  buf : List UInt8
  namePbuf : List (Option Nat)

/-- One pass of the scan, with `j` and the table; `none` for a store outside the table. -/
def scanStep (buf : List UInt8) (ret : Nat) (st : Nat × List (Option Nat)) (i : Nat) :
    Option (Nat × List (Option Nat)) :=
  let (j, namePbuf) := st
  if buf[i]? = some 0 ∧ i + 1 < ret then
    if j < bdtunDevnames then some (j + 1, namePbuf.set j (some (i + 1))) else none
  else some (j, namePbuf)

/-- `bdtun_list` from its loop over `name_pbuf` on. -/
def findNames (buf : List UInt8) (ret : Nat) : Option (Nat × List (Option Nat)) :=
  let namePbuf := List.replicate bdtunDevnames none
  if ret = 0 then some (0, namePbuf)
  else (List.range' 1 (ret - 1)).foldlM (scanStep buf ret) (1, namePbuf.set 0 (some 0))

/-- `bdtun_list`, with what the call before has left in its static variables; `none` for a store
outside `name_pbuf`. -/
def bdtunList (s : Ctrl) (old : Listing) (offset maxdevices : Nat) (k : Answers) :
    Option (Ctrl × Listing) :=
  match ctrlWrite s bdtunCommSize (.list offset maxdevices) k with
  | (s, .wrote _ _) =>
    match ctrlRead s bdtunResponseSize bdtunResponseSize with
    | (s, .data code bytes) =>
      let buf := bytes ++ old.buf.drop bytes.length
      if code < 0 then some (s, { old with ret := -1, buf := buf })
      else (findNames buf code.toNat).map fun (j, namePbuf) => (s, ⟨j, buf, namePbuf⟩)
    | (s, _) => some (s, { old with ret := -1 })
  | (s, _) => some (s, { old with ret := -1 })

/-! ## The names in a response -/

/-- The names that `listLoop` writes. -/
def encodedNames (bufsize maxdevicesInternal maxdevices : Nat) :
    List Device → (offset i bufpos : Nat) → List DiskName
  | [], _, _, _ => []
  | _ :: rest, offset + 1, i, bufpos =>
    encodedNames bufsize maxdevicesInternal maxdevices rest offset i bufpos
  | entry :: rest, 0, i, bufpos =>
    if i > maxdevices ∨ i > maxdevicesInternal then []
    else
      let len := entry.diskName.bytes.length + 1
      if bufpos + len > bufsize then []
      else
        entry.diskName ::
          encodedNames bufsize maxdevicesInternal maxdevices rest 0 (i + 1) (bufpos + len)

/-- Names with their terminators. -/
def encoding (names : List DiskName) : List UInt8 := joined 0 (names.map DiskName.bytes)

omit [Kernel] in
theorem encoding_cons (n : DiskName) (names : List DiskName) :
    encoding (n :: names) = n.bytes ++ 0 :: encoding names :=
  joined_cons _ _ _

omit [Kernel] in
/-- **The loop of `bdtun_list_k`** appends the encoding of its names. -/
theorem listLoop_eq (bufsize maxdevicesInternal maxdevices : Nat) (l : List Device)
    (offset i bufpos : Nat) (buf : Nat → UInt8) :
    let names := encodedNames bufsize maxdevicesInternal maxdevices l offset i bufpos
    let res := listLoop bufsize maxdevicesInternal maxdevices l offset i bufpos buf
    res.2 = bufpos + (encoding names).length ∧
      gather res.1 (List.range res.2) = gather buf (List.range bufpos) ++ encoding names := by
  induction l generalizing offset i bufpos buf with
  | nil => simp [encodedNames, listLoop, encoding, joined]
  | cons entry rest ih =>
    cases offset with
    | succ offset => exact ih offset i bufpos buf
    | zero =>
      simp only [encodedNames, listLoop]
      split
      · simp [encoding, joined]
      · split
        · simp [encoding, joined]
        · obtain ⟨hpos, hbuf⟩ := ih 0 (i + 1) (bufpos + (entry.diskName.bytes.length + 1))
            (memcpy buf bufpos (entry.diskName.bytes ++ [0]))
          have hcopy := gather_memcpy buf bufpos (entry.diskName.bytes ++ [0])
          rw [List.length_append, List.length_singleton] at hcopy
          rw [encoding_cons]
          refine ⟨?_, ?_⟩
          · rw [hpos, List.length_append, List.length_cons]
            omega
          · rw [hbuf, hcopy]
            simp

omit [Kernel] in
/-- The loop keeps within the buffer. -/
theorem length_encoding_le (bufsize maxdevicesInternal maxdevices : Nat) (l : List Device)
    (offset i bufpos : Nat) (h : bufpos ≤ bufsize) :
    bufpos + (encoding (encodedNames bufsize maxdevicesInternal maxdevices l offset i bufpos)).length
      ≤ bufsize := by
  induction l generalizing offset i bufpos with
  | nil => simpa [encodedNames, encoding, joined] using h
  | cons entry rest ih =>
    cases offset with
    | succ offset => exact ih offset i bufpos h
    | zero =>
      simp only [encodedNames]
      split
      · simpa [encoding, joined] using h
      · split
        · simpa [encoding, joined] using h
        · have hrest := ih 0 (i + 1) (bufpos + (entry.diskName.bytes.length + 1)) (by omega)
          rw [encoding_cons, List.length_append, List.length_cons]
          omega

/-- The names that LIST encodes. -/
def Ctrl.listedNames (s : Ctrl) (offset maxdevices : Nat) : List DiskName :=
  encodedNames bdtunResponseSize bdtunDevnames maxdevices s.deviceList offset 0 0

/-- The response to LIST, which leaves the devices alone. -/
theorem list_response (s : Ctrl) (offset maxdevices : Nat) (k : Answers) :
    let res := ctrlWrite s bdtunCommSize (.list offset maxdevices) k
    res.2 = .wrote bdtunCommSize (encoding (s.listedNames offset maxdevices)) ∧
      res.1.response = encoding (s.listedNames offset maxdevices) ∧
      res.1.ctrlResponseSize = (encoding (s.listedNames offset maxdevices)).length ∧
      res.1.deviceList = s.deviceList := by
  obtain ⟨hpos, hbuf⟩ := listLoop_eq bdtunResponseSize bdtunDevnames maxdevices s.deviceList offset
    0 0 s.ctrlResponseBuf
  rw [Nat.zero_add] at hpos
  have hnone : gather s.ctrlResponseBuf (List.range 0) = [] := rfl
  rw [hnone, List.nil_append] at hbuf
  rw [ctrlWrite_long s _ k (Nat.le_refl _)]
  simp only [bdtunListK, Ctrl.response, Int.toNat_natCast]
  exact ⟨congrArg _ hbuf, hbuf, congrArg _ hpos, trivial⟩

/-! ## How many names -/

omit [Kernel] in
theorem encodedNames_prefix (bufsize maxdevicesInternal maxdevices : Nat) (l : List Device)
    (offset i bufpos : Nat) :
    encodedNames bufsize maxdevicesInternal maxdevices l offset i bufpos <+:
      (l.drop offset).map Device.diskName := by
  induction l generalizing offset i bufpos with
  | nil => simp [encodedNames]
  | cons entry rest ih =>
    cases offset with
    | succ offset => exact ih offset i bufpos
    | zero =>
      simp only [encodedNames, List.drop_zero, List.map_cons]
      split
      · exact List.nil_prefix
      · split
        · exact List.nil_prefix
        · exact List.cons_prefix_cons.mpr ⟨rfl, by simpa using ih 0 (i + 1) _⟩

/-- The bytes that the names of devices take. -/
def nameBytes (l : List Device) : Nat := (l.map fun d => d.diskName.bytes.length + 1).sum

omit [Kernel] in
/-- What must hold for more than `n` names to be encoded. -/
theorem lt_length_encodedNames (bufsize maxdevicesInternal maxdevices : Nat) (l : List Device)
    (offset i bufpos n : Nat) :
    n < (encodedNames bufsize maxdevicesInternal maxdevices l offset i bufpos).length ↔
      n < (l.drop offset).length ∧ i + n ≤ maxdevices ∧ i + n ≤ maxdevicesInternal ∧
        bufpos + nameBytes ((l.drop offset).take (n + 1)) ≤ bufsize := by
  induction l generalizing offset i bufpos n with
  | nil => simp [encodedNames]
  | cons entry rest ih =>
    cases offset with
    | succ offset => exact ih offset i bufpos n
    | zero =>
      have hbytes : nameBytes ((entry :: rest).take (n + 1)) =
          entry.diskName.bytes.length + 1 + nameBytes (rest.take n) := by
        simp [nameBytes]
      simp only [encodedNames, List.drop_zero, List.length_cons]
      rw [hbytes]
      split
      · rw [List.length_nil]
        omega
      · split
        · rw [List.length_nil]
          omega
        · rw [List.length_cons]
          cases n with
          | zero =>
            have hnone : nameBytes (rest.take 0) = 0 := rfl
            omega
          | succ n =>
            have hrest := ih 0 (i + 1) (bufpos + (entry.diskName.bytes.length + 1)) n
            rw [List.drop_zero] at hrest
            omega

/-- The names of 33 devices fit the response, and are asked for. -/
def Overfull (l : List Device) (offset maxdevices : Nat) : Prop :=
  bdtunDevnames < (l.drop offset).length ∧ bdtunDevnames ≤ maxdevices ∧
    nameBytes ((l.drop offset).take (bdtunDevnames + 1)) ≤ bdtunResponseSize

/-- Several devices are asked for, of which the first has an empty name. -/
def Headless (l : List Device) (offset maxdevices : Nat) : Prop :=
  0 < maxdevices ∧ ∃ first second rest, l.drop offset = first :: second :: rest ∧
    first.diskName.bytes = []

omit [Kernel] in
theorem overfull_iff (s : Ctrl) (offset maxdevices : Nat) :
    Overfull s.deviceList offset maxdevices ↔
      bdtunDevnames < (s.listedNames offset maxdevices).length := by
  rw [Ctrl.listedNames, lt_length_encodedNames, Overfull]
  omega

omit [Kernel] in
theorem headless_iff (s : Ctrl) (offset maxdevices : Nat) :
    Headless s.deviceList offset maxdevices ↔
      ∃ n m rest, s.listedNames offset maxdevices = n :: m :: rest ∧ n.bytes = [] := by
  have hprefix : s.listedNames offset maxdevices <+:
      (s.deviceList.drop offset).map Device.diskName := encodedNames_prefix ..
  have hlength : 1 < (s.listedNames offset maxdevices).length ↔ _ := lt_length_encodedNames ..
  constructor
  · rintro ⟨hmax, first, second, rest, hdrop, hempty⟩
    have hfits := second.diskName.fits
    have hbytes : nameBytes ((s.deviceList.drop offset).take 2) =
        second.diskName.bytes.length + 2 := by
      simp [nameBytes, hdrop, hempty]
      omega
    have htwo : 1 < (s.listedNames offset maxdevices).length := by
      refine hlength.mpr ⟨by simp [hdrop], by omega, by decide, ?_⟩
      rw [hbytes, bdtunResponseSize]
      omega
    rw [hdrop] at hprefix
    generalize s.listedNames offset maxdevices = names at hprefix htwo
    cases names with
    | nil => simp at htwo
    | cons n names =>
      cases names with
      | nil => simp at htwo
      | cons m names =>
        obtain ⟨rfl, -⟩ := List.cons_prefix_cons.mp hprefix
        exact ⟨_, m, names, rfl, hempty⟩
  · rintro ⟨n, m, rest, hnames, hempty⟩
    rw [hnames] at hprefix hlength
    obtain ⟨hdrop, hmax, -⟩ := hlength.mp (by simp)
    generalize hl : s.deviceList.drop offset = l at hprefix hdrop
    refine ⟨by omega, ?_⟩
    cases l with
    | nil => simp at hdrop
    | cons first l =>
      cases l with
      | nil => simp at hdrop
      | cons second l =>
        obtain ⟨rfl, -⟩ := List.cons_prefix_cons.mp hprefix
        exact ⟨first, second, l, hl, hempty⟩

/-! ## The scan -/

/-- `name_pbuf` when the first slots have been filled. -/
def filled (ps : List Nat) : List (Option Nat) :=
  ps.map some ++ List.replicate (bdtunDevnames - ps.length) none

omit [Kernel] in
theorem filled_set {ps : List Nat} (h : ps.length < bdtunDevnames) (p : Nat) :
    (filled ps).set ps.length (some p) = filled (ps ++ [p]) := by
  obtain ⟨n, hn⟩ : ∃ n, bdtunDevnames - ps.length = n + 1 := ⟨bdtunDevnames - ps.length - 1, by omega⟩
  have hn' : bdtunDevnames - (ps ++ [p]).length = n := by
    rw [List.length_append, List.length_singleton]
    omega
  rw [filled, filled, hn, hn', List.set_append_right _ _ (by simp), List.replicate_succ]
  simp

omit [Kernel] in
/-- What the passes over `is` make of a table: the beginnings behind the inner zeros are added, if
there is room. -/
theorem scan_eq (buf : List UInt8) (ret : Nat) (is ps : List Nat) (hps : ps.length ≤ bdtunDevnames) :
    is.foldlM (scanStep buf ret) (ps.length, filled ps) =
      let all := ps ++ (separators 0 buf ret is).map (· + 1)
      if all.length ≤ bdtunDevnames then some (all.length, filled all) else none := by
  induction is generalizing ps with
  | nil => simp [separators, hps]
  | cons i is ih =>
    rw [List.foldlM_cons]
    by_cases hzero : buf[i]? = some 0 ∧ i + 1 < ret
    · have hinner : separators 0 buf ret (i :: is) = i :: separators 0 buf ret is :=
        List.filter_cons_of_pos (by simpa using hzero)
      rw [hinner, List.map_cons]
      by_cases hroom : ps.length < bdtunDevnames
      · have hstep : scanStep buf ret (ps.length, filled ps) i =
            some ((ps ++ [i + 1]).length, filled (ps ++ [i + 1])) := by
          simp [scanStep, hzero, hroom, filled_set]
        have hrest := ih (ps ++ [i + 1]) (by simp; omega)
        rw [hstep]
        show List.foldlM _ _ is = _
        rw [hrest]
        simp only [List.append_assoc, List.singleton_append]
      · have hstep : scanStep buf ret (ps.length, filled ps) i = none := by
          simp [scanStep, hzero, hroom]
        have hfull : ¬ (ps ++ (i + 1) :: (separators 0 buf ret is).map (· + 1)).length ≤
            bdtunDevnames := by
          rw [List.length_append, List.length_cons]
          omega
        rw [hstep, if_neg hfull]
        rfl
    · have hinner : separators 0 buf ret (i :: is) = separators 0 buf ret is :=
        List.filter_cons_of_neg (by simpa using hzero)
      have hstep : scanStep buf ret (ps.length, filled ps) i = some (ps.length, filled ps) := by
        simp only [scanStep, if_neg hzero]
      rw [hinner, hstep]
      exact ih ps hps

/-- The beginnings that the library finds in a response: the first byte, and what comes after the
inner zeros but one at the first byte. -/
def foundNames (names : List DiskName) (rest : List UInt8) : List Nat :=
  0 :: (separators 0 (encoding names ++ rest) (encoding names).length
    (List.range' 1 ((encoding names).length - 1))).map (· + 1)

omit [Kernel] in
theorem findNames_eq (n : DiskName) (names : List DiskName) (rest : List UInt8) :
    findNames (encoding (n :: names) ++ rest) (encoding (n :: names)).length =
      let found := foundNames (n :: names) rest
      if found.length ≤ bdtunDevnames then some (found.length, filled found) else none := by
  have hne : (encoding (n :: names)).length ≠ 0 := by
    rw [encoding_cons]
    simp
  have hfirst : (1, (List.replicate bdtunDevnames (none : Option Nat)).set 0 (some 0)) =
      (([0] : List Nat).length, filled [0]) := rfl
  rw [findNames, if_neg hne, hfirst, scan_eq _ _ _ _ (by decide)]
  rfl

/-- Where the names of a response begin. -/
def nameStarts (names : List DiskName) : List Nat := starts 0 (names.map DiskName.bytes)

omit [Kernel] in
/-- All inner zeros, with those of the first byte. -/
theorem nameStarts_cons (n : DiskName) (names : List DiskName) (rest : List UInt8) :
    (separators 0 (encoding (n :: names) ++ rest) (encoding (n :: names)).length
        (0 :: List.range' 1 ((encoding (n :: names)).length - 1))).map (· + 1) =
      (nameStarts (n :: names)).tail := by
  have hz : ∀ s ∈ (n :: names).map DiskName.bytes, (0 : UInt8) ∉ s := by
    intro s hs
    obtain ⟨m, -, rfl⟩ := List.mem_map.mp hs
    exact m.noNul
  have htail := starts_tail 0 hz [] rest
  have hrange : List.range' 0 (encoding (n :: names)).length =
      0 :: List.range' 1 ((encoding (n :: names)).length - 1) := by
    rw [encoding_cons, List.length_append, List.length_cons, ← Nat.add_assoc, List.range'_succ]
    rfl
  rw [List.nil_append, List.length_nil, Nat.zero_add] at htail
  rw [← hrange]
  exact htail

omit [Kernel] in
/-- The library finds every beginning, but for the one behind an empty first name. -/
theorem foundNames_cons (n : DiskName) (names : List DiskName) (rest : List UInt8) :
    if n.bytes = [] ∧ names ≠ [] then (foundNames (n :: names) rest).length = names.length
    else foundNames (n :: names) rest = nameStarts (n :: names) := by
  have hall := nameStarts_cons n names rest
  have hlength : (nameStarts (n :: names)).tail.length = names.length := by
    simp [nameStarts, starts]
  split
  · next hempty =>
    obtain ⟨m, more, rfl⟩ := List.exists_cons_of_ne_nil hempty.2
    have hzero : (encoding (n :: m :: more) ++ rest)[0]? = some 0 ∧
        0 + 1 < (encoding (n :: m :: more)).length := by
      rw [encoding_cons n, encoding_cons m, hempty.1]
      refine ⟨rfl, ?_⟩
      simp only [List.nil_append, List.length_cons, List.length_append]
      omega
    rw [separators, List.filter_cons_of_pos (by simpa using hzero), List.map_cons] at hall
    rw [← hlength, ← hall, foundNames, List.length_cons, List.length_cons]
    rfl
  · next hhead =>
    have hzero : ¬ ((encoding (n :: names) ++ rest)[0]? = some 0 ∧
        0 + 1 < (encoding (n :: names)).length) := by
      rw [encoding_cons]
      cases hb : n.bytes with
      | nil =>
        have hnone : names = [] := by
          by_contra hne
          exact hhead ⟨hb, hne⟩
        simp [hnone, encoding, joined]
      | cons b bs =>
        have hnul := n.noNul
        rw [hb, List.mem_cons, not_or] at hnul
        simp [Ne.symm hnul.1]
    rw [separators, List.filter_cons_of_neg (by simpa using hzero)] at hall
    rw [foundNames, separators, hall]
    rfl

/-! ## Round trip -/

/-- The library has given back these names, in order, and nothing else. -/
def Decodes (names : List DiskName) (l : Listing) : Prop :=
  l.ret = names.length ∧
    l.namePbuf.map (Option.map (stringAt 0 l.buf)) =
      names.map (fun n => some n.bytes) ++ List.replicate (bdtunDevnames - names.length) none

omit [Kernel] in
/-- A table of all the beginnings. -/
theorem decodes_filled (names : List DiskName) (rest : List UInt8) :
    Decodes names ⟨names.length, encoding names ++ rest, filled (nameStarts names)⟩ := by
  have hz : ∀ s ∈ names.map DiskName.bytes, (0 : UInt8) ∉ s := by
    intro s hs
    obtain ⟨m, -, rfl⟩ := List.mem_map.mp hs
    exact m.noNul
  have hread := stringAt_starts 0 hz [] rest
  have hlength : (nameStarts names).length = names.length := by
    rw [nameStarts, length_starts, List.length_map]
  refine ⟨rfl, ?_⟩
  rw [filled, hlength, List.map_append, List.map_map, List.map_replicate, Option.map_none]
  congr 1
  calc (nameStarts names).map (Option.map (stringAt 0 (encoding names ++ rest)) ∘ some)
      = ((nameStarts names).map (stringAt 0 (encoding names ++ rest))).map some := by
        rw [List.map_map]
        rfl
    _ = (names.map DiskName.bytes).map some := congrArg (List.map some) hread
    _ = names.map fun n => some n.bytes := by
        rw [List.map_map]
        rfl

omit [Kernel] in
/-- What the library makes of a response that does not begin with an empty name. -/
theorem findNames_headed {names : List DiskName} (rest : List UInt8)
    (h : ¬ ∃ n m more, names = n :: m :: more ∧ n.bytes = []) :
    findNames (encoding names ++ rest) (encoding names).length =
      if names.length ≤ bdtunDevnames then some (names.length, filled (nameStarts names))
      else none := by
  cases names with
  | nil => rfl
  | cons n names =>
    have hfound := foundNames_cons n names rest
    have hhead : ¬ (n.bytes = [] ∧ names ≠ []) := by
      rintro ⟨hempty, hmore⟩
      obtain ⟨m, more, rfl⟩ := List.exists_cons_of_ne_nil hmore
      exact h ⟨n, m, more, rfl, hempty⟩
    have hlength : (nameStarts (n :: names)).length = (n :: names).length := by
      rw [nameStarts, length_starts, List.length_map]
    rw [if_neg hhead] at hfound
    rw [findNames_eq]
    simp only [hfound, hlength]

omit [Kernel] in
/-- What the library makes of a response. -/
theorem findNames_decodes (names : List DiskName) (rest : List UInt8) :
    (∃ j namePbuf, findNames (encoding names ++ rest) (encoding names).length = some (j, namePbuf) ∧
        Decodes names ⟨j, encoding names ++ rest, namePbuf⟩) ↔
      ¬ bdtunDevnames < names.length ∧
        ¬ ∃ n m rest, names = n :: m :: rest ∧ n.bytes = [] := by
  by_cases hhead : ∃ n m more, names = n :: m :: more ∧ n.bytes = []
  · refine iff_of_false ?_ fun h => h.2 hhead
    -- one name too few
    rintro ⟨j, namePbuf, hsome, hret, -⟩
    obtain ⟨n, m, more, rfl, hempty⟩ := hhead
    have hfound := foundNames_cons n (m :: more) rest
    rw [if_pos ⟨hempty, by simp⟩] at hfound
    rw [findNames_eq] at hsome
    simp only at hsome
    split at hsome
    · obtain ⟨rfl, -⟩ := Prod.mk.inj (Option.some.inj hsome)
      have hret : (((foundNames (n :: m :: more) rest).length : Nat) : Int) =
        (n :: m :: more).length := hret
      simp only [hfound, List.length_cons] at hret
      omega
    · cases hsome
  · rw [findNames_headed rest hhead]
    by_cases hroom : names.length ≤ bdtunDevnames
    · rw [if_pos hroom]
      exact iff_of_true ⟨_, _, rfl, decodes_filled names rest⟩ ⟨by omega, hhead⟩
    · rw [if_neg hroom]
      refine iff_of_false ?_ fun h => hroom (by omega)
      rintro ⟨j, namePbuf, hsome, -⟩
      cases hsome

/-- A LIST command and the read of its response, by the library; the devices stay. -/
theorem bdtunList_eq (s : Ctrl) (old : Listing) (offset maxdevices : Nat) (k : Answers) :
    let names := s.listedNames offset maxdevices
    let rest := old.buf.drop (encoding names).length
    ∃ s', s'.deviceList = s.deviceList ∧ bdtunList s old offset maxdevices k =
      (findNames (encoding names ++ rest) (encoding names).length).map fun (j, namePbuf) =>
        (s', ⟨j, encoding names ++ rest, namePbuf⟩) := by
  intro names rest
  obtain ⟨hwrote, hresponse, hsize, hlist⟩ := list_response s offset maxdevices k
  have hle : (encoding names).length ≤ bdtunResponseSize := by
    have := length_encoding_le bdtunResponseSize bdtunDevnames maxdevices s.deviceList offset 0 0
      (Nat.zero_le _)
    rwa [Nat.zero_add] at this
  rw [bdtunList]
  generalize hres : ctrlWrite s bdtunCommSize (.list offset maxdevices) k = res
  rw [hres] at hwrote hresponse hsize hlist
  obtain ⟨t, r⟩ := res
  simp only at hwrote hresponse hsize hlist
  subst hwrote
  have hread : ctrlRead t bdtunResponseSize bdtunResponseSize =
      ({ t with ctrlResponseSize := 0 }, .data (encoding names).length (encoding names)) := by
    have hpos : ¬ t.ctrlResponseSize < 0 := by
      rw [hsize]
      omega
    have hfits : t.ctrlResponseSize ≤ bdtunResponseSize := by
      rw [hsize]
      exact Int.ofNat_le.mpr hle
    simp only [ctrlRead, if_neg hpos, if_pos hfits, hresponse]
    rw [hsize]
  have hnonneg : ¬ ((encoding names).length : Int) < 0 := by omega
  simp only [hread, if_neg hnonneg, Int.toNat_natCast]
  exact ⟨{ t with ctrlResponseSize := 0 }, hlist, rfl⟩

/-- **Listing.**  Whatever devices there are and whatever is asked for, the response is the encoding of
the names that `bdtun_list_k` takes, and the library gives them back (it returns their number, the
slots are those names in order, the other slots `NULL`, and nothing is stored outside the table)
exactly when the response does not get 33 names and does not begin with an empty one. -/
theorem list_round_trip (s : Ctrl) (old : Listing) (offset maxdevices : Nat) (k : Answers) :
    (ctrlWrite s bdtunCommSize (.list offset maxdevices) k).2 =
      .wrote bdtunCommSize (encoding (s.listedNames offset maxdevices)) ∧
    ((∃ s' l, bdtunList s old offset maxdevices k = some (s', l) ∧
        Decodes (s.listedNames offset maxdevices) l) ↔
      ¬ Overfull s.deviceList offset maxdevices ∧ ¬ Headless s.deviceList offset maxdevices) := by
  refine ⟨(list_response s offset maxdevices k).1, ?_⟩
  obtain ⟨s', -, hlist⟩ := bdtunList_eq s old offset maxdevices k
  rw [overfull_iff, headless_iff, ← findNames_decodes _ (old.buf.drop
    (encoding (s.listedNames offset maxdevices)).length), hlist]
  constructor
  · rintro ⟨t, l, hsome, hdec⟩
    obtain ⟨⟨j, namePbuf⟩, hfound, heq⟩ := Option.map_eq_some_iff.mp hsome
    obtain ⟨-, rfl⟩ := Prod.mk.inj heq
    exact ⟨j, namePbuf, hfound, hdec⟩
  · rintro ⟨j, namePbuf, hfound, hdec⟩
    exact ⟨s', _, by rw [hfound]; rfl, hdec⟩

/-- What the library is expected to do, in every run. -/
def ListsNames : Prop :=
  ∀ tr s, Run control ctrlUsers .init tr s → ∀ old offset maxdevices k,
    ∃ s' l, bdtunList s old offset maxdevices k = some (s', l) ∧
      Decodes (s.listedNames offset maxdevices) l

end

section
attribute [local instance] linux32

/-- The names "A", "B" and so on. -/
def letter (n : Fin 33) : DiskName where
  bytes := [UInt8.ofNat (65 + n)]
  noNul := by
    revert n
    decide
  fits := by simp

/-- Thirty-three devices are created. -/
def sampleCreates : List CtrlCall :=
  .ctrlOpen :: (List.finRange 33).map fun n =>
    .ctrlWrite 64 (.create (letter n) 512 1024 0)
      { sampleAnswers with
        kmallocDevice := some (65536 + 4096 * n)
        kmallocWork := some (1048576 + 4096 * n) }

/-- All of them are listed: the library stores a 33rd pointer. -/
theorem list_overruns : ¬ ListsNames := by
  intro h
  have hrun := @path_exec _ _ _ control ctrlUsers [] .init sampleCreates (by decide +kernel)
  obtain ⟨s', l, hsome, -⟩ := h _ _ hrun ⟨0, [], []⟩ 0 32 sampleAnswers
  have hnone : (bdtunList (exec control .init sampleCreates) ⟨0, [], []⟩ 0 32
      sampleAnswers).isNone = true := by decide +kernel
  rw [hsome] at hnone
  cases hnone

end

end BDTun
