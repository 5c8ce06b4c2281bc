import BDTun.ListWindow

/-!
# `bdtun --list`

The LIST branch of `main` in `util/bdtun.c` asks for 32 names at a time, from the
offset it has reached, until it gets none.  The loop that prints them advances
`i` in its body and again in its head, so of each answer it prints every other
name (`everyOther`), and moves on by as many as it has printed.

* `branch_pass`: what one call of the library gives, prints and leaves to do.
* `list_command`: the names of the registry are printed, each once and in order,
  exactly when there are not more than two.
-/

namespace BDTun

open Memory Machine Terminated

/-- What the branch prints. -/
inductive Line
  | noTunnels
  | found
  /-- a string with `%s`; none, if the pointer is `NULL` -/
  | name (string : Option (List UInt8))
  | failed
deriving DecidableEq

/-- `names[i]`, read as a string -/
def Listing.name (l : Listing) (i : Nat) : Option (List UInt8) :=
  (l.namePbuf.getD i none).map (stringAt 0 l.buf)

/-- The loop over the names of one answer, while `left` more are below `ret`: what it prints, and
`off` at its end. -/
def printNames (l : Listing) : (left i off : Nat) → List Line × Nat
  | 0, _, off => ([], off)
  -- `i++` in the body takes the last name, or skips one
  | 1, i, off => ([.name (l.name i)], off + 1)
  | left + 2, i, off =>
    let (lines, off) := printNames l left (i + 2) (off + 1)
    (.name (l.name i) :: lines, off)

/-- The things at even positions. -/
def everyOther {α : Type} : List α → List α
  | [] => []
  | [a] => [a]
  | a :: _ :: rest => a :: everyOther rest

/-- The names among the lines. -/
def printedNames (lines : List Line) : List (Option (List UInt8)) :=
  lines.filterMap fun line => match line with
    | .name string => some string
    | _ => none

section
variable [Kernel]

/-- The LIST branch, for so many passes; `none` if they are not enough, or for a store outside
`name_pbuf`. -/
def listBranch (k : Answers) : Nat → Ctrl → Listing → (off : Nat) → (first : Bool) →
    Option (Ctrl × List Line)
  | 0, _, _, _, _ => none
  | fuel + 1, s, old, off, first =>
    match bdtunList s old off 32 k with
    | none => none
    | some (s, l) =>
      if l.ret < 0 then some (s, [.failed])
      else
        let head := if first then [if (l.name 0).isNone then Line.noTunnels else .found] else []
        let (lines, off) := printNames l l.ret.toNat 0 off
        if l.ret = 0 then some (s, head ++ lines)
        else (listBranch k fuel s l off false).map fun (s, rest) => (s, head ++ lines ++ rest)

/-! ## One answer -/

omit [Kernel] in
theorem Decodes.name {names : List DiskName} {l : Listing} (h : Decodes names l) {i : Nat}
    (hi : i < names.length) : l.name i = some names[i].bytes := by
  have hslot := congrArg (fun slots => slots[i]?) h.2
  simp only [List.getElem?_map] at hslot
  rw [List.getElem?_append_left (by simpa using hi), List.getElem?_map,
    List.getElem?_eq_getElem hi] at hslot
  unfold Listing.name
  rw [List.getD_eq_getElem?_getD]
  cases hp : l.namePbuf[i]? with
  | none => simp [hp] at hslot
  | some p => simpa [hp] using hslot

omit [Kernel] in
/-- The loop prints the names at even positions, and moves on by their number. -/
theorem printNames_eq {names : List DiskName} {l : Listing} (h : Decodes names l) (left i off : Nat)
    (hleft : i + left = names.length) :
    printNames l left i off =
      ((everyOther (names.drop i)).map fun n => .name (some n.bytes),
        off + (everyOther (names.drop i)).length) := by
  induction left, i, off using printNames.induct l with
  | case1 i off =>
    rw [List.drop_eq_nil_of_le (by omega)]
    rfl
  | case2 i off =>
    have hi : i < names.length := by omega
    have hend : names.drop (i + 1) = [] := List.drop_eq_nil_of_le (by omega)
    rw [List.drop_eq_getElem_cons hi, hend, printNames, h.name hi]
    rfl
  | case3 left i off lines more hcall ih =>
    have hi : i < names.length := by omega
    have hi' : i + 1 < names.length := by omega
    have hdrop : names.drop i = names[i] :: names[i + 1] :: names.drop (i + 2) := by
      rw [List.drop_eq_getElem_cons hi, List.drop_eq_getElem_cons hi']
    rw [hdrop, printNames, h.name hi, ih (by omega), everyOther]
    simp only [List.map_cons, List.length_cons]
    congr 1
    omega

/-- **One pass** over a registry without empty names. -/
theorem branch_pass (k : Answers) (fuel : Nat) (s : Ctrl) (old : Listing) (off : Nat) (first : Bool)
    (hne : ∀ d ∈ s.deviceList, d.diskName.bytes ≠ []) {names : List DiskName}
    (hnames : s.listedNames off 32 = names) :
    ∃ t l head, t.deviceList = s.deviceList ∧ printedNames head = [] ∧
      listBranch k (fuel + 1) s old off first =
        if bdtunDevnames < names.length then none
        else
          let lines := head ++ (everyOther names).map fun n => .name (some n.bytes)
          if names = [] then some (t, lines)
          else (listBranch k fuel t l (off + (everyOther names).length) false).map
            fun (t, rest) => (t, lines ++ rest) := by
  have hprefix : s.listedNames off 32 <+: (s.deviceList.drop off).map Device.diskName :=
    encodedNames_prefix ..
  have hhead : ¬ ∃ n m more, names = n :: m :: more ∧ n.bytes = [] := by
    rintro ⟨n, m, more, rfl, hempty⟩
    rw [hnames] at hprefix
    have hmem := hprefix.subset List.mem_cons_self
    obtain ⟨d, hd, rfl⟩ := List.mem_map.mp hmem
    exact hne d (List.mem_of_mem_drop hd) hempty
  obtain ⟨t, hlist, heq⟩ := bdtunList_eq s old off 32 k
  simp only [hnames] at heq
  rw [findNames_headed (old.buf.drop (encoding names).length) hhead] at heq
  have hdec := decodes_filled names (old.buf.drop (encoding names).length)
  generalize hl : (⟨names.length, encoding names ++ old.buf.drop (encoding names).length,
    filled (nameStarts names)⟩ : Listing) = l at hdec
  refine ⟨t, l, if first then [if (l.name 0).isNone then .noTunnels else .found] else [], hlist,
    ?_, ?_⟩
  · cases first
    · rfl
    · simp only [if_true]
      split <;> rfl
  · rw [listBranch, heq]
    by_cases hroom : names.length ≤ bdtunDevnames
    · have hprint := printNames_eq hdec names.length 0 off (Nat.zero_add _)
      have hret : ¬ l.ret < 0 := by
        rw [hdec.1]
        omega
      have hnat : l.ret.toNat = names.length := by
        rw [hdec.1]
        rfl
      have hzero : l.ret = 0 ↔ names = [] := by
        rw [hdec.1, ← List.length_eq_zero_iff]
        omega
      rw [if_pos hroom, if_neg (by omega : ¬ bdtunDevnames < names.length)]
      simp only [Option.map_some, hl, if_neg hret, hnat, hprint, List.drop_zero, hzero]
    · rw [if_neg hroom, if_pos (by omega : bdtunDevnames < names.length)]
      rfl

/-! ## The whole listing -/

omit [Kernel] in
/-- An answer has 32 names, or all there are. -/
theorem enough_names (s : Ctrl) (off : Nat) :
    min 32 (s.deviceList.drop off).length ≤ (s.listedNames off 32).length := by
  have hbytes : ∀ l : List Device, nameBytes l ≤ 32 * l.length := by
    intro l
    induction l with
    | nil => exact Nat.le_refl 0
    | cons d l ih =>
      have hfits := d.diskName.fits
      have hcons : nameBytes (d :: l) = d.diskName.bytes.length + 1 + nameBytes l := by
        simp [nameBytes]
      rw [hcons, List.length_cons]
      omega
  generalize hn : min 32 (s.deviceList.drop off).length = n
  cases n with
  | zero => exact Nat.zero_le _
  | succ n =>
    refine (lt_length_encodedNames ..).mpr ⟨by omega, by omega, ?_, ?_⟩
    · show 0 + n ≤ 32
      omega
    · have hle := hbytes ((s.deviceList.drop off).take (n + 1))
      have htake : ((s.deviceList.drop off).take (n + 1)).length ≤ n + 1 :=
        List.length_take_le _ _
      show 0 + _ ≤ 1024
      omega

omit [Kernel] in
/-- Names of a few devices fit into an answer. -/
theorem listedNames_few (s : Ctrl) (off : Nat) (h : (s.deviceList.drop off).length ≤ 32) :
    s.listedNames off 32 = (s.deviceList.drop off).map Device.diskName := by
  have hprefix : s.listedNames off 32 <+: (s.deviceList.drop off).map Device.diskName :=
    encodedNames_prefix ..
  have hlength := enough_names s off
  refine hprefix.eq_of_length_le ?_
  rw [List.length_map]
  omega

omit [Kernel] in
theorem printedNames_append (lines more : List Line) :
    printedNames (lines ++ more) = printedNames lines ++ printedNames more :=
  List.filterMap_append

omit [Kernel] in
theorem printedNames_shown (names : List DiskName) :
    printedNames (names.map fun n => .name (some n.bytes)) = names.map fun n => some n.bytes := by
  induction names with
  | nil => rfl
  | cons n names ih => exact congrArg (some n.bytes :: ·) ih

/-- With at most two devices to go, each pass prints the first of them and leaves the rest. -/
theorem branch_few (k : Answers) (n : Nat) (hn : n ≤ 2) (s : Ctrl) (old : Listing) (off : Nat)
    (first : Bool) (hne : ∀ d ∈ s.deviceList, d.diskName.bytes ≠ [])
    (hlen : (s.deviceList.drop off).length = n) :
    ∃ t lines, listBranch k (n + 1) s old off first = some (t, lines) ∧
      printedNames lines = (s.deviceList.drop off).map fun d => some d.diskName.bytes := by
  induction n generalizing s old off first with
  | zero =>
    have hnone : s.deviceList.drop off = [] := List.length_eq_zero_iff.mp hlen
    have hnames : s.listedNames off 32 = [] := by
      rw [listedNames_few s off (by omega), hnone]
      rfl
    obtain ⟨t, l, head, -, hhead, hpass⟩ := branch_pass k 0 s old off first hne hnames
    refine ⟨t, head ++ [], hpass, ?_⟩
    rw [List.append_nil, hhead, hnone]
    rfl
  | succ n ih =>
    obtain ⟨d, rest, hdrop⟩ := List.exists_cons_of_length_eq_add_one hlen
    have hnames := listedNames_few s off (by omega)
    rw [hdrop, List.map_cons] at hnames
    have hrest : rest.length = n := by
      rw [hdrop, List.length_cons] at hlen
      omega
    have hone : everyOther (d.diskName :: rest.map Device.diskName) = [d.diskName] := by
      match rest, hrest with
      | [], _ => rfl
      | [e], _ => rfl
      | _ :: _ :: _, h => simp at h; omega
    obtain ⟨t, l, head, hlist, hhead, hpass⟩ := branch_pass k (n + 1) s old off first hne hnames
    have hdrop' : t.deviceList.drop (off + 1) = rest := by
      rw [hlist, ← List.drop_drop, hdrop]
      rfl
    obtain ⟨t', lines, hbranch, hprinted⟩ := ih (by omega) t l (off + 1) false (by rwa [hlist])
      (by rw [hdrop', hrest])
    have hroom : ¬ bdtunDevnames < (d.diskName :: rest.map Device.diskName).length := by
      simp only [List.length_cons, List.length_map, bdtunDevnames]
      omega
    rw [if_neg hroom, hone] at hpass
    simp only [reduceCtorEq, if_false, List.length_singleton, hbranch, Option.map_some] at hpass
    refine ⟨t', _, hpass, ?_⟩
    rw [printedNames_append, printedNames_append, hhead, printedNames_shown, hprinted, hdrop', hdrop]
    rfl

/-- The registry is listed: the branch comes to an end, and the names it has printed are the names on
the list, each once and in their order. -/
def ListsRegistry (k : Answers) (s : Ctrl) (old : Listing) : Prop :=
  ∃ fuel t lines, listBranch k fuel s old 0 true = some (t, lines) ∧
    printedNames lines = s.deviceList.map fun d => some d.diskName.bytes

/-- Of three devices or more, the second is skipped. -/
theorem skips_second (k : Answers) (s : Ctrl) (old : Listing)
    (hdistinct : (s.deviceList.map Device.diskName).Nodup)
    (hne : ∀ d ∈ s.deviceList, d.diskName.bytes ≠ []) (hmany : 2 < s.deviceList.length) :
    ¬ ListsRegistry k s old := by
  rintro ⟨fuel, t, lines, hbranch, hprinted⟩
  cases fuel with
  | zero => cases hbranch
  | succ fuel =>
    have henough := enough_names s 0
    have hprefix : s.listedNames 0 32 <+: (s.deviceList.drop 0).map Device.diskName :=
      encodedNames_prefix ..
    rw [List.drop_zero] at henough hprefix
    generalize hnames : s.listedNames 0 32 = names at henough hprefix
    obtain ⟨t', l, head, -, hhead, hpass⟩ := branch_pass k fuel s old 0 true hne hnames
    obtain ⟨a, b, c, more, rfl⟩ : ∃ a b c more, names = a :: b :: c :: more := by
      have hthree : 3 ≤ names.length := by omega
      match names, hthree with
      | a :: b :: c :: more, _ => exact ⟨a, b, c, more, rfl⟩
    obtain ⟨tail, htail⟩ := hprefix
    rw [hbranch] at hpass
    split at hpass
    · cases hpass
    · -- the second name that is printed is the third of the registry
      simp only [reduceCtorEq, if_false] at hpass
      obtain ⟨⟨t'', rest⟩, -, heq⟩ := Option.map_eq_some_iff.mp hpass.symm
      obtain ⟨-, rfl⟩ := Prod.mk.inj heq
      have hlist : s.deviceList.map (fun d => some d.diskName.bytes) =
          (s.deviceList.map Device.diskName).map fun n => some n.bytes := by
        rw [List.map_map]
        rfl
      rw [hlist, ← htail, printedNames_append, printedNames_append, hhead, printedNames_shown]
        at hprinted
      have hsecond : c.bytes = b.bytes := by
        have hat := congrArg (fun l => l[1]?) hprinted
        cases more <;> simpa [everyOther] using hat
      rw [← htail] at hdistinct
      have hbc : b ≠ c := by
        rintro rfl
        simp at hdistinct
      apply hbc
      cases b
      cases c
      simp only [DiskName.mk.injEq]
      exact hsecond.symm

/-- **Listing.**  For every registry of distinct, non-empty names, the LIST branch prints it exactly
when it has at most two devices. -/
theorem list_command (k : Answers) (s : Ctrl) (old : Listing)
    (hdistinct : (s.deviceList.map Device.diskName).Nodup)
    (hne : ∀ d ∈ s.deviceList, d.diskName.bytes ≠ []) :
    ListsRegistry k s old ↔ s.deviceList.length ≤ 2 := by
  constructor
  · intro hlists
    by_contra hmany
    exact skips_second k s old hdistinct hne (by omega) hlists
  · intro hfew
    obtain ⟨t, lines, hbranch, hprinted⟩ :=
      branch_few k s.deviceList.length hfew s old 0 true hne rfl
    exact ⟨_, t, lines, hbranch, hprinted⟩

/-- What LIST is expected to do, whatever has been created and removed. -/
def ListsRegistries : Prop :=
  ∀ tr s, Run control ctrlUsers .init tr s → (∀ d ∈ s.deviceList, d.diskName.bytes ≠ []) →
    ∀ k old, ListsRegistry k s old

end

section
attribute [local instance] linux32

/-- Three devices are created, and the second is not listed. -/
theorem list_command_skips : ¬ ListsRegistries := by
  intro h
  have hrun := @path_exec _ _ _ control ctrlUsers [] .init (sampleCreates.take 4)
    (by decide +kernel)
  have hlist := run_listed (fun _ _ h => h) hrun
  have hne : ∀ d ∈ (exec control .init (sampleCreates.take 4)).deviceList,
      d.diskName.bytes ≠ [] := by decide +kernel
  exact skips_second sampleAnswers _ ⟨0, [], []⟩ hlist.names hne (by decide +kernel)
    (h _ _ hrun hne _ _)

/-- Two devices are listed. -/
theorem list_command_sample :
    ListsRegistry sampleAnswers (exec control .init (sampleCreates.take 3)) ⟨0, [], []⟩ :=
  (list_command sampleAnswers _ _ (by decide +kernel) (by decide +kernel)).mpr (by decide +kernel)

end

end BDTun
