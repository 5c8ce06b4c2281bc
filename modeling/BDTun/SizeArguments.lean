import BDTun.CommandLine

/-!
# Numbers on the command line

Both number options of `parse_opt` put what `strtoll` returns in a `uint64_t` and
look at that.  A block size has to be small there, so that nothing but the number
itself gets through; a size has only to be other than zero.

* `bsize_exact`: block sizes are parsed exactly, whatever the argument.
* `numbers_parsed`: sizes are, exactly when the argument is no negative number and
  none beyond `LLONG_MAX`.
* `resize_validated`: so the packet of a resize has the size that was given exactly
  when it was in these limits.
-/

namespace BDTun

open Options Strtol Memory CString

/-! ## Options with a number -/

def Refused (k : Key) : Prop := ∀ args, ∃ e, parseOpt args k = .error e

/-- An option takes an argument only if it denotes a good number, and then stores that number; it
refuses negative numbers, numbers beyond `LLONG_MAX`, and strings that are no numbers. -/
structure Exact (key : ArgString → Key) (store : Arguments → UInt64 → Arguments) (good : Nat → Prop)
    (arg : ArgString) : Prop where
  stores : ∀ args args', parseOpt args (key arg) = .ok args' →
    ∃ v : UInt64, Denotes arg.bytes v.toNat ∧ good v.toNat ∧ args' = store args v
  negative : ∀ n, Denotes arg.bytes n → n < 0 → Refused (key arg)
  tooLarge : ∀ n, Denotes arg.bytes n → 2 ^ 63 ≤ n → Refused (key arg)
  other : (∀ n, ¬ Denotes arg.bytes n) → Refused (key arg)

def storeSize (args : Arguments) (v : UInt64) : Arguments := { args with size := v }

def storeBlocksize (args : Arguments) (v : UInt64) : Arguments := { args with blocksize := v }

def GoodSize (n : Nat) : Prop := 1 ≤ n

def GoodBlocksize (n : Nat) : Prop := 512 ≤ n ∧ n ≤ 4096 ∧ n.isPowerOfTwo

/-- The argument is a number that `strtoll` or the conversion to `uint64_t` changes. -/
def OutOfRange (arg : ArgString) : Prop := ∃ n, Denotes arg.bytes n ∧ (n < 0 ∨ 2 ^ 63 ≤ n)

/-! ## What is taken -/

/-- **What is stored** of a number is that number exactly when it is in the range. -/
theorem stored_iff {arg : ArgString} {n : Int} {v : UInt64} (hn : Denotes arg.bytes n)
    (hv : v = toUint64 (saturate 64 n)) : Denotes arg.bytes v.toNat ↔ ¬ OutOfRange arg := by
  have hsame : Denotes arg.bytes v.toNat ↔ (v.toNat : Int) = n :=
    ⟨fun hden => hden.unique hn, fun heq => heq ▸ hn⟩
  have hout : OutOfRange arg ↔ n < 0 ∨ 2 ^ 63 ≤ n := by
    constructor
    · rintro ⟨m, hm, hout⟩
      rwa [← hm.unique hn]
    · exact fun hout => ⟨n, hn, hout⟩
  rw [hsame, hout]
  rcases stored_cases hv with ⟨hneg, hlarge⟩ | ⟨hlarge, hmost⟩ | ⟨hlow, heq⟩
  · omega
  · omega
  · omega

/-- The options take all good numbers of the range, as they are. -/
theorem takes_good {arg : ArgString} {n : Nat} (hn : Denotes arg.bytes n) (h : n < 2 ^ 63)
    (args : Arguments) :
    (GoodSize n → ∃ v, v.toNat = n ∧ parseOpt args (.size arg) = .ok (storeSize args v)) ∧
    (GoodBlocksize n →
      ∃ v, v.toNat = n ∧ parseOpt args (.bsize arg) = .ok (storeBlocksize args v)) := by
  have hv : (toUint64 (saturate 64 n)).toNat = n := by
    rcases stored_cases (n := n) rfl with ⟨hneg, -⟩ | ⟨hlarge, -⟩ | ⟨-, heq⟩
    · omega
    · omega
    · omega
  constructor
  · intro hgood
    refine ⟨_, hv, parseOpt_size.mpr ⟨n, _, hn, rfl, ?_, rfl⟩⟩
    rw [SizeLimits, UInt64.le_iff_toNat_le, hv]
    exact hgood
  · intro hgood
    refine ⟨_, hv, parseOpt_bsize.mpr ⟨n, _, hn, rfl, ?_, rfl⟩⟩
    rw [bsizeLimits_iff, hv]
    exact hgood

/-- A size out of the range is taken, for another number. -/
theorem takes_outOfRange {arg : ArgString} (h : OutOfRange arg) (args : Arguments) :
    ∃ v, ¬ Denotes arg.bytes v.toNat ∧ parseOpt args (.size arg) = .ok (storeSize args v) := by
  obtain ⟨n, hn, hout⟩ := id h
  have hpos : 1 ≤ (toUint64 (saturate 64 n)).toNat := by
    rcases stored_cases (n := n) rfl with ⟨-, hlarge⟩ | ⟨-, hmost⟩ | ⟨hlow, heq⟩
    · omega
    · omega
    · omega
  refine ⟨_, fun hden => (stored_iff hn rfl).mp hden h, ?_⟩
  exact parseOpt_size.mpr ⟨n, _, hn, rfl, UInt64.le_iff_toNat_le.mpr hpos, rfl⟩

/-- What is taken of a size in the range is the number itself. -/
theorem size_stores {arg : ArgString} (h : ¬ OutOfRange arg) {args args' : Arguments}
    (hparse : parseOpt args (.size arg) = .ok args') :
    ∃ v : UInt64, Denotes arg.bytes v.toNat ∧ GoodSize v.toNat ∧ args' = storeSize args v := by
  obtain ⟨n, v, hn, hv, hlimits, rfl⟩ := parseOpt_size.mp hparse
  exact ⟨v, (stored_iff hn hv).mpr h, UInt64.le_iff_toNat_le.mp hlimits, rfl⟩

theorem bsize_stores {arg : ArgString} {args args' : Arguments}
    (hparse : parseOpt args (.bsize arg) = .ok args') : ∃ v : UInt64, Denotes arg.bytes v.toNat ∧
      GoodBlocksize v.toNat ∧ args' = storeBlocksize args v := by
  obtain ⟨n, v, hn, hv, hlimits, rfl⟩ := parseOpt_bsize.mp hparse
  exact ⟨v, (stored_bsize hv hlimits).symm ▸ hn, bsizeLimits_iff.mp hlimits, rfl⟩

/-- An option that stores what was denoted refuses all that is no good number. -/
theorem refused {k : Key} {arg : ArgString} {good : Nat → Prop}
    {store : Arguments → UInt64 → Arguments}
    (hstores : ∀ args args', parseOpt args k = .ok args' →
      ∃ v : UInt64, Denotes arg.bytes v.toNat ∧ good v.toNat ∧ args' = store args v)
    (hbad : ∀ n : Nat, Denotes arg.bytes n → ¬ good n) : Refused k := by
  intro args
  cases hparse : parseOpt args k with
  | error e => exact ⟨e, rfl⟩
  | ok args' =>
    obtain ⟨v, hv, hgood, -⟩ := hstores args args' hparse
    exact absurd hgood (hbad _ hv)

/-! ## Exactness -/

/-- **Block sizes** are parsed exactly. -/
theorem bsize_exact (arg : ArgString) : Exact .bsize storeBlocksize GoodBlocksize arg := by
  have hstores := fun args args' => @bsize_stores arg args args'
  constructor
  · exact hstores
  · intro n hn hneg
    refine refused hstores fun m hm _ => ?_
    have heq := hn.unique hm
    omega
  · intro n hn hlarge
    refine refused hstores fun m hm hgood => ?_
    have heq := hn.unique hm
    have hmost := hgood.2.1
    omega
  · intro hnone
    exact refused hstores fun m hm => absurd hm (hnone m)

/-- **Sizes** are, if they are in the range. -/
theorem size_exact {arg : ArgString} (h : ¬ OutOfRange arg) :
    Exact .size storeSize GoodSize arg := by
  have hstores := fun args args' => @size_stores arg h args args'
  constructor
  · exact hstores
  · intro n hn hneg
    exact absurd ⟨n, hn, Or.inl hneg⟩ h
  · intro n hn hlarge
    exact absurd ⟨n, hn, Or.inr hlarge⟩ h
  · intro hnone
    exact refused hstores fun m hm => absurd hm (hnone m)

/-- **Size arguments.**  Of every argument string: the two options parse it exactly if and only if it
denotes no negative number and none beyond `LLONG_MAX`; the block size option always does; and both
take every good number of the range. -/
theorem numbers_parsed (arg : ArgString) :
    (Exact .size storeSize GoodSize arg ∧ Exact .bsize storeBlocksize GoodBlocksize arg ↔
      ¬ OutOfRange arg) ∧
    Exact .bsize storeBlocksize GoodBlocksize arg ∧
    ∀ n : Nat, Denotes arg.bytes n → n < 2 ^ 63 → ∀ args,
      (GoodSize n → ∃ v, v.toNat = n ∧ parseOpt args (.size arg) = .ok (storeSize args v)) ∧
      (GoodBlocksize n →
        ∃ v, v.toNat = n ∧ parseOpt args (.bsize arg) = .ok (storeBlocksize args v)) := by
  refine ⟨⟨?_, fun h => ⟨size_exact h, bsize_exact arg⟩⟩, bsize_exact arg,
    fun n hn hlow args => takes_good hn hlow args⟩
  rintro ⟨hexact, -⟩ hrange
  -- whatever counts as too large: the number that is stored is not the one denoted
  obtain ⟨v, hother, hparse⟩ := takes_outOfRange hrange .zero
  obtain ⟨v', hden, -, hsame⟩ := hexact.stores .zero _ hparse
  obtain rfl : v = v' := congrArg Arguments.size hsame
  exact hother hden

/-- `-s -1` is taken for `2 ^ 64 - 1` bytes. -/
theorem minus_one_taken : ¬ ∀ arg, Exact .size storeSize GoodSize arg ∧
    Exact .bsize storeBlocksize GoodBlocksize arg := by
  intro h
  have hvalue : Denotes (argString "-1").bytes (-1) := denotes_iff.mpr (by decide)
  obtain ⟨e, he⟩ := (h (argString "-1")).1.negative _ hvalue (by decide) .zero
  have hparse : parseOpt .zero (.size (argString "-1")) = .ok (storeSize .zero (toUint64 (-1))) := by
    decide
  rw [hparse] at he
  cases he

/-! ## The packet of a resize -/

section
variable [Kernel]

/-- `main`, the case of `RESIZE`: what it has `bdtun_resize` write. -/
def mainResize (args : Arguments) : Option (List UInt8) :=
  args.name.bind fun name => bdtunResize name.bytes args.size

/-- **Resizes from the command line.**  When parsing ends with the resize command, `bdtun_resize` writes
a packet by which the kernel resizes the disk of the last name.  The size is the last one given exactly
when that is in the range. -/
theorem resize_validated {opts : List Key} {args : Arguments} (h : argpParse opts = .ok args)
    (hc : args.command = .resize) : ∃ packet name size arg,
      mainResize args = some packet ∧ decode packet = some (.resize name size) ∧
      (∃ given, last Key.name? opts = some given ∧ name.bytes = given.bytes) ∧
      last Key.size? opts = some arg ∧ (Denotes arg.bytes size.toNat ↔ ¬ OutOfRange arg) := by
  obtain ⟨hparsed, -, hresize⟩ := argpParse_ok h
  obtain ⟨hname, hsize⟩ := hresize hc
  obtain ⟨given, hargs⟩ := Option.ne_none_iff_exists'.mp hname
  have hfits := hparsed.nameFits given hargs
  obtain ⟨arg, n, hgiven, hn, hv, -⟩ := hparsed.size.given hsize
  obtain ⟨packet, hpacket, hlen, hhead, hword, hfield⟩ := resize_packet given.noNul args.size
  rw [take_zeros hfits] at hfield
  have hread := DiskName.read_string ⟨given.bytes, given.noNul, hfits⟩
    (List.replicate (31 - given.bytes.length) 0)
  refine ⟨packet, ⟨given.bytes, given.noNul, hfits⟩, args.size, arg, ?_, ?_, ?_, hgiven, ?_⟩
  · rw [mainResize, hargs]
    exact hpacket
  · unfold decode
    rw [hhead, hfield, hread, hword, UInt64.ofNat_toNat]
    rfl
  · exact ⟨given, hparsed.name ▸ hargs, rfl⟩
  · exact stored_iff hn hv

end

end BDTun
