import BDTun.Lib.Options
import BDTun.Lib.Strtol
import BDTun.Features
import BDTun.Packet
import BDTun.Sizes

/-!
# The command line of `util/bdtun.c`

argp calls `parse_opt` for each option and at last with `ARGP_KEY_SUCCESS`;
`argp_error` ends the program.  When the command is create, `main` has
`bdtun_create` write a packet with what was read.

* `parsed`: after options that were accepted, `struct arguments` has the last of each
  kind, and the numbers are in the limits of their options.
* `create_validated`: the packet passes the kernel's checks and carries what was given;
  of the size this holds exactly when the argument is not a negative number.
-/

namespace BDTun

open Options Strtol Memory CString

/-! ## Data -/

/-- `enum command` -/
inductive Command
  | create | remove | resize | list | info
deriving DecidableEq

/-- An argument of the program, without its terminator. -/
@[ext] structure ArgString where
  bytes : List UInt8
  noNul : 0 ∉ bytes

instance : DecidableEq ArgString := fun _ _ => decidable_of_iff' _ ArgString.ext_iff

/-- `struct arguments` -/
structure Arguments where
  command : Command
  /-- or `NULL` -/
  name : Option ArgString
  size : UInt64
  blocksize : UInt64
  reqFlush : Bool
  reqFua : Bool
  reqDiscard : Bool
  reqSecure : Bool
deriving DecidableEq

/-- `struct arguments args = {0}` -/
def Arguments.zero : Arguments where
  command := .create
  name := none
  size := 0
  blocksize := 0
  reqFlush := false
  reqFua := false
  reqDiscard := false
  reqSecure := false

/-- What argp calls `parse_opt` with: a key, and the argument of an option that has one. -/
inductive Key
  | create | remove | resize | list | info
  | name (arg : ArgString)
  | size (arg : ArgString)
  | bsize (arg : ArgString)
  | flush | fua | discard | secure
  | keyArg (arg : ArgString)
  | keySuccess
  /-- a key that is no case of the switch -/
  | other (key : Int)
deriving DecidableEq

/-- What `argp_error` prints, and the string in it. -/
structure ArgpError where
  text : String
  arg : List UInt8 := []
deriving DecidableEq

/-! ## Parsing -/

/-- A number of `strtoll` in a `uint64_t`. -/
def toUint64 (v : Int) : UInt64 := UInt64.ofInt v

/-- The lines that the two options with a number begin with. -/
def parseNumber (arg : ArgString) : Except ArgpError UInt64 :=
  let r := strtol 64 arg.bytes
  if r.2 ≠ [] then .error { text := "invalid number: ", arg := arg.bytes }
  else .ok (toUint64 r.1)

/-- `parse_opt`, the case of `ARGP_KEY_SUCCESS` -/
def parseSuccess (args : Arguments) : Except ArgpError Arguments :=
  match args.command with
  | .create =>
    if args.name = none then .error { text := "a name must be given" }
    else if args.size = 0 then .error { text := "a size must be give" }
    else if args.blocksize = 0 then .error { text := "a block size must be given" }
    else if args.size % args.blocksize ≠ 0 then
      .error { text := "size must be a multiple of blocksize" }
    else .ok args
  | .resize =>
    if args.name = none then .error { text := "a name must be given" }
    else if args.size = 0 then .error { text := "a size must be give" }
    else .ok args
  | .remove => if args.name = none then .error { text := "a name must be given" } else .ok args
  | .info => if args.name = none then .error { text := "a name must be given" } else .ok args
  | .list => .ok args

/-- `parse_opt` -/
def parseOpt (args : Arguments) : Key → Except ArgpError Arguments
  | .create => .ok { args with command := .create }
  | .remove => .ok { args with command := .remove }
  | .resize => .ok { args with command := .resize }
  | .list => .ok { args with command := .list }
  | .info => .ok { args with command := .info }
  | .name arg =>
    if arg.bytes.length ≥ 32 then .error { text := "tunnel name must be shorter than 32" }
    else .ok { args with name := some arg }
  | .size arg =>
    match parseNumber arg with
    | .error e => .error e
    | .ok size =>
      if size < 1 then .error { text := "size must be greater than zero" }
      else .ok { args with size := size }
  | .bsize arg =>
    match parseNumber arg with
    | .error e => .error e
    | .ok size =>
      if size < 512 then .error { text := "block size must be at least 512" }
      else if size > 4096 then .error { text := "block size must be at most 4096" }
      else if size &&& (size - 1) ≠ 0 then .error { text := "block size must be a power of two" }
      else .ok { args with blocksize := size }
  | .flush => .ok { args with reqFlush := true }
  | .fua => .ok { args with reqFua := true }
  | .discard => .ok { args with reqDiscard := true }
  | .secure => .ok { args with reqSecure := true }
  | .keyArg _ => .error { text := "too many arguments" }
  | .keySuccess => parseSuccess args
  | .other _ => .ok args

/-- `argp_parse` -/
def argpParse (opts : List Key) : Except ArgpError Arguments :=
  parse parseOpt .zero (opts ++ [.keySuccess])

/-- `capabilities` in `main` -/
def mainCapabilities (args : Arguments) : BitVec 32 :=
  (if args.reqFlush then bdtunFlush else 0) ||| (if args.reqFua then bdtunFua else 0) |||
    (if args.reqDiscard then bdtunDiscard else 0) ||| (if args.reqSecure then bdtunSecure else 0)

/-- `main`, the case of `CREATE`: what it has `bdtun_create` write. -/
def mainCreate [Kernel] (args : Arguments) : Option (List UInt8) :=
  args.name.bind fun name =>
    bdtunCreate name.bytes args.blocksize args.size (mainCapabilities args)

/-! ## What was given -/

def Key.name? : Key → Option ArgString
  | .name arg => some arg
  | _ => none

def Key.size? : Key → Option ArgString
  | .size arg => some arg
  | _ => none

def Key.bsize? : Key → Option ArgString
  | .bsize arg => some arg
  | _ => none

/-- The option that asks for a feature. -/
def Feature.key : Feature → Key
  | .flush => .flush
  | .fua => .fua
  | .discard => .discard
  | .secure => .secure

/-- The member of `struct arguments` for a feature. -/
def Arguments.req (args : Arguments) : Feature → Bool
  | .flush => args.reqFlush
  | .fua => args.reqFua
  | .discard => args.reqDiscard
  | .secure => args.reqSecure

/-- A number as it is stored for the last argument of an option: zero if there is none, and in the
limits of the option otherwise. -/
def Stored (limits : UInt64 → Prop) (given : Option ArgString) (v : UInt64) : Prop :=
  match given with
  | none => v = 0
  | some arg => ∃ n, Denotes arg.bytes n ∧ v = toUint64 (saturate 64 n) ∧ limits v

def SizeLimits (v : UInt64) : Prop := 1 ≤ v

def BsizeLimits (v : UInt64) : Prop := 512 ≤ v ∧ v ≤ 4096 ∧ v &&& (v - 1) = 0

/-- What the options up to a point have made of `struct arguments`. -/
structure Parsed (opts : List Key) (args : Arguments) : Prop where
  name : args.name = last Key.name? opts
  nameFits : ∀ arg, args.name = some arg → arg.bytes.length ≤ 31
  size : Stored SizeLimits (last Key.size? opts) args.size
  blocksize : Stored BsizeLimits (last Key.bsize? opts) args.blocksize
  req : ∀ f, args.req f = true ↔ Feature.key f ∈ opts

/-! ## Options one after the other -/

/-- A number option reads a number, unless it reads zero. -/
theorem parseNumber_ok {arg : ArgString} {v : UInt64} (h : parseNumber arg = .ok v) (hv : v ≠ 0) :
    ∃ n, Denotes arg.bytes n ∧ v = toUint64 (saturate 64 n) := by
  unfold parseNumber at h
  by_cases hend : (strtol 64 arg.bytes).2 = []
  · rw [if_neg (not_not.mpr hend)] at h
    obtain rfl := Except.ok.inj h
    rcases strtol_end.mp hend with hnil | ⟨n, hn⟩
    · rw [hnil] at hv
      exact absurd rfl hv
    · exact ⟨n, hn, by rw [hn.strtol]⟩
  · rw [if_pos hend] at h
    cases h

theorem parseNumber_eq {arg : ArgString} {n : Int} (h : Denotes arg.bytes n) :
    parseNumber arg = .ok (toUint64 (saturate 64 n)) := by
  unfold parseNumber
  rw [h.strtol 64]
  rfl

theorem parsed_zero : Parsed [] .zero where
  name := rfl
  nameFits := fun arg h => by cases h
  size := rfl
  blocksize := rfl
  req := fun f => by cases f <;> simp [Arguments.req, Arguments.zero]

/-- An option with no argument, which asks for a feature or for none. -/
theorem Parsed.bare {opts : List Key} {args args' : Arguments} (h : Parsed opts args) {k : Key}
    (hk : k.name? = none ∧ k.size? = none ∧ k.bsize? = none)
    (hsame : args'.name = args.name ∧ args'.size = args.size ∧ args'.blocksize = args.blocksize)
    (hreq : ∀ f, args'.req f = true ↔ args.req f = true ∨ Feature.key f = k) :
    Parsed (opts ++ [k]) args' := by
  obtain ⟨hname, hsize, hbsize⟩ := hk
  obtain ⟨hname', hsize', hbsize'⟩ := hsame
  constructor
  · rw [hname', last_concat_none hname]
    exact h.name
  · rw [hname']
    exact h.nameFits
  · rw [hsize', last_concat_none hsize]
    exact h.size
  · rw [hbsize', last_concat_none hbsize]
    exact h.blocksize
  · intro f
    rw [hreq, h.req, List.mem_append, List.mem_singleton]

/-- An option with an argument asks for no feature. -/
theorem Parsed.req_concat {opts : List Key} {args : Arguments} (h : Parsed opts args) {k : Key}
    (hk : ∀ f, Feature.key f ≠ k) (f : Feature) :
    args.req f = true ↔ Feature.key f ∈ opts ++ [k] := by
  rw [h.req, List.mem_append, List.mem_singleton]
  exact ⟨Or.inl, fun hin => hin.resolve_right (hk f)⟩

theorem parseOpt_name {args args' : Arguments} {arg : ArgString}
    (h : parseOpt args (.name arg) = .ok args') :
    arg.bytes.length ≤ 31 ∧ args' = { args with name := some arg } := by
  unfold parseOpt at h
  by_cases hlong : arg.bytes.length ≥ 32
  · simp [hlong] at h
  · simp only [if_neg hlong] at h
    exact ⟨by omega, (Except.ok.inj h).symm⟩

/-- **The size option**, for every argument. -/
theorem parseOpt_size {args args' : Arguments} {arg : ArgString} :
    parseOpt args (.size arg) = .ok args' ↔ ∃ n v, Denotes arg.bytes n ∧
      v = toUint64 (saturate 64 n) ∧ SizeLimits v ∧ args' = { args with size := v } := by
  constructor
  · intro h
    unfold parseOpt at h
    cases hnum : parseNumber arg with
    | error e => simp [hnum] at h
    | ok v =>
      simp only [hnum] at h
      by_cases hlow : v < 1
      · simp [hlow] at h
      · simp only [if_neg hlow] at h
        obtain ⟨n, hn, hv⟩ := parseNumber_ok hnum (by rintro rfl; exact hlow (by decide))
        exact ⟨n, v, hn, hv, UInt64.not_lt.mp hlow, (Except.ok.inj h).symm⟩
  · rintro ⟨n, v, hn, rfl, hlimits, rfl⟩
    simp only [parseOpt, parseNumber_eq hn, if_neg (UInt64.not_lt.mpr hlimits)]

/-- **The block size option**, for every argument. -/
theorem parseOpt_bsize {args args' : Arguments} {arg : ArgString} :
    parseOpt args (.bsize arg) = .ok args' ↔ ∃ n v, Denotes arg.bytes n ∧
      v = toUint64 (saturate 64 n) ∧ BsizeLimits v ∧ args' = { args with blocksize := v } := by
  constructor
  · intro h
    unfold parseOpt at h
    cases hnum : parseNumber arg with
    | error e => simp [hnum] at h
    | ok v =>
      simp only [hnum] at h
      by_cases hlow : v < 512
      · simp [hlow] at h
      · by_cases hhigh : v > 4096
        · simp [hlow, hhigh] at h
        · by_cases hpow : v &&& (v - 1) = 0
          · simp only [if_neg hlow, if_neg hhigh, if_neg (not_not.mpr hpow)] at h
            obtain ⟨n, hn, hv⟩ := parseNumber_ok hnum (by rintro rfl; exact hlow (by decide))
            exact ⟨n, v, hn, hv, ⟨UInt64.not_lt.mp hlow, UInt64.not_lt.mp hhigh, hpow⟩,
              (Except.ok.inj h).symm⟩
          · simp [hlow, hhigh, hpow] at h
  · rintro ⟨n, v, hn, rfl, ⟨hleast, hmost, hpow⟩, rfl⟩
    simp only [parseOpt, parseNumber_eq hn, if_neg (UInt64.not_lt.mpr hleast),
      if_neg (UInt64.not_lt.mpr hmost), if_neg (not_not.mpr hpow)]

/-- The last check changes nothing, and a create or a resize that passes it is complete. -/
theorem parseSuccess_ok {args args' : Arguments} (h : parseSuccess args = .ok args') :
    args' = args ∧ (args.command = .create →
      args.name ≠ none ∧ args.size ≠ 0 ∧ args.blocksize ≠ 0 ∧ args.size % args.blocksize = 0) ∧
    (args.command = .resize → args.name ≠ none ∧ args.size ≠ 0) := by
  unfold parseSuccess at h
  cases hc : args.command with
  | create =>
    rw [hc] at h
    by_cases hname : args.name = none
    · simp [hname] at h
    · by_cases hsize : args.size = 0
      · simp [hname, hsize] at h
      · by_cases hbsize : args.blocksize = 0
        · simp [hname, hsize, hbsize] at h
        · by_cases hmod : args.size % args.blocksize = 0
          · simp only [hname, hsize, hbsize, hmod, ne_eq, not_true_eq_false, if_false] at h
            exact ⟨(Except.ok.inj h).symm, fun _ => ⟨hname, hsize, hbsize, hmod⟩,
              fun hnot => by cases hnot⟩
          · simp [hname, hsize, hbsize, hmod] at h
  | resize =>
    rw [hc] at h
    by_cases hname : args.name = none
    · simp [hname] at h
    · by_cases hsize : args.size = 0
      · simp [hname, hsize] at h
      · simp only [hname, hsize, if_false] at h
        exact ⟨(Except.ok.inj h).symm, (fun hnot => by cases hnot), fun _ => ⟨hname, hsize⟩⟩
  | remove | info =>
    rw [hc] at h
    by_cases hname : args.name = none
    · simp [hname] at h
    · simp only [hname, if_false] at h
      exact ⟨(Except.ok.inj h).symm, (fun hnot => by cases hnot), fun hnot => by cases hnot⟩
  | list =>
    rw [hc] at h
    exact ⟨(Except.ok.inj h).symm, (fun hnot => by cases hnot), fun hnot => by cases hnot⟩

/-- **Every accepted option keeps it.** -/
theorem Parsed.step {opts : List Key} {args args' : Arguments} (h : Parsed opts args) {k : Key}
    (hk : parseOpt args k = .ok args') : Parsed (opts ++ [k]) args' := by
  cases k with
  | create | remove | resize | list | info | flush | fua | discard | secure | other _ =>
    obtain rfl := Except.ok.inj hk
    refine h.bare ⟨rfl, rfl, rfl⟩ ⟨rfl, rfl, rfl⟩ fun f => ?_
    cases f <;> simp [Arguments.req, Feature.key]
  | keyArg arg => cases hk
  | keySuccess =>
    obtain ⟨rfl, -⟩ := parseSuccess_ok hk
    refine h.bare ⟨rfl, rfl, rfl⟩ ⟨rfl, rfl, rfl⟩ fun f => ?_
    cases f <;> simp [Feature.key]
  | name arg =>
    obtain ⟨hfits, rfl⟩ := parseOpt_name hk
    constructor
    · rw [last_concat_some (show Key.name? (.name arg) = some arg from rfl)]
    · intro arg' harg
      obtain rfl := Option.some.inj harg
      exact hfits
    · rw [last_concat_none rfl]
      exact h.size
    · rw [last_concat_none rfl]
      exact h.blocksize
    · exact h.req_concat fun f => by cases f <;> simp [Feature.key]
  | size arg =>
    obtain ⟨n, v, hn, hv, hlimits, rfl⟩ := parseOpt_size.mp hk
    constructor
    · rw [last_concat_none rfl]
      exact h.name
    · exact h.nameFits
    · rw [last_concat_some (show Key.size? (.size arg) = some arg from rfl)]
      exact ⟨n, hn, hv, hlimits⟩
    · rw [last_concat_none rfl]
      exact h.blocksize
    · exact h.req_concat fun f => by cases f <;> simp [Feature.key]
  | bsize arg =>
    obtain ⟨n, v, hn, hv, hlimits, rfl⟩ := parseOpt_bsize.mp hk
    constructor
    · rw [last_concat_none rfl]
      exact h.name
    · exact h.nameFits
    · rw [last_concat_none rfl]
      exact h.size
    · rw [last_concat_some (show Key.bsize? (.bsize arg) = some arg from rfl)]
      exact ⟨n, hn, hv, hlimits⟩
    · exact h.req_concat fun f => by cases f <;> simp [Feature.key]

/-- **All the options**, when they were accepted. -/
theorem parsed {opts : List Key} {args : Arguments} (h : parse parseOpt .zero opts = .ok args) :
    Parsed opts args :=
  parse_invariant Parsed parsed_zero (fun _ _ _ _ hI hk => hI.step hk) h

/-! ## Numbers -/

theorem toNat_toUint64 (v : Int) : ((toUint64 v).toNat : Int) = v % 2 ^ 64 := by
  have hpos : 0 ≤ v % 2 ^ 64 := Int.emod_nonneg v (by decide)
  have hlt : v % 2 ^ 64 < 2 ^ 64 := Int.emod_lt_of_pos v (by decide)
  unfold toUint64 UInt64.ofInt
  rw [UInt64.toNat_ofNat_of_lt' (by show (v % 2 ^ 64).toNat < 2 ^ 64; omega)]
  exact Int.toNat_of_nonneg hpos

/-- What becomes of a number: a negative one is stored as a very large one, a large one as the
largest of a `long long`, and the others as they are. -/
theorem stored_cases {n : Int} {v : UInt64} (hv : v = toUint64 (saturate 64 n)) :
    (n < 0 ∧ 2 ^ 63 ≤ v.toNat) ∨ (2 ^ 63 ≤ n ∧ v.toNat = 2 ^ 63 - 1) ∨
      (n < 2 ^ 63 ∧ (v.toNat : Int) = n) := by
  have hval : (v.toNat : Int) = saturate 64 n % 2 ^ 64 := by
    rw [hv]
    exact toNat_toUint64 _
  by_cases hneg : n < 0
  · obtain ⟨hsat, hleast⟩ := saturate_neg (w := 64) hneg
    exact Or.inl ⟨hneg, by omega⟩
  · by_cases hhigh : 2 ^ 63 ≤ n
    · rw [saturate_high (w := 64) hhigh] at hval
      exact Or.inr (Or.inl ⟨hhigh, by omega⟩)
    · rw [saturate_eq (w := 64) (by omega) (by omega)] at hval
      exact Or.inr (Or.inr ⟨by omega, by omega⟩)

/-- The limits of the block size option, of the number. -/
theorem bsizeLimits_iff {v : UInt64} :
    BsizeLimits v ↔ 512 ≤ v.toNat ∧ v.toNat ≤ 4096 ∧ v.toNat.isPowerOfTwo := by
  unfold BsizeLimits
  rw [UInt64.le_iff_toNat_le, UInt64.le_iff_toNat_le]
  refine and_congr_right fun hleast => and_congr_right fun _ => ?_
  have hleast' : 512 ≤ v.toNat := hleast
  have hone : (1 : UInt64) ≤ v := UInt64.le_iff_toNat_le.mpr (by show 1 ≤ _; omega)
  rw [← UInt64.toNat_inj, UInt64.toNat_and, UInt64.toNat_sub_of_le _ _ hone]
  exact Nat.and_sub_one_eq_zero_iff_isPowerOfTwo (by omega)

/-- What is in these limits was denoted by the argument. -/
theorem stored_bsize {n : Int} {v : UInt64} (hv : v = toUint64 (saturate 64 n))
    (hlimits : BsizeLimits v) : (v.toNat : Int) = n := by
  have hgood := bsizeLimits_iff.mp hlimits
  rcases stored_cases hv with ⟨-, hlarge⟩ | ⟨-, hlarge⟩ | ⟨-, heq⟩
  · omega
  · omega
  · exact heq

section
variable [Kernel]

/-- **The two validators agree.**  Numbers that pass `parse_opt` are good sizes. -/
theorem goodSizes_of_limits {blocksize size : UInt64} (hlimits : BsizeLimits blocksize)
    (hmod : size % blocksize = 0) : GoodSizes blocksize.toNat size.toNat := by
  obtain ⟨hleast, hmost, hpow⟩ := bsizeLimits_iff.mp hlimits
  constructor
  · exact hpow
  · exact hleast
  · have hshift : 2 ^ 12 ≤ 2 ^ pageShift := Nat.pow_le_pow_right (by decide) Kernel.pageShift_ge
    unfold pageSize
    omega
  · have hnat := congrArg UInt64.toNat hmod
    rw [UInt64.toNat_mod] at hnat
    exact Nat.dvd_of_mod_eq_zero hnat

omit [Kernel] in
/-- The word of `main` has the bits of the features that were asked for. -/
theorem getLsbD_mainCapabilities (args : Arguments) (i : Nat) :
    (mainCapabilities args).getLsbD i = true ↔
      ∃ f, args.req f = true ∧ (Feature.bit f).getLsbD i = true := by
  have hflag : ∀ (b : Bool) (w : BitVec 32),
      (if b then w else 0).getLsbD i = true ↔ b = true ∧ w.getLsbD i = true := by
    intro b w
    cases b <;> simp
  unfold mainCapabilities
  simp only [BitVec.getLsbD_or, Bool.or_eq_true, hflag]
  constructor
  · rintro (((hand | hand) | hand) | hand)
    · exact ⟨.flush, hand⟩
    · exact ⟨.fua, hand⟩
    · exact ⟨.discard, hand⟩
    · exact ⟨.secure, hand⟩
  · rintro ⟨f, hand⟩
    cases f with
    | flush => exact Or.inl (Or.inl (Or.inl hand))
    | fua => exact Or.inl (Or.inl (Or.inr hand))
    | discard => exact Or.inl (Or.inr hand)
    | secure => exact Or.inr hand

/-! ## The packet of a create -/

/-- A packet has all that was given, but for the size: the last name, which ends in its field, the
last block size, and the bits of the features, and no others. -/
structure CarriesGiven (opts : List Key) (packet : List UInt8) : Prop where
  whole : packet.length = bdtunCommSize ∧ packet.headD 0 = bdtunCommCreate
  name : ∃ arg rest, last Key.name? opts = some arg ∧
    packetName packet 20 = arg.bytes ++ 0 :: rest ∧ (arg.bytes ++ 0 :: rest).length = 32
  blocksize : ∃ arg, last Key.bsize? opts = some arg ∧ Denotes arg.bytes (unionWord packet 0 8)
  capabilities : ∀ i, (unionWord packet 16 4).testBit i = true ↔
    ∃ f, Feature.key f ∈ opts ∧ (Feature.bit f).getLsbD i = true

/-- And the last size. -/
def CarriesSize (opts : List Key) (packet : List UInt8) : Prop :=
  ∃ arg, last Key.size? opts = some arg ∧ Denotes arg.bytes (unionWord packet 8 8)

/-- The kernel's checks let a packet through. -/
structure Accepted (packet : List UInt8) : Prop where
  checks : createCheck (unionWord packet 0 8) (unionWord packet 8 8) = .ok ()
  answer : ∀ (s : Ctrl) (k : Answers) (frame : CreateFrame), ∃ r,
    Raw.ctrlWrite s packet k frame = some r ∧ r.2 ≠ .ret (-einval)

/-- The last size is a negative number. -/
def NegativeSize (opts : List Key) : Prop :=
  ∃ arg n, last Key.size? opts = some arg ∧ Denotes arg.bytes n ∧ n < 0

theorem accepted_of_good {packet : List UInt8} (hlen : packet.length = bdtunCommSize)
    (hhead : packet.headD 0 = bdtunCommCreate) {n : DiskName} {rest : List UInt8}
    (hfield : packetName packet 20 = n.bytes ++ 0 :: rest)
    (hgood : GoodSizes (unionWord packet 0 8) (unionWord packet 8 8)) : Accepted packet := by
  have hcheck := createCheck_ok.mpr hgood
  refine ⟨hcheck, fun s k frame => ?_⟩
  have hdecode : decode packet = some (.create n (UInt64.ofNat (unionWord packet 0 8))
      (UInt64.ofNat (unionWord packet 8 8)) (BitVec.ofNat 32 (unionWord packet 16 4))) := by
    unfold decode
    rw [if_pos hhead, hfield, DiskName.read_string]
    rfl
  refine ⟨_, raw_string s k frame hlen.ge hdecode, ?_⟩
  rw [ctrlWrite_long s _ k hlen.ge]
  simp only [toNat_unionWord]
  have hcases := create_cases s n (unionWord packet 0 8) (unionWord packet 8 8)
    (BitVec.ofNat 32 (unionWord packet 16 4)) k
  generalize bdtunCreateK s n (unionWord packet 0 8) (unionWord packet 8 8)
    (BitVec.ofNat 32 (unionWord packet 16 4)) k = res at hcases
  cases hcases with
  | «exists» h =>
    rw [done_error _ _ (by decide)]
    exact fun heq => absurd (CtrlRet.ret.inj heq) (by decide)
  | invalid h hc =>
    rw [hcheck] at hc
    cases hc
  | failed h hc hp code hneg hcode =>
    rw [done_error _ _ hneg]
    exact fun heq => hcode.2 (CtrlRet.ret.inj heq)
  | noDisk h hc new queue major chNum hp hgd =>
    rw [done_error _ _ (by decide)]
    exact fun heq => absurd (CtrlRet.ret.inj heq) (by decide)
  | noWork h hc hp hgd hw s' => exact fun heq => by cases heq
  | created h hc new queue major chNum gd w hp hgd hw hnew => exact fun heq => by cases heq

omit [Kernel] in
/-- What is known of `struct arguments` when parsing ends. -/
theorem argpParse_ok {opts : List Key} {args : Arguments} (h : argpParse opts = .ok args) :
    Parsed opts args ∧ (args.command = .create →
      args.name ≠ none ∧ args.size ≠ 0 ∧ args.blocksize ≠ 0 ∧ args.size % args.blocksize = 0) ∧
    (args.command = .resize → args.name ≠ none ∧ args.size ≠ 0) := by
  obtain ⟨args₁, hparse, hlast⟩ := parse_concat.mp h
  obtain ⟨rfl, hcomplete⟩ := parseSuccess_ok hlast
  exact ⟨parsed hparse, hcomplete⟩

omit [Kernel] in
/-- An option whose number is not zero was given. -/
theorem Stored.given {limits : UInt64 → Prop} {given : Option ArgString} {v : UInt64}
    (h : Stored limits given v) (hv : v ≠ 0) : ∃ arg n, given = some arg ∧ Denotes arg.bytes n ∧
      v = toUint64 (saturate 64 n) ∧ limits v := by
  cases given with
  | none => exact absurd h hv
  | some arg =>
    obtain ⟨n, hn⟩ := h
    exact ⟨arg, n, rfl, hn⟩

omit [Kernel] in
/-- The block size that is stored is the last one given. -/
theorem Parsed.blocksize_exact {opts : List Key} {args : Arguments} (h : Parsed opts args)
    (hbsize : args.blocksize ≠ 0) : BsizeLimits args.blocksize ∧
      ∃ arg, last Key.bsize? opts = some arg ∧ Denotes arg.bytes args.blocksize.toNat := by
  obtain ⟨arg, n, hgiven, hn, hv, hlimits⟩ := h.blocksize.given hbsize
  refine ⟨hlimits, arg, hgiven, ?_⟩
  rwa [stored_bsize hv hlimits]

/-- The size that is stored is the last one given, unless that is negative. -/
theorem Parsed.size_exact {opts : List Key} {args : Arguments} (h : Parsed opts args)
    (hsize : args.size ≠ 0) {blocksize : Nat} (hgood : GoodSizes blocksize args.size.toNat) :
    (∃ arg, last Key.size? opts = some arg ∧ Denotes arg.bytes args.size.toNat) ↔
      ¬ NegativeSize opts := by
  obtain ⟨arg, n, hgiven, hn, hv, -⟩ := h.size.given hsize
  constructor
  · rintro ⟨arg₁, hlast₁, hden₁⟩ ⟨arg₂, n₂, hlast₂, hden₂, hneg⟩
    obtain rfl := Option.some.inj (hlast₁.symm.trans hlast₂)
    rw [← hden₁.unique hden₂] at hneg
    omega
  · intro hnot
    refine ⟨arg, hgiven, ?_⟩
    rcases stored_cases hv with ⟨hneg, -⟩ | ⟨-, hodd⟩ | ⟨-, heq⟩
    · exact absurd ⟨arg, n, hgiven, hn, hneg⟩ hnot
    · -- no multiple of a block size is odd
      have hdvd := hgood.sectors.trans hgood.multiple
      rw [hodd] at hdvd
      exact absurd hdvd (by decide)
    · rwa [heq]

omit [Kernel] in
/-- A name that is short enough is followed by zeros in its field. -/
theorem take_zeros {name : List UInt8} (h : name.length ≤ 31) :
    (name ++ List.replicate 32 0).take 32 = name ++ 0 :: List.replicate (31 - name.length) 0 := by
  have hsucc : min (32 - name.length) 32 = (31 - name.length) + 1 := by omega
  rw [List.take_append, List.take_of_length_le (by omega), List.take_replicate, hsucc,
    List.replicate_succ]

/-- **Creates from the command line.**  When parsing ends with the create command, `bdtun_create`
writes a packet with the last name, which ends in its 32 bytes, the last block size and the features
that were given; the kernel's checks let it through and it is not answered with `-EINVAL`.  Its size
is the last one given exactly when that is not a negative number. -/
theorem create_validated {opts : List Key} {args : Arguments} (h : argpParse opts = .ok args)
    (hc : args.command = .create) : ∃ packet, mainCreate args = some packet ∧
      CarriesGiven opts packet ∧ Accepted packet ∧
      (CarriesSize opts packet ↔ ¬ NegativeSize opts) := by
  obtain ⟨hparsed, hcreate, -⟩ := argpParse_ok h
  obtain ⟨hname, hsize, hbsize, hmod⟩ := hcreate hc
  obtain ⟨name, hargs⟩ := Option.ne_none_iff_exists'.mp hname
  have hfits := hparsed.nameFits name hargs
  obtain ⟨hlimits, hblock⟩ := hparsed.blocksize_exact hbsize
  have hgood := goodSizes_of_limits hlimits hmod
  obtain ⟨packet, hpacket, hlen, hhead, hpb, hps, hpc, hfield⟩ :=
    create_packet name.noNul args.blocksize args.size (mainCapabilities args)
  rw [take_zeros hfits] at hfield
  refine ⟨packet, by rw [mainCreate, hargs]; exact hpacket, ?_, ?_, ?_⟩
  · constructor
    · exact ⟨hlen, hhead⟩
    · refine ⟨name, _, hparsed.name ▸ hargs, hfield, ?_⟩
      simp
      omega
    · rw [hpb]
      exact hblock
    · intro i
      rw [hpc]
      show (mainCapabilities args).getLsbD i = true ↔ _
      rw [getLsbD_mainCapabilities]
      simp only [hparsed.req]
  · rw [← hpb, ← hps] at hgood
    exact accepted_of_good (n := ⟨name.bytes, name.noNul, hfits⟩) hlen hhead hfield hgood
  · unfold CarriesSize
    rw [hps]
    exact hparsed.size_exact hsize hgood

end

/-! ## Two command lines -/

section
attribute [local instance] linux32

/-- The string of a literal. -/
def argString (s : String) : ArgString where
  bytes := string 0 (cLiteral s.toList none)
  noNul := notMem_string _

/-- `--req-flush -b 512 -n disk -s 512 -s +1048576` -/
theorem create_validated_sample :
    let opts := [.flush, .bsize (argString "512"), .name (argString "disk"),
      .size (argString "512"), .size (argString "+1048576")]
    ∃ packet, CarriesGiven opts packet ∧ CarriesSize opts packet ∧ Accepted packet := by
  intro opts
  have hparse : argpParse opts = .ok
      { Arguments.zero with
        name := some (argString "disk"), size := 1048576, blocksize := 512, reqFlush := true } := by
    decide
  obtain ⟨packet, -, hgiven, haccepted, hsize⟩ := create_validated hparse rfl
  refine ⟨packet, hgiven, hsize.mpr ?_, haccepted⟩
  rintro ⟨arg, n, harg, hden, hneg⟩
  obtain rfl := Option.some.inj harg
  have hvalue : Denotes (argString "+1048576").bytes 1048576 := denotes_iff.mpr (by decide)
  rw [hden.unique hvalue] at hneg
  exact absurd hneg (by decide)

/-- `-n a -s -512 -b 512` asks for a disk of `2 ^ 64 - 512` bytes. -/
theorem negative_size : ¬ ∀ (opts : List Key) (args : Arguments), argpParse opts = .ok args →
    args.command = .create → ∃ packet, mainCreate args = some packet ∧
      CarriesGiven opts packet ∧ CarriesSize opts packet ∧ Accepted packet := by
  intro h
  have hparse : argpParse [.name (argString "a"), .size (argString "-512"),
      .bsize (argString "512")] = .ok
      { Arguments.zero with
        name := some (argString "a"), size := toUint64 (-512), blocksize := 512 } := by
    decide
  obtain ⟨packet, hpacket, -, ⟨arg, harg, hden⟩, -⟩ := h _ _ hparse rfl
  obtain ⟨packet', hpacket', -, -, -, hsize, -⟩ :=
    create_packet (argString "a").noNul 512 (toUint64 (-512)) 0
  obtain rfl := Option.some.inj (hpacket'.symm.trans hpacket)
  obtain rfl := Option.some.inj harg
  have hneg : Denotes (argString "-512").bytes (-512) := denotes_iff.mpr (by decide)
  have hvalue : (toUint64 (-512)).toNat = 2 ^ 64 - 512 := by decide
  have heq := hden.unique hneg
  rw [hsize, hvalue] at heq
  exact absurd heq (by decide)

end

end BDTun
