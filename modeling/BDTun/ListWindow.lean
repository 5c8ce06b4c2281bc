import BDTun.Lib.Window
import BDTun.Listing

/-!
# The window of `bdtun_list_k`

The loop of `bdtun_list_k` has three bounds: it skips `offset` devices, takes so
many names, and stops before the buffer is full.  What it should write is a
`Window` of the device list (`ListsWindow`); the test of the count is `>`, so the
window it writes has room for one name more (`encodedNames_eq`).

* `list_window`: it writes what it should exactly when that name is not there or
  does not fit (`Overshoots`).
-/

namespace BDTun

open Memory Window

/-- The bytes of a device in a list. -/
def Device.nameSize (d : Device) : Nat := d.diskName.bytes.length + 1

/-- The names of devices, with their terminators. -/
def windowBytes (w : List Device) : List UInt8 := encoding (w.map Device.diskName)

theorem length_windowBytes (w : List Device) :
    (windowBytes w).length = total Device.nameSize w := by
  induction w with
  | nil => rfl
  | cons d w ih =>
    have hrest : (encoding (w.map Device.diskName)).length = total Device.nameSize w := ih
    rw [windowBytes, List.map_cons, encoding_cons, List.length_append, List.length_cons, hrest,
      total_cons, Device.nameSize]
    omega

/-- What `bdtun_list_k` writes, as a window: one name more than the smaller of the limits. -/
theorem encodedNames_eq (bufsize maxdevicesInternal maxdevices : Nat) (l : List Device)
    (offset i bufpos : Nat) (h : bufpos ≤ bufsize) :
    encodedNames bufsize maxdevicesInternal maxdevices l offset i bufpos =
      (longest Device.nameSize (min maxdevices maxdevicesInternal + 1 - i) (bufsize - bufpos)
        (l.drop offset)).map Device.diskName := by
  induction l generalizing offset i bufpos with
  | nil => simp [encodedNames, longest]
  | cons entry rest ih =>
    cases offset with
    | succ offset => exact ih offset i bufpos h
    | zero =>
      simp only [encodedNames, List.drop_zero]
      by_cases hcount : i > maxdevices ∨ i > maxdevicesInternal
      · have hnone : min maxdevices maxdevicesInternal + 1 - i = 0 := by omega
        rw [if_pos hcount, hnone]
        rfl
      · obtain ⟨n, hn⟩ : ∃ n, min maxdevices maxdevicesInternal + 1 - i = n + 1 :=
          ⟨min maxdevices maxdevicesInternal - i, by omega⟩
        rw [if_neg hcount, hn, longest]
        by_cases hfits : bufpos + (entry.diskName.bytes.length + 1) > bufsize
        · have hnot : ¬ entry.nameSize ≤ bufsize - bufpos := by
            unfold Device.nameSize
            omega
          rw [if_pos hfits, if_neg hnot]
          rfl
        · have hin : entry.nameSize ≤ bufsize - bufpos := by
            unfold Device.nameSize
            omega
          have hless : min maxdevices maxdevicesInternal + 1 - (i + 1) = n := by omega
          have hleft : bufsize - (bufpos + (entry.diskName.bytes.length + 1)) =
              bufsize - bufpos - entry.nameSize := by
            unfold Device.nameSize
            omega
          have hrest := ih 0 (i + 1) (bufpos + (entry.diskName.bytes.length + 1)) (by omega)
          rw [if_neg hfits, if_pos hin, hrest, hless, hleft, List.map_cons, List.drop_zero]

/-- The loop copies its names to `buf + bufpos` and on, and nothing anywhere else. -/
theorem listLoop_memcpy (bufsize maxdevicesInternal maxdevices : Nat) (l : List Device)
    (offset i bufpos : Nat) (buf : Nat → UInt8) :
    (listLoop bufsize maxdevicesInternal maxdevices l offset i bufpos buf).1 =
      memcpy buf bufpos
        (encoding (encodedNames bufsize maxdevicesInternal maxdevices l offset i bufpos)) := by
  have hnone : ∀ (pos : Nat) (buf : Nat → UInt8), buf = memcpy buf pos (encoding []) :=
    fun _ _ => rfl
  induction l generalizing offset i bufpos buf with
  | nil => exact hnone bufpos buf
  | cons entry rest ih =>
    cases offset with
    | succ offset => exact ih offset i bufpos buf
    | zero =>
      simp only [encodedNames, listLoop]
      split
      · exact hnone bufpos buf
      · split
        · exact hnone bufpos buf
        · have hlen : (entry.diskName.bytes ++ [0]).length = entry.diskName.bytes.length + 1 :=
            List.length_append
          rw [ih 0 (i + 1), encoding_cons]
          have hsplit : entry.diskName.bytes ++ 0 :: encoding (encodedNames bufsize
              maxdevicesInternal maxdevices rest 0 (i + 1)
              (bufpos + (entry.diskName.bytes.length + 1))) =
              (entry.diskName.bytes ++ [0]) ++ encoding (encodedNames bufsize maxdevicesInternal
                maxdevices rest 0 (i + 1) (bufpos + (entry.diskName.bytes.length + 1))) := by
            simp
          rw [hsplit, ← hlen, memcpy_append]

/-- What `bdtun_list_k` is for: the names of the longest prefix of the devices behind `offset` that
has no more names than either limit and fits the buffer, at its start; their bytes are counted, and
no byte behind them is written. -/
def ListsWindow (l : List Device) (buf : Nat → UInt8) (bufsize maxdevicesInternal offset
    maxdevices : Nat) : Prop :=
  ∃ w, IsLongest Device.nameSize (min maxdevices maxdevicesInternal) bufsize (l.drop offset) w ∧
    bdtunListK l buf bufsize maxdevicesInternal offset maxdevices =
      (memcpy buf 0 (windowBytes w), (windowBytes w).length) ∧
    ∀ i, bufsize ≤ i → (bdtunListK l buf bufsize maxdevicesInternal offset maxdevices).1 i = buf i

/-- There is a name behind those the limits allow, and all of them fit. -/
def Overshoots (l : List Device) (bufsize maxdevicesInternal offset maxdevices : Nat) : Prop :=
  min maxdevices maxdevicesInternal < (l.drop offset).length ∧
    total Device.nameSize ((l.drop offset).take (min maxdevices maxdevicesInternal + 1)) ≤ bufsize

/-- What `bdtun_list_k` does, for all arguments. -/
theorem bdtunListK_eq (l : List Device) (buf : Nat → UInt8) (bufsize maxdevicesInternal offset
    maxdevices : Nat) :
    let w := longest Device.nameSize (min maxdevices maxdevicesInternal + 1) bufsize (l.drop offset)
    bdtunListK l buf bufsize maxdevicesInternal offset maxdevices =
      (memcpy buf 0 (windowBytes w), (windowBytes w).length) := by
  have hnames := encodedNames_eq bufsize maxdevicesInternal maxdevices l offset 0 0 (Nat.zero_le _)
  have hbuf := listLoop_memcpy bufsize maxdevicesInternal maxdevices l offset 0 0 buf
  have hpos := (listLoop_eq bufsize maxdevicesInternal maxdevices l offset 0 0 buf).1
  rw [Nat.sub_zero, Nat.sub_zero] at hnames
  rw [hnames] at hbuf hpos
  rw [Nat.zero_add] at hpos
  exact Prod.ext hbuf hpos

/-- **The window.**  For every device list, buffer size, limits and offset, `bdtun_list_k` writes and
counts what it should exactly when there is no name behind those that the limits allow, or that
name does not fit.  (`bufpos + len` stays below `bufsize + 33`, so `int` holds it.) -/
theorem list_window (l : List Device) (buf : Nat → UInt8) (bufsize maxdevicesInternal offset
    maxdevices : Nat) :
    ListsWindow l buf bufsize maxdevicesInternal offset maxdevices ↔
      ¬ Overshoots l bufsize maxdevicesInternal offset maxdevices := by
  have heq := bdtunListK_eq l buf bufsize maxdevicesInternal offset maxdevices
  have hmore := longest_spec Device.nameSize (min maxdevices maxdevicesInternal + 1) bufsize
    (l.drop offset)
  have hspec := longest_spec Device.nameSize (min maxdevices maxdevicesInternal) bufsize
    (l.drop offset)
  have hsucc := longest_succ Device.nameSize (min maxdevices maxdevicesInternal) bufsize
    (l.drop offset)
  rw [Overshoots, ← hsucc]
  simp only at heq
  constructor
  · rintro ⟨w, hw, hlist, -⟩
    rw [hw.unique hspec, heq] at hlist
    -- the bytes that are counted tell the windows apart
    have hbytes : total Device.nameSize (longest Device.nameSize
        (min maxdevices maxdevicesInternal + 1) bufsize (l.drop offset)) =
        total Device.nameSize (longest Device.nameSize (min maxdevices maxdevicesInternal) bufsize
          (l.drop offset)) := by
      rw [← length_windowBytes, ← length_windowBytes]
      exact congrArg Prod.snd hlist
    have hpos : ∀ d : Device, 0 < d.nameSize := fun d => Nat.succ_pos _
    rcases List.prefix_or_prefix_of_prefix hmore.front hspec.front with hle | hge
    · exact eq_of_total_eq hpos hle hbytes
    · exact (eq_of_total_eq hpos hge hbytes.symm).symm
  · intro hsame
    refine ⟨_, hspec, ?_, ?_⟩
    · rw [heq, hsame]
    · intro i hi
      rw [heq]
      apply memcpy_of_notMem
      rw [length_windowBytes]
      have := hmore.fits
      omega

section
attribute [local instance] linux32

/-- The devices "A" and "B". -/
def sampleDevices : List Device :=
  [newDevice 4096 8192 253 262144000 12288 (letter 0) 512 1024 0,
    newDevice 20480 24576 253 262144001 28672 (letter 1) 512 1024 0]

/-- Two devices, of which one is asked for. -/
theorem window_overshoots : ¬ ∀ (l : List Device) (buf : Nat → UInt8) (bufsize maxdevicesInternal
    offset maxdevices : Nat), ListsWindow l buf bufsize maxdevicesInternal offset maxdevices := by
  intro h
  obtain ⟨w, hw, hlist, -⟩ := h sampleDevices (fun _ => 0) 1024 32 0 1
  have hcount : 4 = (windowBytes w).length := congrArg Prod.snd hlist
  have hfront : w = sampleDevices.take w.length := List.prefix_iff_eq_take.mp hw.front
  have hfew : w.length = 0 ∨ w.length = 1 := by
    have : w.length ≤ 1 := hw.few
    omega
  rcases hfew with hnone | hone
  · rw [hfront, hnone] at hcount
    exact absurd hcount (by decide)
  · rw [hfront, hone] at hcount
    exact absurd hcount (by decide)

end

end BDTun
