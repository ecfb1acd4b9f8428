import Mathlib.Data.List.Induction
import Mathlib.Tactic.IntervalCases
import PodFirmware.Lib.Bytes
import PodFirmware.Lib.Machine
import PodFirmware.Pod

/-!
# PodFirmware.Frame

`telemetry_buffer`: the telemetry fields as they lie in memory and go out on the wire. A field is
set through a pointer into the buffer, in network byte order; the processor is little-endian.

* `Field.offset`, `Field.kind`: the layout.
* `TelemetryBuffer.get_set`: a field is read back as it was set, truncated, and no other is touched.
* `toTelemetry_step`: the record that the other modules work on is what the buffer holds.
* `telemetryStore`: what the fields, the limit bits and both frames hold after any sequence of
  operations.
-/

namespace PodFirmware

open Bytes

/-! ## Byte order -/

/-- `lwip_htons`, and `lwip_ntohs`. -/
def lwipHtons (n : UInt16) : UInt16 := (n &&& 0xff) <<< 8 ||| (n &&& 0xff00) >>> 8

/-- `lwip_htonl`, and `lwip_ntohl`. -/
def lwipHtonl (n : UInt32) : UInt32 :=
  (n &&& 0xff) <<< 24 ||| (n &&& 0xff00) <<< 8 ||| (n &&& 0xff0000) >>> 8 |||
    (n &&& 0xff000000) >>> 24

theorem byte_lwipHtons (n : UInt16) {k : Nat} (hk : k < 2) :
    (lwipHtons n >>> UInt16.ofNat (8 * k)).toUInt8 =
      (n >>> UInt16.ofNat (8 * (1 - k))).toUInt8 := by
  apply UInt8.toBitVec_inj.mp
  interval_cases k
  all_goals
    ext i hi
    interval_cases i <;> simp [lwipHtons]

theorem byte_lwipHtonl (n : UInt32) {k : Nat} (hk : k < 4) :
    (lwipHtonl n >>> UInt32.ofNat (8 * k)).toUInt8 =
      (n >>> UInt32.ofNat (8 * (3 - k))).toUInt8 := by
  apply UInt8.toBitVec_inj.mp
  interval_cases k
  all_goals
    ext i hi
    interval_cases i <;> simp [lwipHtonl]

theorem littleEndian_half (n : UInt16) :
    littleEndian 2 n.toNat =
      [(n >>> UInt16.ofNat (8 * 0)).toUInt8, (n >>> UInt16.ofNat (8 * 1)).toUInt8] := by
  simp only [littleEndian, List.cons.injEq, and_true]
  refine ⟨UInt8.toNat_inj.mp ?_, UInt8.toNat_inj.mp ?_⟩ <;>
    simp [Nat.shiftRight_eq_div_pow]

theorem littleEndian_word (n : UInt32) :
    littleEndian 4 n.toNat =
      [(n >>> UInt32.ofNat (8 * 0)).toUInt8, (n >>> UInt32.ofNat (8 * 1)).toUInt8,
        (n >>> UInt32.ofNat (8 * 2)).toUInt8, (n >>> UInt32.ofNat (8 * 3)).toUInt8] := by
  simp only [littleEndian, List.cons.injEq, and_true]
  refine ⟨UInt8.toNat_inj.mp ?_, UInt8.toNat_inj.mp ?_, UInt8.toNat_inj.mp ?_,
    UInt8.toNat_inj.mp ?_⟩ <;>
    simp [Nat.shiftRight_eq_div_pow, Nat.div_div_eq_div_mul]

/-- A half-word stored in network order lies in memory with its high byte first. -/
theorem littleEndian_lwipHtons (n : UInt16) :
    littleEndian 2 (lwipHtons n).toNat = bigEndian 2 n.toNat := by
  rw [bigEndian, littleEndian_half, littleEndian_half, byte_lwipHtons n (by decide),
    byte_lwipHtons n (by decide)]
  rfl

/-- A word stored in network order lies in memory with its high byte first. -/
theorem littleEndian_lwipHtonl (n : UInt32) :
    littleEndian 4 (lwipHtonl n).toNat = bigEndian 4 n.toNat := by
  rw [bigEndian, littleEndian_word, littleEndian_word, byte_lwipHtonl n (by decide),
    byte_lwipHtonl n (by decide), byte_lwipHtonl n (by decide), byte_lwipHtonl n (by decide)]
  rfl

/-! ## Layout -/

inductive Field where
  | teamId | status | acceleration | position | velocity | vBatt | iBatt | tBatt | tPod | sCount
  | pAmb | prP1 | prP2 | brP1 | brP2 | brP3 | stoppingDistance | percentage | timeRemaining
  deriving DecidableEq, Repr

/-- The types of the fields: `uint8_t`, `uint16_t`, `int`, `uint32_t`. -/
inductive Kind where
  | u8 | u16 | i32 | u32
  deriving DecidableEq, Repr

def Kind.width : Kind → Nat
  | .u8 => 1
  | .u16 => 2
  | .i32 => 4
  | .u32 => 4

/-- The value of a field of this type that is given the value `v`. -/
def Kind.truncate (v : Int) : Kind → Int
  | .u8 => v % 2 ^ 8
  | .u16 => v % 2 ^ 16
  | .i32 => Int.bmod v (2 ^ 32)
  | .u32 => v % 2 ^ 32

/-- The number as which the value `v` lies in memory. -/
def Kind.image (v : Int) (k : Kind) : Nat := (v % 256 ^ k.width).toNat

theorem Kind.image_lt (v : Int) (k : Kind) : k.image v < 256 ^ k.width := by
  cases k <;> simp only [Kind.image, Kind.width] <;> omega

theorem Kind.truncate_image (v : Int) (k : Kind) : k.truncate (k.image v) = k.truncate v := by
  cases k with
  | i32 =>
    have hnat : ((Kind.i32.image v : Nat) : Int) = v % (2 ^ 32 : Nat) := by
      simp only [Kind.image, Kind.width]
      omega
    rw [hnat]
    exact Int.emod_bmod v _
  | u8 | u16 | u32 =>
    simp only [Kind.image, Kind.truncate, Kind.width]
    omega

theorem Kind.image_truncate {n : Nat} {k : Kind} (h : n < 256 ^ k.width) :
    k.image (k.truncate n) = n := by
  cases k with
  | i32 =>
    have hmod : Int.bmod n (2 ^ 32) % (2 ^ 32 : Nat) = n % (2 ^ 32 : Nat) := Int.bmod_emod
    simp only [Kind.image, Kind.truncate, Kind.width] at h ⊢
    omega
  | u8 | u16 | u32 =>
    simp only [Kind.image, Kind.truncate, Kind.width] at h ⊢
    omega

namespace Field

def offset : Field → Nat
  | .teamId => 0
  | .status => 1
  | .acceleration => 2
  | .position => 6
  | .velocity => 10
  | .vBatt => 14
  | .iBatt => 18
  | .tBatt => 22
  | .tPod => 26
  | .sCount => 30
  | .pAmb => 34
  | .prP1 => 36
  | .prP2 => 38
  | .brP1 => 40
  | .brP2 => 42
  | .brP3 => 44
  | .stoppingDistance => 47
  | .percentage => 51
  | .timeRemaining => 55

def kind : Field → Kind
  | .teamId | .status => .u8
  | .acceleration | .position | .velocity | .vBatt | .iBatt | .tBatt | .tPod => .i32
  | .sCount => .u32
  | .pAmb | .prP1 | .prP2 | .brP1 | .brP2 | .brP3 => .u16
  | .stoppingDistance => .i32
  | .percentage | .timeRemaining => .u32

def width (f : Field) : Nat := f.kind.width

end Field

/-- Where `lim_states` lies. -/
def limOffset : Nat := 46

/-- The limit switch bits. -/
inductive Limit where
  | plim1 | plim2 | blim1 | blim2 | dlim
  deriving DecidableEq, Repr

def Limit.mask : Limit → UInt8
  | .plim1 => Telemetry.plim1
  | .plim2 => Telemetry.plim2
  | .blim1 => Telemetry.blim1
  | .blim2 => Telemetry.blim2
  | .dlim => Telemetry.dlim

def spacexpSiz : Nat := 34
def dashboardpSiz : Nat := 59

theorem Field.fits (f : Field) : f.offset + f.width ≤ dashboardpSiz := by
  cases f <;> decide

theorem Field.apart {f g : Field} (h : f ≠ g) :
    g.offset + g.width ≤ f.offset ∨ f.offset + f.width ≤ g.offset := by
  revert h
  cases f <;> cases g <;> decide

theorem Field.apart_lim (f : Field) :
    limOffset + 1 ≤ f.offset ∨ f.offset + f.width ≤ limOffset := by
  cases f <;> decide

/-- `telemetry_buffer`. -/
structure TelemetryBuffer where
  bytes : List UInt8
  size : bytes.length = dashboardpSiz

namespace TelemetryBuffer

/-! ## Access -/

/-- A store of `bs` at `&telemetry_buffer[a]`. -/
def store (b : TelemetryBuffer) (a : Nat) (bs : List UInt8) (h : a + bs.length ≤ dashboardpSiz) :
    TelemetryBuffer :=
  ⟨splice b.bytes a bs, by rw [length_splice (by rw [b.size]; exact h), b.size]⟩

def load8 (b : TelemetryBuffer) (a : Nat) : UInt8 :=
  UInt8.ofNat (ofLittleEndian (slice b.bytes a 1))

def load16 (b : TelemetryBuffer) (a : Nat) : UInt16 :=
  UInt16.ofNat (ofLittleEndian (slice b.bytes a 2))

def load32 (b : TelemetryBuffer) (a : Nat) : UInt32 :=
  UInt32.ofNat (ofLittleEndian (slice b.bytes a 4))

/-- The bytes that the `SET_` macro of a field of this type stores. -/
def encode (v : Int) : Kind → List UInt8
  | .u8 => littleEndian 1 (UInt8.ofInt v).toNat
  | .u16 => littleEndian 2 (lwipHtons (UInt16.ofInt v)).toNat
  | .i32 => littleEndian 4 (lwipHtonl (UInt32.ofInt v)).toNat
  | .u32 => littleEndian 4 (lwipHtonl (UInt32.ofInt v)).toNat

theorem length_encode (v : Int) (k : Kind) : (encode v k).length = k.width := by
  cases k <;> exact length_littleEndian _ _

/-- `SET_ACCEL` and its siblings, and the assignment of `team_id`. -/
def set (b : TelemetryBuffer) (f : Field) (v : Int) : TelemetryBuffer :=
  b.store f.offset (encode v f.kind) (by rw [length_encode]; exact f.fits)

/-- `GET_PAMP` and its siblings. -/
def getU16 (b : TelemetryBuffer) (f : Field) : UInt16 := lwipHtons (b.load16 f.offset)

/-- `GET_SCOUNT`. -/
def getU32 (b : TelemetryBuffer) (f : Field) : UInt32 := lwipHtonl (b.load32 f.offset)

/-- `GET_ACCEL` and its siblings. -/
def getI32 (b : TelemetryBuffer) (f : Field) : Int32 := (lwipHtonl (b.load32 f.offset)).toInt32

/-- The value that a field reads as. -/
def get (b : TelemetryBuffer) (f : Field) : Int :=
  match f.kind with
  | .u8 => (b.load8 f.offset).toNat
  | .u16 => (b.getU16 f).toNat
  | .i32 => (b.getI32 f).toInt
  | .u32 => (b.getU32 f).toNat

def limStates (b : TelemetryBuffer) : UInt8 := b.load8 limOffset

/-- `GET_PLIM1` and its siblings. -/
def getLim (b : TelemetryBuffer) (l : Limit) : Bool := b.limStates &&& l.mask != 0

def storeLimStates (b : TelemetryBuffer) (x : UInt8) : TelemetryBuffer :=
  b.store limOffset [x] (by simp [limOffset, dashboardpSiz])

/-- `SET_PLIM1` and its siblings. -/
def setLim (b : TelemetryBuffer) (l : Limit) : TelemetryBuffer :=
  b.storeLimStates (b.limStates ||| l.mask)

/-- `CLR_PLIM1` and its siblings. -/
def clrLim (b : TelemetryBuffer) (l : Limit) : TelemetryBuffer :=
  b.storeLimStates (b.limStates &&& ~~~l.mask)

/-- What `send_telemetry_to_SpaceX` copies into the packet. -/
def spacexFrame (b : TelemetryBuffer) : List UInt8 := b.bytes.take spacexpSiz

/-- What `send_telemetry_to_Dashboard` copies into the packet. -/
def dashboardFrame (b : TelemetryBuffer) : List UInt8 := b.bytes.take dashboardpSiz

/-! ## Encoding -/

theorem encode_eq (v : Int) (k : Kind) : encode v k = bigEndian k.width (k.image v) := by
  cases k with
  | u8 =>
    have hv : (UInt8.ofInt v).toNat = Kind.u8.image v := by
      simp only [UInt8.ofInt, UInt8.toNat_ofNat', Kind.image, Kind.width]
      omega
    rw [encode, hv]
    rfl
  | u16 =>
    have hv : (UInt16.ofInt v).toNat = Kind.u16.image v := by
      simp only [UInt16.ofInt, UInt16.toNat_ofNat', Kind.image, Kind.width]
      omega
    rw [encode, littleEndian_lwipHtons, hv]
    rfl
  | i32 =>
    have hv : (UInt32.ofInt v).toNat = Kind.i32.image v := by
      simp only [UInt32.ofInt, UInt32.toNat_ofNat', Kind.image, Kind.width]
      omega
    rw [encode, littleEndian_lwipHtonl, hv]
    rfl
  | u32 =>
    have hv : (UInt32.ofInt v).toNat = Kind.u32.image v := by
      simp only [UInt32.ofInt, UInt32.toNat_ofNat', Kind.image, Kind.width]
      omega
    rw [encode, littleEndian_lwipHtonl, hv]
    rfl

theorem toNat_lwipHtons {bs : List UInt8} (h : bs.length = 2) :
    (lwipHtons (UInt16.ofNat (ofLittleEndian bs))).toNat = ofBigEndian bs := by
  have hlt := ofLittleEndian_lt bs
  rw [h] at hlt
  have hbs : bigEndian 2 (ofLittleEndian bs) = bs.reverse := by
    rw [bigEndian, ← h, littleEndian_ofLittleEndian]
  have hround := littleEndian_lwipHtons (UInt16.ofNat (ofLittleEndian bs))
  rw [UInt16.toNat_ofNat', Nat.mod_eq_of_lt (by omega), hbs] at hround
  rw [ofBigEndian, ← hround, ofLittleEndian_littleEndian]
  exact (Nat.mod_eq_of_lt (UInt16.toNat_lt _)).symm

theorem toNat_lwipHtonl {bs : List UInt8} (h : bs.length = 4) :
    (lwipHtonl (UInt32.ofNat (ofLittleEndian bs))).toNat = ofBigEndian bs := by
  have hlt := ofLittleEndian_lt bs
  rw [h] at hlt
  have hbs : bigEndian 4 (ofLittleEndian bs) = bs.reverse := by
    rw [bigEndian, ← h, littleEndian_ofLittleEndian]
  have hround := littleEndian_lwipHtonl (UInt32.ofNat (ofLittleEndian bs))
  rw [UInt32.toNat_ofNat', Nat.mod_eq_of_lt (by omega), hbs] at hround
  rw [ofBigEndian, ← hround, ofLittleEndian_littleEndian]
  exact (Nat.mod_eq_of_lt (UInt32.toNat_lt _)).symm

/-! ## Reading back -/

section Access

variable (b : TelemetryBuffer) {f g : Field}

/-- The bytes of a field. -/
def bytesOf (f : Field) : List UInt8 := slice b.bytes f.offset f.width

theorem length_bytesOf (f : Field) : (b.bytesOf f).length = f.width :=
  length_slice (by rw [b.size]; exact f.fits)

/-- A field reads as what its bytes say in network order. -/
theorem get_eq (f : Field) : b.get f = f.kind.truncate (ofBigEndian (b.bytesOf f)) := by
  have hlen := b.length_bytesOf f
  unfold get bytesOf Field.width at *
  cases hk : f.kind with
  | u8 =>
    rw [hk] at hlen
    obtain ⟨x, hx⟩ := List.length_eq_one_iff.mp hlen
    simp only [Kind.width] at hx ⊢
    have := x.toNat_lt
    simp only [load8, hx, ofBigEndian, List.reverse_singleton, ofLittleEndian, Kind.truncate,
      UInt8.toNat_ofNat']
    omega
  | u16 =>
    rw [hk] at hlen
    have hn := toNat_lwipHtons hlen
    have := UInt16.toNat_lt (lwipHtons (UInt16.ofNat (ofLittleEndian (slice b.bytes f.offset 2))))
    simp only [Kind.width] at hn ⊢
    rw [hn] at this
    simp only [getU16, load16, hn, Kind.truncate]
    omega
  | i32 =>
    rw [hk] at hlen
    have hn := toNat_lwipHtonl hlen
    simp only [Kind.width] at hn ⊢
    rw [← hn]
    exact CInt.toInt_toInt32 _
  | u32 =>
    rw [hk] at hlen
    have hn := toNat_lwipHtonl hlen
    have := UInt32.toNat_lt (lwipHtonl (UInt32.ofNat (ofLittleEndian (slice b.bytes f.offset 4))))
    simp only [Kind.width] at hn ⊢
    rw [hn] at this
    simp only [getU32, load32, hn, Kind.truncate]
    omega

/-- The bytes of a field are its value in network order. -/
theorem bytesOf_eq (f : Field) : b.bytesOf f = bigEndian f.width (f.kind.image (b.get f)) := by
  have hlen := b.length_bytesOf f
  have hlt : ofBigEndian (b.bytesOf f) < 256 ^ f.width := by
    have h := ofLittleEndian_lt (b.bytesOf f).reverse
    rwa [List.length_reverse, hlen] at h
  rw [get_eq, Kind.image_truncate hlt]
  exact (bigEndian_ofBigEndian hlen).symm

theorem bytesOf_set_self (f : Field) (v : Int) :
    (b.set f v).bytesOf f = bigEndian f.width (f.kind.image v) := by
  have hfit : f.offset + (encode v f.kind).length ≤ b.bytes.length := by
    rw [length_encode, b.size]
    exact f.fits
  have h := slice_splice_self hfit
  rw [length_encode] at h
  exact h.trans (encode_eq v f.kind)

theorem bytesOf_set_of_ne (h : f ≠ g) (v : Int) : (b.set f v).bytesOf g = b.bytesOf g := by
  have hfit : f.offset + (encode v f.kind).length ≤ b.bytes.length := by
    rw [length_encode, b.size]
    exact f.fits
  refine slice_splice_of_disjoint hfit ?_
  rw [length_encode]
  exact Field.apart h

theorem bytesOf_storeLimStates (x : UInt8) (f : Field) :
    (b.storeLimStates x).bytesOf f = b.bytesOf f := by
  refine slice_splice_of_disjoint (by rw [b.size]; simp [limOffset, dashboardpSiz]) ?_
  exact f.apart_lim.symm

/-- A field is read back as it was set, truncated to its width, and no other field is touched. -/
theorem get_set (f g : Field) (v : Int) :
    (b.set f v).get g = if f = g then g.kind.truncate v else b.get g := by
  rw [get_eq]
  split
  · rename_i h
    subst h
    have hlt : f.kind.image v < 256 ^ f.width := Kind.image_lt v _
    rw [bytesOf_set_self, ofBigEndian_bigEndian, Nat.mod_eq_of_lt hlt, Kind.truncate_image]
  · rename_i h
    rw [bytesOf_set_of_ne b h, get_eq]

theorem get_storeLimStates (x : UInt8) (f : Field) : (b.storeLimStates x).get f = b.get f := by
  rw [get_eq, get_eq, bytesOf_storeLimStates]

theorem limStates_set (f : Field) (v : Int) : (b.set f v).limStates = b.limStates := by
  have hfit : f.offset + (encode v f.kind).length ≤ b.bytes.length := by
    rw [length_encode, b.size]
    exact f.fits
  have h : slice (b.set f v).bytes limOffset 1 = slice b.bytes limOffset 1 := by
    refine slice_splice_of_disjoint hfit ?_
    rw [length_encode]
    exact f.apart_lim
  rw [limStates, load8, h, limStates, load8]

theorem limStates_storeLimStates (x : UInt8) : (b.storeLimStates x).limStates = x := by
  have hfit : limOffset + [x].length ≤ b.bytes.length := by
    rw [b.size]
    simp [limOffset, dashboardpSiz]
  have h : slice (b.storeLimStates x).bytes limOffset 1 = [x] := slice_splice_self hfit
  rw [limStates, load8, h]
  simp [ofLittleEndian]

end Access

/-! ## Limit switches -/

theorem mask_disjoint {l l' : Limit} (h : l ≠ l') : l.mask &&& l'.mask = 0 := by
  revert h
  cases l <;> cases l' <;> decide

theorem getLim_setLim (b : TelemetryBuffer) (l l' : Limit) :
    (b.setLim l).getLim l' = if l = l' then true else b.getLim l' := by
  have hmask : l.mask ≠ 0 := by cases l <;> decide
  have hself := Telemetry.getLim_putLim_self hmask { limStates := b.limStates } true
  rw [getLim, setLim, limStates_storeLimStates]
  split
  · rename_i h
    rw [← h]
    exact hself
  · rename_i h
    exact Telemetry.getLim_putLim_of_disjoint (mask_disjoint h) { limStates := b.limStates } true

theorem getLim_clrLim (b : TelemetryBuffer) (l l' : Limit) :
    (b.clrLim l).getLim l' = if l = l' then false else b.getLim l' := by
  have hmask : l.mask ≠ 0 := by cases l <;> decide
  have hself := Telemetry.getLim_putLim_self hmask { limStates := b.limStates } false
  rw [getLim, clrLim, limStates_storeLimStates]
  split
  · rename_i h
    rw [← h]
    exact hself
  · rename_i h
    exact Telemetry.getLim_putLim_of_disjoint (mask_disjoint h) { limStates := b.limStates } false

/-! ## Operations -/

inductive Op where
  | set (f : Field) (v : Int)
  | setLim (l : Limit)
  | clrLim (l : Limit)
  deriving DecidableEq, Repr

def step (b : TelemetryBuffer) : Op → TelemetryBuffer
  | .set f v => b.set f v
  | .setLim l => b.setLim l
  | .clrLim l => b.clrLim l

/-- The value that the operation sets the field to. -/
def Op.sets (f : Field) : Op → Option Int
  | .set g v => if g = f then some v else none
  | _ => none

def Op.switches (l : Limit) : Op → Option Bool
  | .setLim l' => if l' = l then some true else none
  | .clrLim l' => if l' = l then some false else none
  | _ => none

def lastSet (f : Field) (ops : List Op) : Option Int := (ops.filterMap (Op.sets f)).getLast?

def lastLimit (l : Limit) (ops : List Op) : Option Bool :=
  (ops.filterMap (Op.switches l)).getLast?

theorem get_step (b : TelemetryBuffer) (op : Op) (f : Field) :
    (b.step op).get f = ((op.sets f).map f.kind.truncate).getD (b.get f) := by
  cases op with
  | set g v =>
    rw [step, get_set, Op.sets]
    split <;> rfl
  | setLim l => exact b.get_storeLimStates _ f
  | clrLim l => exact b.get_storeLimStates _ f

theorem getLim_step (b : TelemetryBuffer) (op : Op) (l : Limit) :
    (b.step op).getLim l = (op.switches l).getD (b.getLim l) := by
  cases op with
  | set f v =>
    rw [step, getLim, limStates_set]
    rfl
  | setLim l' =>
    rw [step, getLim_setLim, Op.switches]
    split <;> rfl
  | clrLim l' =>
    rw [step, getLim_clrLim, Op.switches]
    split <;> rfl

theorem get_run (b : TelemetryBuffer) (ops : List Op) (f : Field) :
    (Machine.run step b ops).get f = ((lastSet f ops).map f.kind.truncate).getD (b.get f) := by
  induction ops using List.reverseRecOn with
  | nil => rfl
  | append_singleton ops op ih =>
    rw [Machine.run_concat, get_step, ih, lastSet, lastSet, List.filterMap_append,
      List.getLast?_append]
    cases h : op.sets f <;> simp [h]

theorem getLim_run (b : TelemetryBuffer) (ops : List Op) (l : Limit) :
    (Machine.run step b ops).getLim l = (lastLimit l ops).getD (b.getLim l) := by
  induction ops using List.reverseRecOn with
  | nil => rfl
  | append_singleton ops op ih =>
    rw [Machine.run_concat, getLim_step, ih, lastLimit, lastLimit, List.filterMap_append,
      List.getLast?_append]
    cases h : op.switches l <;> simp [h]

/-! ## The record -/

end TelemetryBuffer

namespace Telemetry

def get (t : Telemetry) : Field → Int
  | .teamId => t.teamId.toNat
  | .status => t.status.toNat
  | .acceleration => t.acceleration.toInt
  | .position => t.position.toInt
  | .velocity => t.velocity.toInt
  | .vBatt => t.vBatt.toInt
  | .iBatt => t.iBatt.toInt
  | .tBatt => t.tBatt.toInt
  | .tPod => t.tPod.toInt
  | .sCount => t.sCount.toNat
  | .pAmb => t.pAmb.toNat
  | .prP1 => t.prP1.toNat
  | .prP2 => t.prP2.toNat
  | .brP1 => t.brP1.toNat
  | .brP2 => t.brP2.toNat
  | .brP3 => t.brP3.toNat
  | .stoppingDistance => t.stoppingDistance.toInt
  | .percentage => t.percentage.toNat
  | .timeRemaining => t.timeRemaining.toNat

def set (t : Telemetry) (v : Int) : Field → Telemetry
  | .teamId => { t with teamId := UInt8.ofInt v }
  | .status => { t with status := UInt8.ofInt v }
  | .acceleration => { t with acceleration := Int32.ofInt v }
  | .position => { t with position := Int32.ofInt v }
  | .velocity => { t with velocity := Int32.ofInt v }
  | .vBatt => { t with vBatt := Int32.ofInt v }
  | .iBatt => { t with iBatt := Int32.ofInt v }
  | .tBatt => { t with tBatt := Int32.ofInt v }
  | .tPod => { t with tPod := Int32.ofInt v }
  | .sCount => { t with sCount := UInt32.ofInt v }
  | .pAmb => { t with pAmb := UInt16.ofInt v }
  | .prP1 => { t with prP1 := UInt16.ofInt v }
  | .prP2 => { t with prP2 := UInt16.ofInt v }
  | .brP1 => { t with brP1 := UInt16.ofInt v }
  | .brP2 => { t with brP2 := UInt16.ofInt v }
  | .brP3 => { t with brP3 := UInt16.ofInt v }
  | .stoppingDistance => { t with stoppingDistance := Int32.ofInt v }
  | .percentage => { t with percentage := UInt32.ofInt v }
  | .timeRemaining => { t with timeRemaining := UInt32.ofInt v }

theorem ext_get {t t' : Telemetry} (h : ∀ f, t.get f = t'.get f)
    (hl : t.limStates = t'.limStates) : t = t' := by
  have h8 {x y : UInt8} (e : (x.toNat : Int) = y.toNat) : x = y :=
    UInt8.toNat_inj.mp (Int.ofNat_inj.mp e)
  have h16 {x y : UInt16} (e : (x.toNat : Int) = y.toNat) : x = y :=
    UInt16.toNat_inj.mp (Int.ofNat_inj.mp e)
  have h32 {x y : UInt32} (e : (x.toNat : Int) = y.toNat) : x = y :=
    UInt32.toNat_inj.mp (Int.ofNat_inj.mp e)
  cases t
  cases t'
  simp only [mk.injEq]
  exact ⟨h8 (h .teamId), h8 (h .status), Int32.toInt_inj.mp (h .acceleration),
    Int32.toInt_inj.mp (h .position), Int32.toInt_inj.mp (h .velocity),
    Int32.toInt_inj.mp (h .vBatt), Int32.toInt_inj.mp (h .iBatt), Int32.toInt_inj.mp (h .tBatt),
    Int32.toInt_inj.mp (h .tPod), h32 (h .sCount), h16 (h .pAmb), h16 (h .prP1), h16 (h .prP2),
    h16 (h .brP1), h16 (h .brP2), h16 (h .brP3), hl, Int32.toInt_inj.mp (h .stoppingDistance),
    h32 (h .percentage), h32 (h .timeRemaining)⟩

theorem get_set_self (t : Telemetry) (f : Field) (v : Int) :
    (t.set v f).get f = f.kind.truncate v := by
  have h8 : ((UInt8.ofInt v).toNat : Int) = v % 2 ^ 8 := by
    simp only [UInt8.ofInt, UInt8.toNat_ofNat']
    omega
  have h16 : ((UInt16.ofInt v).toNat : Int) = v % 2 ^ 16 := by
    simp only [UInt16.ofInt, UInt16.toNat_ofNat']
    omega
  have h32 : ((UInt32.ofInt v).toNat : Int) = v % 2 ^ 32 := by
    simp only [UInt32.ofInt, UInt32.toNat_ofNat']
    omega
  have hi : (Int32.ofInt v).toInt = Int.bmod v (2 ^ 32) := Int32.toInt_ofInt
  cases f <;> assumption

theorem get_set_of_ne {f g : Field} (h : f ≠ g) (t : Telemetry) (v : Int) :
    (t.set v f).get g = t.get g := by
  revert h
  cases f <;> cases g <;> first | exact fun _ => rfl | exact fun h => absurd rfl h

end Telemetry

namespace TelemetryBuffer

/-- The record of the fields that the other modules work on. -/
def toTelemetry (b : TelemetryBuffer) : Telemetry where
  teamId := b.load8 Field.teamId.offset
  status := b.load8 Field.status.offset
  acceleration := b.getI32 .acceleration
  position := b.getI32 .position
  velocity := b.getI32 .velocity
  vBatt := b.getI32 .vBatt
  iBatt := b.getI32 .iBatt
  tBatt := b.getI32 .tBatt
  tPod := b.getI32 .tPod
  sCount := b.getU32 .sCount
  pAmb := b.getU16 .pAmb
  prP1 := b.getU16 .prP1
  prP2 := b.getU16 .prP2
  brP1 := b.getU16 .brP1
  brP2 := b.getU16 .brP2
  brP3 := b.getU16 .brP3
  limStates := b.limStates
  stoppingDistance := b.getI32 .stoppingDistance
  percentage := b.getU32 .percentage
  timeRemaining := b.getU32 .timeRemaining

theorem get_toTelemetry (b : TelemetryBuffer) (f : Field) : b.toTelemetry.get f = b.get f := by
  cases f <;> rfl

/-- The operation on the record. -/
def Op.onRecord (t : Telemetry) : Op → Telemetry
  | .set f v => t.set v f
  | .setLim l => t.putLim l.mask true
  | .clrLim l => t.putLim l.mask false

theorem toTelemetry_step (b : TelemetryBuffer) (op : Op) :
    (b.step op).toTelemetry = op.onRecord b.toTelemetry := by
  apply Telemetry.ext_get
  · intro g
    rw [get_toTelemetry, get_step, ← get_toTelemetry]
    cases op with
    | set f v =>
      rw [Op.onRecord, Op.sets]
      split
      · rename_i h
        rw [h, Telemetry.get_set_self]
        rfl
      · rename_i h
        rw [Telemetry.get_set_of_ne h]
        rfl
    | setLim l => cases g <;> rfl
    | clrLim l => cases g <;> rfl
  · cases op with
    | set f v =>
      have hrec : (b.toTelemetry.set v f).limStates = b.limStates := by cases f <;> rfl
      exact (b.limStates_set f v).trans hrec.symm
    | setLim l => exact b.limStates_storeLimStates _
    | clrLim l => exact b.limStates_storeLimStates _

/-- The record follows the buffer through any sequence of operations. -/
theorem toTelemetry_run (b : TelemetryBuffer) (ops : List Op) :
    (Machine.run step b ops).toTelemetry =
      Machine.run (fun t op => op.onRecord t) b.toTelemetry ops := by
  induction ops generalizing b with
  | nil => rfl
  | cons op ops ih => rw [Machine.run_cons, ih, toTelemetry_step, Machine.run_cons]

/-! ## Frames -/

/-- How the receiver of a frame decodes a field. -/
def decode (frame : List UInt8) (f : Field) : Int :=
  f.kind.truncate (ofBigEndian (slice frame f.offset f.width))

section Frames

variable (b : TelemetryBuffer) {f : Field}

theorem decode_spacexFrame (h : f.offset + f.width ≤ spacexpSiz) :
    decode b.spacexFrame f = b.get f := by
  rw [decode, spacexFrame, slice_take h, get_eq]
  rfl

theorem decode_dashboardFrame (f : Field) : decode b.dashboardFrame f = b.get f := by
  rw [decode, dashboardFrame, slice_take f.fits, get_eq]
  rfl

theorem spacexFrame_prefix : b.spacexFrame <+: b.dashboardFrame := by
  have h : b.dashboardFrame.take spacexpSiz = b.spacexFrame := by
    rw [dashboardFrame, List.take_take, Nat.min_eq_left (by decide), spacexFrame]
  rw [← h]
  exact List.take_prefix _ _

theorem bytes_limOffset : slice b.bytes limOffset 1 = [b.limStates] := by
  have hlen : (slice b.bytes limOffset 1).length = 1 :=
    length_slice (by rw [b.size]; decide)
  obtain ⟨x, hx⟩ := List.length_eq_one_iff.mp hlen
  rw [limStates, load8, hx]
  simp [ofLittleEndian]

end Frames

/-- After any sequence of operations every field holds the last value that was set, truncated to
its width, every limit bit is as it was last switched, the bytes are those values in network order,
and the frames are their encoding. -/
theorem telemetryStore (b : TelemetryBuffer) (ops : List Op) :
    let t := Machine.run step b ops
    (∀ f, t.get f = ((lastSet f ops).map f.kind.truncate).getD (b.get f)) ∧
      (∀ l, t.getLim l = (lastLimit l ops).getD (b.getLim l)) ∧
      (∀ f : Field, slice t.bytes f.offset f.width =
        bigEndian f.width (f.kind.image (t.get f))) ∧
      slice t.bytes limOffset 1 = [t.limStates] ∧
      t.spacexFrame.length = 34 ∧ t.dashboardFrame.length = 59 ∧
      t.spacexFrame <+: t.dashboardFrame ∧
      (∀ f : Field, f.offset + f.width ≤ 34 → decode t.spacexFrame f = t.get f) ∧
      ∀ f, decode t.dashboardFrame f = t.get f := by
  intro t
  have hlen (n : Nat) (h : n ≤ dashboardpSiz) : (t.bytes.take n).length = n := by
    rw [List.length_take, t.size, Nat.min_eq_left h]
  exact ⟨get_run b ops, getLim_run b ops, t.bytesOf_eq, t.bytes_limOffset, hlen 34 (by decide),
    hlen 59 (by decide), t.spacexFrame_prefix, fun f h => t.decode_spacexFrame h,
    t.decode_dashboardFrame⟩

end TelemetryBuffer

end PodFirmware
