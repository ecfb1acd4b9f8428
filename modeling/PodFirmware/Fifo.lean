import PodFirmware.Lib.CInt
import PodFirmware.Lib.Mean

/-!
# PodFirmware.Fifo

The accelerometer samples in the FIFO of the MPU9250. `average_fifo_data` and `calibrate_mpu9250`
accumulate them in the same way but for their types: the first stores a sample in a `uint16_t` and
divides unsigned numbers, the second is signed throughout.

* `averageFifoData`, `calibrateMpu9250`: `none` stands for a division by zero.
* `toNat_avgCount`: what the unsigned sum is in terms of the signed one.
* `exactMean_iff`: when the two means agree.
-/

namespace PodFirmware

inductive Axis where
  | x | y | z
  deriving DecidableEq, Repr

/-- The six bytes of a packet, most significant byte first. -/
structure Packet where
  hi : Axis → UInt8
  lo : Axis → UInt8

def Packet.sample (p : Packet) (a : Axis) : Int16 :=
  ((p.hi a).toUInt16 <<< 8 ||| (p.lo a).toUInt16).toInt16

/-! ## The driver -/

def getPacketCount (byteCount : UInt16) : UInt16 := byteCount / 6

/-- The sums of `average_fifo_data` after `n` packets. -/
def avgCount (fifo : Nat → Packet) (a : Axis) : Nat → UInt32
  | 0 => 0
  | n + 1 => avgCount fifo a n + ((fifo n).sample a).toUInt16.toUInt32

def averageFifoData (sw : Axis → Int16) (byteCount : UInt16) (fifo : Nat → Packet) :
    Option (Axis → Int16) :=
  let packetCount := getPacketCount byteCount
  if packetCount = 0 then none
  else some fun a =>
    (avgCount fifo a packetCount.toNat / packetCount.toUInt32 -
      (sw a).toInt32.toUInt32).toUInt16.toInt16

/-- The sums of `calibrate_mpu9250` after `n` packets. -/
def accelBias (fifo : Nat → Packet) (a : Axis) : Nat → Int32
  | 0 => 0
  | n + 1 => accelBias fifo a n + ((fifo n).sample a).toInt32

/-- The biases that are stored. -/
def calibrateMpu9250 (byteCount : UInt16) (fifo : Nat → Packet) : Option (Axis → Int16) :=
  let packetCount := getPacketCount byteCount
  if packetCount = 0 then none
  else some fun a =>
    (accelBias fifo a packetCount.toNat / packetCount.toUInt32.toInt32).toInt16

theorem getPacketCount_le (byteCount : UInt16) : (getPacketCount byteCount).toNat ≤ 10922 := by
  have := byteCount.toNat_lt
  rw [getPacketCount, UInt16.toNat_div]
  show byteCount.toNat / 6 ≤ 10922
  omega

/-! ## Sums -/

section Sums

variable (fifo : Nat → Packet) (a : Axis)

def signedSum : Nat → Int
  | 0 => 0
  | n + 1 => signedSum n + ((fifo n).sample a).toInt

/-- How many of the samples are negative. -/
def negatives : Nat → Nat
  | 0 => 0
  | n + 1 => negatives n + if ((fifo n).sample a).toInt < 0 then 1 else 0

theorem sample_bounds (x : Int16) : -32768 ≤ x.toInt ∧ x.toInt ≤ 32767 := by
  have hlo := x.le_toInt
  have hhi := x.toInt_lt
  omega

theorem toNat_toUInt16 (x : Int16) :
    (x.toUInt16.toNat : Int) = x.toInt + 65536 * (if x.toInt < 0 then 1 else 0) := by
  have h : x.toUInt16.toNat = x.toBitVec.toNat := rfl
  have h' : x.toInt = x.toBitVec.toInt := rfl
  have := x.toBitVec.isLt
  rw [h, h', BitVec.toInt_eq_toNat_cond]
  split <;> split <;> omega

theorem toUInt16_toInt32 (x : Int16) : x.toInt32.toUInt32.toUInt16 = x.toUInt16 := by
  have h32 := CInt.toNat_toUInt32 x.toInt32
  have h16 := toNat_toUInt16 x
  have hlt := x.toUInt16.toNat_lt
  rw [Int16.toInt_toInt32] at h32
  rw [← UInt16.toNat_inj, UInt32.toNat_toUInt16]
  split at h16 <;> omega

theorem toInt16_sub_toInt32 (u : UInt32) (x : Int16) :
    (u - x.toInt32.toUInt32).toUInt16.toInt16 = u.toUInt16.toInt16 - x := by
  rw [UInt32.toUInt16_sub, toUInt16_toInt32]
  rfl

theorem toInt16_toUInt16 (u : UInt32) : u.toUInt16.toInt16 = Int16.ofInt u.toNat := by
  rw [← Int16.toInt_inj, Int16.toInt_ofInt]
  show u.toUInt16.toBitVec.toInt = _
  rw [BitVec.toInt_eq_toNat_bmod]
  show Int.bmod ((u.toNat % 65536 : Nat) : Int) 65536 = Int.bmod u.toNat 65536
  push_cast
  exact Int.emod_bmod ..

theorem ofInt_eq_ofInt_iff (x y : Int) :
    Int16.ofInt x = Int16.ofInt y ↔ x % 65536 = y % 65536 := by
  have hx : x.bmod 65536 % 65536 = x % 65536 := Int.bmod_emod
  have hy : y.bmod 65536 % 65536 = y % 65536 := Int.bmod_emod
  rw [← Int16.toInt_inj, Int16.toInt_ofInt, Int16.toInt_ofInt]
  show x.bmod 65536 = y.bmod 65536 ↔ _
  constructor
  · intro h
    rw [← hx, ← hy, h]
  · intro h
    rw [Int.bmod_def, Int.bmod_def]
    push_cast
    rw [h]

theorem negatives_le (n : Nat) : negatives fifo a n ≤ n := by
  induction n with
  | zero => exact Nat.le_refl 0
  | succ n ih =>
    rw [negatives]
    split <;> omega

theorem negatives_eq_zero_iff (n : Nat) :
    negatives fifo a n = 0 ↔ ∀ i < n, 0 ≤ ((fifo i).sample a).toInt := by
  induction n with
  | zero => simp [negatives]
  | succ n ih =>
    rw [negatives, Nat.forall_lt_succ_right, ← ih]
    split <;> omega

theorem negatives_eq_iff (n : Nat) :
    negatives fifo a n = n ↔ ∀ i < n, ((fifo i).sample a).toInt < 0 := by
  induction n with
  | zero => simp [negatives]
  | succ n ih =>
    have hle := negatives_le fifo a n
    rw [negatives, Nat.forall_lt_succ_right, ← ih]
    split <;> omega

theorem signedSum_bounds (n : Nat) :
    -(32768 * n) ≤ signedSum fifo a n ∧ signedSum fifo a n ≤ 32767 * n := by
  induction n with
  | zero => exact ⟨Int.le_refl _, Int.le_refl _⟩
  | succ n ih =>
    have := sample_bounds ((fifo n).sample a)
    rw [signedSum]
    omega

theorem signedSum_nonneg {n : Nat} (h : negatives fifo a n = 0) : 0 ≤ signedSum fifo a n := by
  induction n with
  | zero => exact Int.le_refl _
  | succ n ih =>
    rw [negatives] at h
    split at h
    · omega
    · have := ih (by omega)
      rw [signedSum]
      omega

theorem signedSum_neg {n : Nat} (h0 : 0 < n) (h : negatives fifo a n = n) :
    signedSum fifo a n < 0 := by
  have hneg := (negatives_eq_iff fifo a n).mp h
  clear h
  induction n with
  | zero => omega
  | succ n ih =>
    have hlast := hneg n (by omega)
    rw [signedSum]
    rcases Nat.eq_zero_or_pos n with rfl | hn
    · simpa [signedSum] using hlast
    · have := ih hn fun i hi => hneg i (by omega)
      omega

/-- A negative sample counts `2 ^ 16` too much. -/
theorem toNat_avgCount {n : Nat} (hn : n ≤ 10922) :
    ((avgCount fifo a n).toNat : Int) = signedSum fifo a n + 65536 * negatives fifo a n := by
  induction n with
  | zero => rfl
  | succ n ih =>
    have hprev := ih (by omega)
    have hle := negatives_le fifo a n
    have hsum := signedSum_bounds fifo a n
    have hlast := toNat_toUInt16 ((fifo n).sample a)
    have hlt := ((fifo n).sample a).toUInt16.toNat_lt
    have hadd : (avgCount fifo a (n + 1)).toNat =
        (avgCount fifo a n).toNat + ((fifo n).sample a).toUInt16.toNat := by
      rw [avgCount, UInt32.toNat_add, UInt16.toNat_toUInt32]
      omega
    rw [hadd, signedSum, negatives]
    split <;> simp_all <;> omega

theorem toInt_accelBias {n : Nat} (hn : n ≤ 10922) :
    (accelBias fifo a n).toInt = signedSum fifo a n := by
  induction n with
  | zero => rfl
  | succ n ih =>
    have hprev := ih (by omega)
    have hsum := signedSum_bounds fifo a n
    have hlast := sample_bounds ((fifo n).sample a)
    rw [accelBias, signedSum, CInt.toInt_add_of_bounds] <;> rw [hprev, Int16.toInt_toInt32]
    all_goals omega

end Sums

/-! ## Means -/

section Means

variable (fifo : Nat → Packet) (a : Axis) {n : UInt16}

/-- The mean that `average_fifo_data` takes, before the bias is subtracted. -/
theorem avgCount_mean_iff (h0 : n ≠ 0) (hn : n.toNat ≤ 10922) :
    (avgCount fifo a n.toNat / n.toUInt32).toUInt16.toInt16 =
        Int16.ofInt ((signedSum fifo a n.toNat).tdiv n.toNat) ↔
      (∀ i < n.toNat, 0 ≤ ((fifo i).sample a).toInt) ∨
        ((∀ i < n.toNat, ((fifo i).sample a).toInt < 0) ∧
          (n.toNat : Int) ∣ signedSum fifo a n.toNat) := by
  have hpos : 0 < n.toNat := by
    have := mt (UInt16.toNat_inj (a := n) (b := 0)).mp h0
    simpa [Nat.pos_iff_ne_zero] using this
  have hle := negatives_le fifo a n.toNat
  rw [toInt16_toUInt16, ofInt_eq_ofInt_iff, UInt32.toNat_div, UInt16.toNat_toUInt32,
    Int.natCast_ediv, toNat_avgCount fifo a hn,
    Mean.wrapped_mean_iff (by omega) (by omega) (by omega) (by omega)
      (fun h => signedSum_nonneg fifo a (by omega))
      (fun h => signedSum_neg fifo a hpos (by omega)),
    ← negatives_eq_zero_iff, ← negatives_eq_iff]
  omega

/-- The loop of `calibrate_mpu9250` takes the signed mean, whatever the signs are. -/
theorem accelBias_mean (hn : n.toNat ≤ 10922) :
    (accelBias fifo a n.toNat / n.toUInt32.toInt32).toInt16 =
      Int16.ofInt ((signedSum fifo a n.toNat).tdiv n.toNat) := by
  have hcount : n.toUInt32.toInt32.toInt = n.toNat := by
    rw [(CInt.toInt_toInt32_iff _).mpr] <;> rw [UInt16.toNat_toUInt32]
    omega
  rw [← Int16.toInt_inj, Int32.toInt_toInt16, Int32.toInt_div, Int16.toInt_ofInt,
    toInt_accelBias fifo a hn, hcount]
  exact Int.bmod_bmod_of_dvd (by decide)

end Means

/-! ## What the driver stores -/

/-- Nothing is divided by zero, and the truncated signed mean less the bias is stored, as the loop
of `calibrate_mpu9250` would take it. -/
structure ExactMean (sw : Axis → Int16) (byteCount : UInt16) (fifo : Nat → Packet)
    (mean : Axis → Int16) : Prop where
  stored : averageFifoData sw byteCount fifo = some mean
  exact_mean : ∀ a, mean a = Int16.ofInt
    ((signedSum fifo a (getPacketCount byteCount).toNat).tdiv (getPacketCount byteCount).toNat) -
      sw a
  calibrated : ∃ bias, calibrateMpu9250 byteCount fifo = some bias ∧ ∀ a, mean a = bias a - sw a

theorem exactMean_iff (sw : Axis → Int16) (byteCount : UInt16) (fifo : Nat → Packet) :
    (∃ mean, ExactMean sw byteCount fifo mean) ↔
      getPacketCount byteCount ≠ 0 ∧ ∀ a,
        (∀ i < (getPacketCount byteCount).toNat, 0 ≤ ((fifo i).sample a).toInt) ∨
          ((∀ i < (getPacketCount byteCount).toNat, ((fifo i).sample a).toInt < 0) ∧
            ((getPacketCount byteCount).toNat : Int) ∣
              signedSum fifo a (getPacketCount byteCount).toNat) := by
  have hle := getPacketCount_le byteCount
  constructor
  · rintro ⟨mean, hstored, hmean, -⟩
    have hcount : getPacketCount byteCount ≠ 0 := by
      intro h
      simp [averageFifoData, h] at hstored
    refine ⟨hcount, fun a => (avgCount_mean_iff fifo a hcount hle).mp ?_⟩
    have ha := hmean a
    rw [averageFifoData, if_neg hcount, Option.some.injEq] at hstored
    subst hstored
    simp only [toInt16_sub_toInt32] at ha
    exact (Int16.sub_left_inj _).mp ha
  · rintro ⟨hcount, hsigns⟩
    have hmean : ∀ a, (avgCount fifo a (getPacketCount byteCount).toNat /
          (getPacketCount byteCount).toUInt32 - (sw a).toInt32.toUInt32).toUInt16.toInt16 =
        Int16.ofInt ((signedSum fifo a (getPacketCount byteCount).toNat).tdiv
          (getPacketCount byteCount).toNat) - sw a := by
      intro a
      rw [toInt16_sub_toInt32, (avgCount_mean_iff fifo a hcount hle).mpr (hsigns a)]
    refine ⟨_, ⟨if_neg hcount, hmean, _, if_neg hcount, fun a => ?_⟩⟩
    rw [hmean a, accelBias_mean fifo a hle]

/-- Two packets with the samples `-1` and `0` have the mean `0`; `0x7fff` is stored. -/
theorem mixed_signs_mean :
    ¬∃ mean, ExactMean (fun _ => 0) 12
      (fun i => if i = 0 then ⟨fun _ => 0xff, fun _ => 0xff⟩ else ⟨fun _ => 0, fun _ => 0⟩)
      mean := by
  rintro ⟨mean, hstored, hmean, -⟩
  have hx := hmean .x
  have : mean .x = 0x7fff := by
    injection hstored with h
    rw [← h]
    decide
  rw [this] at hx
  revert hx
  decide

end PodFirmware
