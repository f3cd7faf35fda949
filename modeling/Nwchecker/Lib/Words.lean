import Mathlib.Data.List.Basic

/-!
# Words in memory

The words of a C struct on a little-endian machine and those of a network, the halves of the 64-bit
ones, and the conversions between `int` and `uint32_t` that C makes without being asked.
-/

namespace Words

/-! ## Bytes of a word -/

/-- The four bytes of a word, lowest first. -/
def leBytes (w : UInt32) : List UInt8 :=
  [UInt8.ofNat w.toNat, UInt8.ofNat (w.toNat / 0x100), UInt8.ofNat (w.toNat / 0x10000),
    UInt8.ofNat (w.toNat / 0x1000000)]

/-- The word at the front of a byte list. Bytes that are not there count as zero. -/
def leWord (l : List UInt8) : UInt32 :=
  UInt32.ofNat ((l.getD 0 0).toNat + 0x100 * (l.getD 1 0).toNat + 0x10000 * (l.getD 2 0).toNat
    + 0x1000000 * (l.getD 3 0).toNat)

@[simp] theorem leBytes_length (w : UInt32) : (leBytes w).length = 4 := rfl

/-- A word written to memory is read back. -/
@[simp] theorem leWord_leBytes (w : UInt32) (t : List UInt8) : leWord (leBytes w ++ t) = w := by
  have hw : w.toNat < 4294967296 := UInt32.toNat_lt w
  apply UInt32.toNat_inj.mp
  simp only [leWord, leBytes, List.cons_append, List.getD_cons_zero, List.getD_cons_succ,
    UInt32.toNat_ofNat', UInt8.toNat_ofNat', Nat.reducePow]
  omega

/-- Only the first four bytes matter. -/
theorem leWord_take {l : List UInt8} {n : Nat} (h : 4 ≤ n) : leWord (l.take n) = leWord l := by
  have hget : ∀ i, i < 4 → (l.take n).getD i 0 = l.getD i 0 := by
    intro i hi
    rw [List.getD_eq_getElem?_getD, List.getD_eq_getElem?_getD,
      List.getElem?_take_of_lt (by omega)]
  unfold leWord
  rw [hget 0 (by omega), hget 1 (by omega), hget 2 (by omega), hget 3 (by omega)]

/-! ## Network byte order -/

/-- The four bytes of a word, highest first. -/
def beBytes (w : UInt32) : List UInt8 := (leBytes w).reverse

/-- The word in the first four bytes of a list, highest first. -/
def beWord (l : List UInt8) : UInt32 := leWord (l.take 4).reverse

@[simp] theorem beBytes_length (w : UInt32) : (beBytes w).length = 4 := rfl

/-- A word written to the network is read back. -/
@[simp] theorem beWord_beBytes (w : UInt32) (t : List UInt8) : beWord (beBytes w ++ t) = w := by
  have h := leWord_leBytes w []
  rw [List.append_nil] at h
  rw [beWord, List.take_left' (beBytes_length w), beBytes, List.reverse_reverse, h]

theorem beWord_take {l : List UInt8} {n : Nat} (h : 4 ≤ n) : beWord (l.take n) = beWord l := by
  rw [beWord, List.take_take, Nat.min_eq_left h]
  rfl

/-- The two bytes of a half word, higher first. -/
def beBytes16 (w : UInt16) : List UInt8 := [UInt8.ofNat (w.toNat / 0x100), UInt8.ofNat w.toNat]

def beWord16 (hi lo : UInt8) : UInt16 := UInt16.ofNat (0x100 * hi.toNat + lo.toNat)

@[simp] theorem beWord16_beBytes16 (w : UInt16) :
    beWord16 (UInt8.ofNat (w.toNat / 0x100)) (UInt8.ofNat w.toNat) = w := by
  have hw : w.toNat < 65536 := UInt16.toNat_lt w
  apply UInt16.toNat_inj.mp
  simp only [beWord16, UInt16.toNat_ofNat', UInt8.toNat_ofNat', Nat.reducePow]
  omega

/-! ## Conversions -/

/-- `(uint32_t)x` for an `int` or a pointer-sized `x`. -/
def u32 (x : Int) : Nat := (x % 4294967296).toNat

/-- `(int)n` for a `uint32_t` `n`. -/
def i32 (n : Nat) : Int := if n < 2147483648 then n else (n : Int) - 4294967296

/-- What an `int` becomes by a computation that wraps around. -/
def int32 (x : Int) : Int := x.bmod 4294967296

theorem int32_of_range {x : Int} (h0 : -2147483648 ≤ x) (h : x < 2147483648) : int32 x = x :=
  Int.bmod_eq_of_le (by omega) (by omega)

theorem u32_of_nonneg {x : Int} (h0 : 0 ≤ x) (h : x < 4294967296) : u32 x = x.toNat := by
  unfold u32
  rw [Int.emod_eq_of_lt h0 h]

theorem u32_natCast {n : Nat} (h : n < 4294967296) : u32 n = n := by
  rw [u32_of_nonneg (by omega) (by omega)]
  rfl

theorem i32_of_lt {n : Nat} (h : n < 2147483648) : i32 n = n := by
  rw [i32, if_pos h]

theorem i32_of_nonneg {n : Nat} (hn : n < 4294967296) (h : 0 ≤ i32 n) : i32 n = n := by
  refine i32_of_lt ?_
  by_contra hge
  rw [i32, if_neg hge] at h
  omega

/-! ## Halves of a 64-bit word -/

/-- The 32 bits at the lower address. -/
def low (d : BitVec 64) : BitVec 32 := d.extractLsb' 0 32

def high (d : BitVec 64) : BitVec 32 := d.extractLsb' 32 32

/-- A write to the 32 bits at the lower address. -/
def setLow (d : BitVec 64) (x : BitVec 32) : BitVec 64 := high d ++ x

@[simp] theorem high_setLow (d : BitVec 64) (x : BitVec 32) : high (setLow d x) = high d := by
  apply BitVec.eq_of_getLsbD_eq
  intro i hi
  rw [high, BitVec.getLsbD_extractLsb', setLow, BitVec.getLsbD_append]
  simp [hi]

@[simp] theorem low_setLow (d : BitVec 64) (x : BitVec 32) : low (setLow d x) = x := by
  apply BitVec.eq_of_getLsbD_eq
  intro i hi
  rw [low, BitVec.getLsbD_extractLsb', setLow, BitVec.getLsbD_append]
  simp [hi]

/-- An `int` that is not negative fills the lower half only. -/
theorem high_ofInt {x : Int} (h0 : 0 ≤ x) (h : x < 4294967296) :
    high (BitVec.ofInt 64 x) = 0#32 := by
  lift x to Nat using h0
  rw [BitVec.ofInt_natCast]
  apply BitVec.eq_of_toNat_eq
  rw [high, BitVec.extractLsb'_toNat, BitVec.toNat_ofNat, Nat.shiftRight_eq_div_pow,
    show (0#32).toNat = 0 from rfl]
  omega

theorem low_ofInt (x : Int) : low (BitVec.ofInt 64 x) = BitVec.ofInt 32 x := by
  apply BitVec.eq_of_toNat_eq
  rw [low, BitVec.extractLsb'_toNat, BitVec.toNat_ofInt, BitVec.toNat_ofInt]
  simp only [Nat.shiftRight_zero]
  omega

theorem high_or (d e : BitVec 64) : high (d ||| e) = high d ||| high e := by
  apply BitVec.eq_of_getLsbD_eq
  intro i hi
  simp [high, hi]

theorem low_or (d e : BitVec 64) : low (d ||| e) = low d ||| low e := by
  apply BitVec.eq_of_getLsbD_eq
  intro i hi
  simp [low, hi]

/-- An `int` is what its 32 bits say. -/
theorem toInt_ofInt {x : Int} (h0 : -2147483648 ≤ x) (h : x < 2147483648) :
    (BitVec.ofInt 32 x).toInt = x := by
  rw [BitVec.toInt_ofInt]
  exact Int.bmod_eq_of_le (by omega) (by omega)

end Words
