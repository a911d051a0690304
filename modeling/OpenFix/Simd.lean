import OpenFix.Checksum

/-!
# The checksum with vector instructions

Where the processor has them, `computeChecksum` sums blocks of 16 or 32 bytes at a
time.  The sum of absolute differences to zero adds up eight bytes into a 64-bit
element, the elements are added up over the blocks, and the lowest 16 bits of each
go into the 32-bit sum.  What is cut off or wraps is a multiple of 256 each time.

A register is modelled by its 64-bit elements, the first one lowest.
-/

namespace OpenFix

/-! ## Registers -/

/-- A register of 128 bits. -/
structure M128i where
  e0 : UInt64
  e1 : UInt64

/-- A register of 256 bits. -/
structure M256i where
  lo : M128i
  hi : M128i

namespace M128i

def setzero : M128i := ⟨0, 0⟩

/-- The first 16 bytes of a text. -/
def loadu (data : Bytes) : M128i :=
  ⟨UInt64.ofNat (ofLeBytes (data.take 8)), UInt64.ofNat (ofLeBytes ((data.drop 8).take 8))⟩

/-- The sum of the absolute differences of the lowest `n` bytes of two numbers. -/
def sadBytes : Nat → Nat → Nat → Nat
  | 0, _, _ => 0
  | n + 1, a, b => (max (a % 256) (b % 256) - min (a % 256) (b % 256)) + sadBytes n (a / 256) (b / 256)

def sadEpu8 (a b : M128i) : M128i :=
  ⟨UInt64.ofNat (sadBytes 8 a.e0.toNat b.e0.toNat), UInt64.ofNat (sadBytes 8 a.e1.toNat b.e1.toNat)⟩

def addEpi64 (a b : M128i) : M128i := ⟨a.e0 + b.e0, a.e1 + b.e1⟩

/-- One of the eight 16-bit elements. -/
def extractEpi16 (a : M128i) (index : Nat) : Nat :=
  (if index < 4 then a.e0 else a.e1).toNat / 65536 ^ (index % 4) % 65536

end M128i

namespace M256i

def setzero : M256i := ⟨.setzero, .setzero⟩

/-- The first 32 bytes of a text. -/
def loadu (data : Bytes) : M256i := ⟨.loadu data, .loadu (data.drop 16)⟩

def sadEpu8 (a b : M256i) : M256i := ⟨a.lo.sadEpu8 b.lo, a.hi.sadEpu8 b.hi⟩

def addEpi64 (a b : M256i) : M256i := ⟨a.lo.addEpi64 b.lo, a.hi.addEpi64 b.hi⟩

def castsi256Si128 (a : M256i) : M128i := a.lo

def extracti128Si256 (a : M256i) (index : Nat) : M128i := if index % 2 = 0 then a.lo else a.hi

end M256i

/-! ## The variants -/

/-- The bytes left are added one by one to a `uint32_t`. -/
def scalarSum (sum : Nat) (data : Bytes) : Nat :=
  data.foldl (fun sum b => (sum + b.toNat) % 4294967296) sum

/-- The blocks of 16 bytes, and what is left of the text. -/
def sse2Loop (vsum : M128i) (data : Bytes) : M128i × Bytes :=
  if 16 ≤ data.length then
    sse2Loop (vsum.addEpi64 ((M128i.loadu data).sadEpu8 .setzero)) (data.drop 16)
  else (vsum, data)
termination_by data.length
decreasing_by
  rw [List.length_drop]
  omega

/-- The blocks of 32 bytes, and what is left of the text. -/
def avx2Loop (vsum : M256i) (data : Bytes) : M256i × Bytes :=
  if 32 ≤ data.length then
    avx2Loop (vsum.addEpi64 ((M256i.loadu data).sadEpu8 .setzero)) (data.drop 32)
  else (vsum, data)
termination_by data.length
decreasing_by
  rw [List.length_drop]
  omega

/-- The two 64-bit sums as one 32-bit sum. -/
def collapse (v : M128i) : Nat := (v.extractEpi16 0 + v.extractEpi16 4) % 4294967296

def computeChecksumSse2 (data : Bytes) : UInt8 :=
  let (vsum, data) := sse2Loop .setzero data
  UInt8.ofNat (scalarSum (collapse vsum) data % 256)

def computeChecksumAvx2 (data : Bytes) : UInt8 :=
  let (vsum, data) := avx2Loop .setzero data
  let combined := vsum.castsi256Si128.addEpi64 (vsum.extracti128Si256 1)
  let sum := collapse combined
  let (sum, data) :=
    if 16 ≤ data.length then
      ((sum + collapse ((M128i.loadu data).sadEpu8 .setzero)) % 4294967296, data.drop 16)
    else (sum, data)
  UInt8.ofNat (scalarSum sum data % 256)

/-! ## Sums of bytes -/

/-- The sum of the bytes of a text. -/
def byteSum (data : Bytes) : Nat := (data.map UInt8.toNat).sum

theorem byteSum_append (a b : Bytes) : byteSum (a ++ b) = byteSum a + byteSum b := by
  simp [byteSum]

theorem byteSum_take_drop (n : Nat) (data : Bytes) :
    byteSum (data.take n) + byteSum (data.drop n) = byteSum data := by
  rw [← byteSum_append, List.take_append_drop]

theorem byteSum_le (data : Bytes) : byteSum data ≤ 255 * data.length := by
  induction data with
  | nil => exact Nat.le_refl _
  | cons b data ih =>
      have hb := b.toNat_lt
      show b.toNat + byteSum data ≤ _
      rw [List.length_cons]
      omega

theorem scalarSum_mod (data : Bytes) (sum : Nat) :
    scalarSum sum data % 256 = (sum + byteSum data) % 256 := by
  induction data generalizing sum with
  | nil => rfl
  | cons b data ih =>
      show scalarSum ((sum + b.toNat) % 4294967296) data % 256 = (sum + (b.toNat + byteSum data)) % 256
      rw [ih]
      omega

/-- The differences to zero of the bytes of a number are the bytes it was made of. -/
theorem sadBytes_ofLeBytes (n : Nat) (data : Bytes) (h : data.length ≤ n) :
    M128i.sadBytes n (ofLeBytes data) 0 = byteSum data := by
  induction n generalizing data with
  | zero =>
      obtain rfl := List.length_eq_zero_iff.mp (Nat.le_zero.mp h)
      rfl
  | succ n ih =>
      cases data with
      | nil =>
          have hrest := ih [] (Nat.zero_le n)
          show (max 0 0 - min 0 0) + M128i.sadBytes n (ofLeBytes []) 0 = _
          rw [hrest]
          rfl
      | cons b data =>
          have hb := b.toNat_lt
          have hlow : (b.toNat + 256 * ofLeBytes data) % 256 = b.toNat := by omega
          have hhigh : (b.toNat + 256 * ofLeBytes data) / 256 = ofLeBytes data := by omega
          have hrest := ih data (by simpa using h)
          show (max ((b.toNat + 256 * ofLeBytes data) % 256) 0 -
            min ((b.toNat + 256 * ofLeBytes data) % 256) 0) +
              M128i.sadBytes n ((b.toNat + 256 * ofLeBytes data) / 256) 0 = b.toNat + byteSum data
          rw [hlow, hhigh, hrest]
          omega

/-! ## Sums of elements -/

/-- One element of a sum of differences to zero. -/
theorem toNat_sad_element (data : Bytes) (h : data.length ≤ 8) :
    (UInt64.ofNat (M128i.sadBytes 8 (UInt64.ofNat (ofLeBytes data)).toNat
      (0 : UInt64).toNat)).toNat = byteSum data := by
  have hfits : ofLeBytes data < 18446744073709551616 :=
    lt_of_lt_of_le (ofLeBytes_lt data) (Nat.pow_le_pow_right (by decide) h)
  have hsum := byteSum_le data
  rw [UInt64.toNat_ofNat', UInt64.toNat_ofNat', Nat.mod_eq_of_lt hfits]
  show M128i.sadBytes 8 (ofLeBytes data) 0 % _ = _
  rw [sadBytes_ofLeBytes 8 data h, Nat.mod_eq_of_lt (by omega)]

namespace M128i

/-- The sum of the elements. -/
def total (v : M128i) : Nat := v.e0.toNat + v.e1.toNat

theorem total_setzero : total setzero = 0 := rfl

theorem total_addEpi64 (a b : M128i) : (a.addEpi64 b).total % 256 = (a.total + b.total) % 256 := by
  simp only [total, addEpi64, UInt64.toNat_add]
  omega

theorem total_sad (data : Bytes) :
    ((loadu data).sadEpu8 setzero).total = byteSum (data.take 16) := by
  have hfirst := toNat_sad_element (data.take 8) (List.length_take_le 8 data)
  have hsecond := toNat_sad_element ((data.drop 8).take 8) (List.length_take_le 8 _)
  show (UInt64.ofNat _).toNat + (UInt64.ofNat _).toNat = _
  have hsplit : data.take 16 = data.take 8 ++ (data.drop 8).take 8 := List.take_add (i := 8) (j := 8)
  rw [hsplit, byteSum_append]
  exact congrArg₂ (· + ·) hfirst hsecond

/-- The lowest 16 bits of each element are enough for the last byte of the sum. -/
theorem collapse_mod (v : M128i) : collapse v % 256 = v.total % 256 := by
  have hfirst : v.extractEpi16 0 = v.e0.toNat % 65536 := by simp [extractEpi16]
  have hsecond : v.extractEpi16 4 = v.e1.toNat % 65536 := by simp [extractEpi16]
  rw [collapse, hfirst, hsecond, total]
  omega

end M128i

namespace M256i

def total (v : M256i) : Nat := v.lo.total + v.hi.total

theorem total_addEpi64 (a b : M256i) : (a.addEpi64 b).total % 256 = (a.total + b.total) % 256 := by
  have hlo := a.lo.total_addEpi64 b.lo
  have hhi := a.hi.total_addEpi64 b.hi
  simp only [total, addEpi64]
  omega

theorem total_sad (data : Bytes) :
    ((loadu data).sadEpu8 setzero).total = byteSum (data.take 32) := by
  show ((M128i.loadu data).sadEpu8 .setzero).total +
    ((M128i.loadu (data.drop 16)).sadEpu8 .setzero).total = _
  have hsplit : data.take 32 = data.take 16 ++ (data.drop 16).take 16 :=
    List.take_add (i := 16) (j := 16)
  rw [M128i.total_sad, M128i.total_sad, hsplit, byteSum_append]

end M256i

/-! ## Loops -/

/-- A round of the loop moves the sum of its block from the text to the register. -/
theorem sse2Loop_total (vsum : M128i) (data : Bytes) :
    ((sse2Loop vsum data).1.total + byteSum (sse2Loop vsum data).2) % 256 =
      (vsum.total + byteSum data) % 256 := by
  induction vsum, data using sse2Loop.induct with
  | case1 vsum data h ih =>
      have hblock := M128i.total_sad data
      have hadd := vsum.total_addEpi64 ((M128i.loadu data).sadEpu8 .setzero)
      have hsplit := byteSum_take_drop 16 data
      rw [sse2Loop, if_pos h, ih]
      omega
  | case2 vsum data h => rw [sse2Loop, if_neg h]

theorem avx2Loop_total (vsum : M256i) (data : Bytes) :
    ((avx2Loop vsum data).1.total + byteSum (avx2Loop vsum data).2) % 256 =
      (vsum.total + byteSum data) % 256 := by
  induction vsum, data using avx2Loop.induct with
  | case1 vsum data h ih =>
      have hblock := M256i.total_sad data
      have hadd := vsum.total_addEpi64 ((M256i.loadu data).sadEpu8 .setzero)
      have hsplit := byteSum_take_drop 32 data
      rw [avx2Loop, if_pos h, ih]
      omega
  | case2 vsum data h => rw [avx2Loop, if_neg h]

/-! ## Agreement -/

theorem computeChecksum_eq (data : Bytes) : computeChecksum data = UInt8.ofNat (byteSum data % 256) := by
  have hsum := scalarSum_mod data 0
  rw [Nat.zero_add] at hsum
  exact congrArg UInt8.ofNat hsum

theorem computeChecksumSse2_eq (data : Bytes) :
    computeChecksumSse2 data = UInt8.ofNat (byteSum data % 256) := by
  have hloop := sse2Loop_total .setzero data
  have hcollapse := (sse2Loop .setzero data).1.collapse_mod
  show UInt8.ofNat (scalarSum (collapse (sse2Loop .setzero data).1) (sse2Loop .setzero data).2 % 256) = _
  rw [M128i.total_setzero] at hloop
  rw [scalarSum_mod]
  congr 1
  omega

theorem computeChecksumAvx2_eq (data : Bytes) :
    computeChecksumAvx2 data = UInt8.ofNat (byteSum data % 256) := by
  have hloop := avx2Loop_total .setzero data
  have hzero : M256i.setzero.total = 0 := rfl
  rw [hzero, Nat.zero_add] at hloop
  rw [← hloop, computeChecksumAvx2]
  generalize avx2Loop .setzero data = r
  obtain ⟨vsum, rest⟩ := r
  have hadd := vsum.lo.total_addEpi64 vsum.hi
  have hcollapse := (vsum.lo.addEpi64 vsum.hi).collapse_mod
  have hcombined : vsum.castsi256Si128.addEpi64 (vsum.extracti128Si256 1) =
      vsum.lo.addEpi64 vsum.hi := rfl
  dsimp only
  rw [hcombined, M256i.total]
  congr 1
  by_cases hblock : 16 ≤ rest.length
  · have hsad := M128i.total_sad rest
    have hcollapse' := ((M128i.loadu rest).sadEpu8 .setzero).collapse_mod
    have hsplit := byteSum_take_drop 16 rest
    rw [if_pos hblock]
    dsimp only
    rw [scalarSum_mod]
    omega
  · rw [if_neg hblock]
    dsimp only
    rw [scalarSum_mod]
    omega

/-- The variants of the checksum all are the sum of the bytes modulo 256. -/
theorem computeChecksum_variants (data : Bytes) :
    computeChecksumAvx2 data = UInt8.ofNat (byteSum data % 256) ∧
      computeChecksumSse2 data = UInt8.ofNat (byteSum data % 256) ∧
      computeChecksum data = UInt8.ofNat (byteSum data % 256) :=
  ⟨computeChecksumAvx2_eq data, computeChecksumSse2_eq data, computeChecksum_eq data⟩

end OpenFix
