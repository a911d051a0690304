import Mathlib.Tactic.IntervalCases

/-!
# Bytes and decimal numerals

A FIX text is a string of bytes.  Numbers are written into it by
`std::to_chars` and read back in three ways: by `std::from_chars` into an `int`
or an `unsigned long`, which read a numeral at the start and ignore what
follows, and by `fastParseTag`, which reads the whole range or nothing.

An `int` is 32 bits wide.  `i32` is the wrap-around of the machine's addition
and of a narrowing cast.
-/

namespace OpenFix

/-- A string of bytes. -/
abbrev Bytes := List UInt8

/-- The bytes of an ASCII text. -/
def ascii (s : String) : Bytes := s.toList.map fun c => UInt8.ofNat c.toNat

/-- The field separator on the wire. -/
def internalSohChar : UInt8 := 1

/-- The field separator in logs, `|`. -/
def externalSohChar : UInt8 := 124

/-- The `=` between a tag and its value. -/
def tagAssignmentChar : UInt8 := 61

/-! ## Machine integers -/

/-- The value an `int` holds after an operation whose exact result is `x`. -/
def i32 (x : Int) : Int := (x + 2147483648) % 4294967296 - 2147483648

theorem i32_of_range {x : Int} (h₀ : -2147483648 ≤ x) (h₁ : x < 2147483648) : i32 x = x := by
  unfold i32
  omega

theorem i32_range (x : Int) : -2147483648 ≤ i32 x ∧ i32 x < 2147483648 := by
  unfold i32
  omega

/-! ## Numbers in memory -/

/-- The lowest `width` bytes of a number. -/
def leBytes : Nat → Nat → Bytes
  | 0, _ => []
  | width + 1, n => UInt8.ofNat n :: leBytes width (n / 256)

/-- The number with these bytes. -/
def ofLeBytes : Bytes → Nat
  | [] => 0
  | b :: rest => b.toNat + 256 * ofLeBytes rest

theorem length_leBytes : ∀ width n : Nat, (leBytes width n).length = width
  | 0, _ => rfl
  | width + 1, n => by rw [leBytes, List.length_cons, length_leBytes width]

theorem ofLeBytes_leBytes : ∀ {width n : Nat}, n < 256 ^ width → ofLeBytes (leBytes width n) = n
  | 0, n, h => by
      rw [pow_zero] at h
      rw [leBytes, ofLeBytes]
      omega
  | width + 1, n, h => by
      have hrest : n / 256 < 256 ^ width := by
        rw [pow_succ] at h
        exact Nat.div_lt_of_lt_mul (by omega)
      have hbyte : (UInt8.ofNat n).toNat = n % 256 := UInt8.toNat_ofNat'
      rw [leBytes, ofLeBytes, ofLeBytes_leBytes hrest, hbyte]
      omega

theorem ofLeBytes_lt (bytes : Bytes) : ofLeBytes bytes < 256 ^ bytes.length := by
  induction bytes with
  | nil => exact Nat.one_pos
  | cons b rest ih =>
      have hb := b.toNat_lt
      rw [ofLeBytes, List.length_cons, pow_succ]
      omega

/-! ## Writing numerals -/

/-- The byte of a decimal digit. -/
def digitByte (d : Nat) : UInt8 := UInt8.ofNat (48 + d)

/-- The decimal numeral of a natural number. -/
def natDigits (n : Nat) : Bytes := (Nat.toDigits 10 n).map fun c => UInt8.ofNat c.toNat

/-- `std::to_chars` of an `int`. -/
def toChars (i : Int) : Bytes :=
  if i < 0 then 45 :: natDigits i.natAbs else natDigits i.natAbs

/-! ## Reading numerals -/

/-- A byte between `'0'` and `'9'`. -/
def isDigit (b : UInt8) : Bool := 48 ≤ b && b ≤ 57

/-- The number a string of digits denotes. -/
def digitsVal (ds : Bytes) : Nat := ds.foldl (fun v d => v * 10 + (d.toNat - 48)) 0

/-- `std::from_chars` into an `int`.  There is no result when the text does not
start with a numeral or the number does not fit. -/
def fromCharsInt (b : Bytes) : Option Int :=
  let body := if b.head? = some 45 then b.tail else b
  let ds := body.takeWhile isDigit
  let v : Int := if b.head? = some 45 then -(digitsVal ds : Int) else digitsVal ds
  if ds = [] then none
  else if -2147483648 ≤ v ∧ v < 2147483648 then some v else none

/-- `std::from_chars` into an `unsigned long`. -/
def fromCharsULong (b : Bytes) : Option Nat :=
  let ds := b.takeWhile isDigit
  if ds = [] then none
  else if digitsVal ds < 18446744073709551616 then some (digitsVal ds) else none

/-- The loop of `fastParseTag`: `val` is what the digits read so far denote. -/
def fastParseTagLoop (val : Int) : Bytes → Int
  | [] => val
  | b :: rest =>
      if isDigit b then fastParseTagLoop (i32 (val * 10 + (b.toNat - 48 : Nat))) rest else -1

/-- Read a range that holds a numeral and nothing else, and `-1` otherwise. -/
def fastParseTag (b : Bytes) : Int := if b = [] then -1 else fastParseTagLoop 0 b

/-! ## Digits -/

theorem isDigit_digitByte {d : Nat} (h : d < 10) : isDigit (digitByte d) = true := by
  interval_cases d <;> rfl

theorem toNat_digitByte {d : Nat} (h : d < 10) : (digitByte d).toNat = 48 + d := by
  interval_cases d <;> rfl

theorem digitByte_ne {d : Nat} (h : d < 10) :
    digitByte d ≠ 45 ∧ digitByte d ≠ internalSohChar ∧ digitByte d ≠ tagAssignmentChar := by
  interval_cases d <;> decide

theorem digitChar_toByte {d : Nat} (h : d < 10) :
    UInt8.ofNat (Nat.digitChar d).toNat = digitByte d := by
  interval_cases d <;> rfl

/-- The last digit comes off the end. -/
theorem natDigits_eq (n : Nat) :
    natDigits n = (if n < 10 then [] else natDigits (n / 10)) ++ [digitByte (n % 10)] := by
  unfold natDigits
  rw [Nat.toDigits_eq_if (by omega)]
  split
  next h =>
    rw [List.map_singleton, digitChar_toByte h, Nat.mod_eq_of_lt h]
    rfl
  next h =>
    rw [List.map_append, List.map_singleton, digitChar_toByte (Nat.mod_lt n (by omega))]

theorem natDigits_ne_nil (n : Nat) : natDigits n ≠ [] := by
  rw [natDigits_eq]
  simp

/-- A byte of a numeral is the byte of a digit. -/
theorem mem_natDigits {n : Nat} {b : UInt8} (h : b ∈ natDigits n) : ∃ d < 10, b = digitByte d := by
  induction n using Nat.strongRecOn with
  | ind n ih =>
      rw [natDigits_eq, List.mem_append] at h
      rcases h with h | h
      · split at h
        · simp at h
        · exact ih (n / 10) (by omega) h
      · exact ⟨n % 10, Nat.mod_lt n (by omega), List.mem_singleton.mp h⟩

theorem isDigit_of_mem_natDigits {n : Nat} {b : UInt8} (h : b ∈ natDigits n) :
    isDigit b = true := by
  obtain ⟨d, hd, rfl⟩ := mem_natDigits h
  exact isDigit_digitByte hd

theorem digitsVal_append_digitByte (ds : Bytes) {d : Nat} (h : d < 10) :
    digitsVal (ds ++ [digitByte d]) = digitsVal ds * 10 + d := by
  simp only [digitsVal, List.foldl_append, List.foldl_cons, List.foldl_nil, toNat_digitByte h]
  omega

@[simp] theorem digitsVal_natDigits (n : Nat) : digitsVal (natDigits n) = n := by
  induction n using Nat.strongRecOn with
  | ind n ih =>
      rw [natDigits_eq, digitsVal_append_digitByte _ (Nat.mod_lt n (by omega))]
      split
      next h =>
        simp only [digitsVal, List.foldl_nil]
        omega
      next h =>
        rw [ih (n / 10) (by omega)]
        omega

theorem length_natDigits_le_iff {n k : Nat} (h : 0 < k) :
    (natDigits n).length ≤ k ↔ n < 10 ^ k := by
  simp only [natDigits, List.length_map]
  exact Nat.length_toDigits_le_iff (by omega) h

/-- A smaller number has no longer numeral. -/
theorem length_natDigits_mono {m n : Nat} (h : m ≤ n) :
    (natDigits m).length ≤ (natDigits n).length := by
  have hpos : 0 < (natDigits n).length := List.length_pos_iff.mpr (natDigits_ne_nil n)
  rw [length_natDigits_le_iff hpos]
  exact lt_of_le_of_lt h ((length_natDigits_le_iff hpos).mp (le_refl _))

/-! ## Reading back what was written -/

theorem toChars_of_nonneg {i : Int} (h : 0 ≤ i) : toChars i = natDigits i.natAbs := by
  simp [toChars, Int.not_lt.mpr h]

theorem toChars_ne_nil (i : Int) : toChars i ≠ [] := by
  unfold toChars
  split
  · simp
  · exact natDigits_ne_nil _

/-- A numeral holds no separator and no `=`. -/
theorem toChars_clean {i : Int} {b : UInt8} (h : b ∈ toChars i) :
    b ≠ internalSohChar ∧ b ≠ tagAssignmentChar := by
  have hdig : ∀ n, b ∈ natDigits n → b ≠ internalSohChar ∧ b ≠ tagAssignmentChar := by
    intro n hn
    obtain ⟨d, hd, rfl⟩ := mem_natDigits hn
    exact (digitByte_ne hd).2
  unfold toChars at h
  split at h
  · rcases List.mem_cons.mp h with rfl | h
    · decide
    · exact hdig _ h
  · exact hdig _ h

theorem takeWhile_natDigits_append (n : Nat) (rest : Bytes)
    (h : ∀ b, rest.head? = some b → isDigit b = false) :
    (natDigits n ++ rest).takeWhile isDigit = natDigits n := by
  rw [List.takeWhile_append_of_pos fun b hb => isDigit_of_mem_natDigits hb]
  cases rest with
  | nil => simp
  | cons b rest =>
      have hb := h b rfl
      simp [hb]

theorem head?_natDigits_append_ne (n : Nat) (rest : Bytes) :
    (natDigits n ++ rest).head? ≠ some 45 := by
  cases hd : natDigits n with
  | nil => exact absurd hd (natDigits_ne_nil n)
  | cons b l =>
      have hb : b ∈ natDigits n := hd ▸ List.mem_cons_self ..
      obtain ⟨d, hlt, rfl⟩ := mem_natDigits hb
      simpa using (digitByte_ne hlt).1

/-- `from_chars` reads a numeral back, whatever follows it that is no digit. -/
theorem fromCharsInt_toChars_append {i : Int} (h₀ : -2147483648 ≤ i) (h₁ : i < 2147483648)
    (rest : Bytes) (hr : ∀ b, rest.head? = some b → isDigit b = false) :
    fromCharsInt (toChars i ++ rest) = some i := by
  by_cases hneg : i < 0
  · have hv : (-((i.natAbs : Nat) : Int)) = i := by omega
    simp only [fromCharsInt, toChars, if_pos hneg, List.cons_append, List.head?_cons, if_true,
      List.tail_cons, takeWhile_natDigits_append _ _ hr, if_neg (natDigits_ne_nil _),
      digitsVal_natDigits, hv]
    rw [if_pos ⟨h₀, h₁⟩]
  · have hv : ((i.natAbs : Nat) : Int) = i := by omega
    simp only [fromCharsInt, toChars, if_neg hneg, if_neg (head?_natDigits_append_ne _ _),
      takeWhile_natDigits_append _ _ hr, if_neg (natDigits_ne_nil _), digitsVal_natDigits, hv]
    rw [if_pos ⟨h₀, h₁⟩]

theorem fromCharsInt_toChars {i : Int} (h₀ : -2147483648 ≤ i) (h₁ : i < 2147483648) :
    fromCharsInt (toChars i) = some i := by
  have h := fromCharsInt_toChars_append h₀ h₁ [] (by simp)
  rwa [List.append_nil] at h

theorem fromCharsULong_natDigits {n : Nat} (h : n < 18446744073709551616) :
    fromCharsULong (natDigits n) = some n := by
  have ht := takeWhile_natDigits_append n [] (by simp)
  rw [List.append_nil] at ht
  simp only [fromCharsULong, ht, if_neg (natDigits_ne_nil n), digitsVal_natDigits, if_pos h]

/-- What `from_chars` reads fits an `int`. -/
theorem fromCharsInt_range {b : Bytes} {i : Int} (h : fromCharsInt b = some i) :
    -2147483648 ≤ i ∧ i < 2147483648 := by
  dsimp only [fromCharsInt] at h
  generalize (if b.head? = some 45 then b.tail else b).takeWhile isDigit = ds at h
  generalize (if b.head? = some 45 then -(digitsVal ds : Int) else digitsVal ds) = v at h
  by_cases hds : ds = []
  · rw [if_pos hds] at h
    cases h
  · rw [if_neg hds] at h
    by_cases hv : -2147483648 ≤ v ∧ v < 2147483648
    · rw [if_pos hv] at h
      cases h
      exact hv
    · rw [if_neg hv] at h
      cases h

/-! ## Tags -/

theorem fastParseTagLoop_append {ds : Bytes} (hds : ∀ b ∈ ds, isDigit b = true) (rest : Bytes) :
    ∀ v, fastParseTagLoop v (ds ++ rest) = fastParseTagLoop (fastParseTagLoop v ds) rest := by
  induction ds with
  | nil => intro v; rfl
  | cons d ds ih =>
      intro v
      have hd := hds d (List.mem_cons_self ..)
      simp only [List.cons_append, fastParseTagLoop, hd, if_true]
      exact ih (fun b hb => hds b (List.mem_cons_of_mem _ hb)) _

/-- `fastParseTag` reads the numeral of a number that fits an `int`. -/
theorem fastParseTag_natDigits {n : Nat} (h : n < 2147483648) : fastParseTag (natDigits n) = n := by
  have hloop : fastParseTagLoop 0 (natDigits n) = n := by
    induction n using Nat.strongRecOn with
    | ind n ih =>
        rw [natDigits_eq]
        have hlast : ∀ v : Int, 0 ≤ v → v * 10 + (n % 10 : Nat) = n →
            fastParseTagLoop v [digitByte (n % 10)] = n := by
          intro v hv hn
          have hd : n % 10 < 10 := Nat.mod_lt n (by omega)
          simp only [fastParseTagLoop, isDigit_digitByte hd, if_true, toNat_digitByte hd,
            Nat.add_sub_cancel_left, hn]
          exact i32_of_range (by omega) (by omega)
        split
        next hlt => exact hlast 0 (by omega) (by omega)
        next hge =>
          rw [fastParseTagLoop_append fun b hb => isDigit_of_mem_natDigits hb,
            ih (n / 10) (by omega) (by omega)]
          exact hlast _ (by omega) (by omega)
  rw [fastParseTag, if_neg (natDigits_ne_nil n), hloop]

theorem fastParseTag_toChars {i : Int} (h₀ : 0 ≤ i) (h₁ : i < 2147483648) :
    fastParseTag (toChars i) = i := by
  rw [toChars_of_nonneg h₀, fastParseTag_natDigits (by omega)]
  omega

example : toChars (-205) = ascii "-205" := by decide
example : fromCharsInt (ascii "17x") = some 17 := by decide
example : fastParseTag (ascii "17x") = -1 := by decide

end OpenFix
