import OpenFix.Bytes

/-!
# The checksum of a FIX message

`computeChecksum` is the scalar loop of the source: a 32-bit sum of the bytes,
of which the low byte is kept.  `formatChecksum` writes it with three digits.
-/

namespace OpenFix

/-- The sum of the bytes in a `uint32_t`, cut to its low byte. -/
def computeChecksum (data : Bytes) : UInt8 :=
  UInt8.ofNat (data.foldl (fun sum b => (sum + b.toNat) % 4294967296) 0 % 256)

/-- The checksum in three digits. -/
def formatChecksum (checksum : UInt8) : Bytes :=
  [digitByte (checksum.toNat / 100), digitByte (checksum.toNat / 10 % 10),
    digitByte (checksum.toNat % 10)]

@[simp] theorem length_formatChecksum (c : UInt8) : (formatChecksum c).length = 3 := rfl

/-- The digits of a checksum are no separators. -/
theorem formatChecksum_clean {c b : UInt8} (h : b ∈ formatChecksum c) :
    b ≠ internalSohChar ∧ b ≠ tagAssignmentChar := by
  have hc : c.toNat < 256 := c.toNat_lt
  have hd : ∃ d < 10, b = digitByte d := by
    simp only [formatChecksum, List.mem_cons, List.not_mem_nil, or_false] at h
    rcases h with h | h | h
    · exact ⟨_, by omega, h⟩
    · exact ⟨_, by omega, h⟩
    · exact ⟨_, by omega, h⟩
  obtain ⟨d, hlt, rfl⟩ := hd
  exact (digitByte_ne hlt).2

example : formatChecksum (computeChecksum ((ascii "9=11|35=0|34=10|").map fun b =>
    if b = externalSohChar then internalSohChar else b)) = ascii "181" := by decide

end OpenFix
