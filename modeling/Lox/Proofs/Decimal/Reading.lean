import Mathlib.Algebra.Group.Nat.Defs
import Lox.Proofs.Token.LongestMatch

/-!
The text of a number that was read. A double that is a number is given back by its bits; so the
double nearest to a quotient has no sign, and is finite or the positive infinity. Its text is a
numeral again, digits and perhaps a point and more digits, unless the quotient was too large.
-/

namespace Lox.Decimal

open Float.Model UnpackedFloat

/-! ### Bits -/

theorem toNat_packComponents (sign : Sign) (exponent : BitVec 11) (mantissa : BitVec 52) :
    (packComponents .binary64 sign exponent mantissa).toNat =
      (sign.toBitVec.toNat * 2 ^ 11 + exponent.toNat) * 2 ^ 52 + mantissa.toNat := by
  have hexponent : exponent.toNat < 2 ^ 11 := exponent.isLt
  have hmantissa : mantissa.toNat < 2 ^ 52 := mantissa.isLt
  simp only [packComponents, BitVec.toNat_append]
  rw [← Nat.shiftLeft_add_eq_or_of_lt hmantissa, ← Nat.shiftLeft_add_eq_or_of_lt hexponent,
    Nat.shiftLeft_eq, Nat.shiftLeft_eq]

section Fields

variable (b : BitVec Format.binary64.numBits)

/-- The first bit is the sign, -/
theorem toNat_unpackSign : (unpackSign b).toNat = b.toNat / 2 ^ 63 % 2 := by
  rw [← Nat.shiftRight_eq_div_pow]
  exact BitVec.extractLsb_toNat 63 63 b

/-- the next eleven are the exponent, -/
theorem toNat_unpackExponent : (unpackExponent b).toNat = b.toNat / 2 ^ 52 % 2 ^ 11 := by
  rw [← Nat.shiftRight_eq_div_pow]
  exact BitVec.extractLsb_toNat 62 52 b

/-- and all others the mantissa. -/
theorem toNat_unpackMantissa : (unpackMantissa b).toNat = b.toNat % 2 ^ 52 :=
  BitVec.extractLsb_toNat 51 0 b

/-- The three fields make up the bits. -/
theorem packComponents_unpack :
    packComponents .binary64 (Sign.ofBitVec (unpackSign b)) (unpackExponent b)
      (unpackMantissa b) = b := by
  have hsign : (Sign.ofBitVec (unpackSign b)).toBitVec = unpackSign b := by
    generalize unpackSign b = s
    revert s
    decide
  have hbits : b.toNat < 2 ^ 64 := b.isLt
  apply BitVec.eq_of_toNat_eq
  rw [toNat_packComponents, hsign, toNat_unpackSign, toNat_unpackExponent, toNat_unpackMantissa]
  omega

end Fields

theorem pack_infinity (sign : Sign) :
    UnpackedFloat.pack .binary64 (.infinity sign) = packComponents .binary64 sign (-1#_) 0#_ := rfl

theorem pack_zero (sign : Sign) :
    UnpackedFloat.pack .binary64 (.zero sign) = packComponents .binary64 sign 0#_ 0#_ := rfl

/-- A finite number that is neither too large nor too small is normal if it fills the mantissa, the
first bit of which is not kept. -/
theorem pack_finite (sign : Sign) {m : Nat} {e : Int} (hpos : 0 < m)
    (h : (e + Format.binary64.exponentBias + (52 : Nat)).toNat + 1 < 2 ^ 11) :
    UnpackedFloat.pack .binary64 (.finite sign m e hpos) =
      if m.log2 + 1 = 53 then
        packComponents .binary64 sign
          (BitVec.ofNat 11 (e + Format.binary64.exponentBias + (52 : Nat)).toNat)
          (BitVec.ofNat 52 m)
      else packComponents .binary64 sign 0#_ (BitVec.ofNat 52 m) :=
  if_neg (Nat.not_le_of_lt h)

theorem pack_normal (sign : Sign) {exponent : BitVec 11} (mantissa : BitVec 52)
    (h : exponent ≠ -1#11) (hpos : 0 < (1#1 ++ mantissa).toNat) :
    UnpackedFloat.pack .binary64 (.finite sign (1#1 ++ mantissa).toNat
      (exponent.toNat - (Format.binary64.exponentBias + (52 : Nat))) hpos) =
      packComponents .binary64 sign exponent mantissa := by
  have hmantissa : mantissa.toNat < 2 ^ 52 := mantissa.isLt
  have hlead : (1#1 ++ mantissa).toNat = 2 ^ 52 + mantissa.toNat := by
    rw [BitVec.toNat_append, ← Nat.shiftLeft_add_eq_or_of_lt hmantissa]
    rfl
  have hlog : (1#1 ++ mantissa).toNat.log2 = 52 := by
    rw [hlead, Nat.log2_eq_iff (by omega)]
    omega
  have hsmall : exponent.toNat < 2047 := by
    have hne : exponent.toNat ≠ 2047 := fun heq => h (BitVec.eq_of_toNat_eq heq)
    have hlt : exponent.toNat < 2048 := exponent.isLt
    omega
  have hbiased : ((exponent.toNat : Int) - (Format.binary64.exponentBias + (52 : Nat)) +
      Format.binary64.exponentBias + (52 : Nat)).toNat = exponent.toNat := by omega
  rw [pack_finite sign hpos (by omega), hbiased, hlog, if_pos rfl, BitVec.ofNat_toNat, hlead]
  congr 1
  -- the leading one does not fit into the field
  apply BitVec.eq_of_toNat_eq
  simp only [BitVec.toNat_ofNat]
  omega

theorem pack_subnormal (sign : Sign) {mantissa : BitVec 52} (hpos : 0 < mantissa.toNat) :
    UnpackedFloat.pack .binary64 (.finite sign mantissa.toNat
      ((0#11).toNat - (Format.binary64.exponentBias + (52 : Nat)) + 1) hpos) =
      packComponents .binary64 sign 0#11 mantissa := by
  have hlog : mantissa.toNat.log2 < 52 := (Nat.log2_lt (by omega)).2 mantissa.isLt
  rw [pack_finite sign hpos (by decide), if_neg (by omega), BitVec.ofNat_toNat,
    BitVec.setWidth_eq]

theorem pack_unpack (b : BitVec Format.binary64.numBits)
    (h : unpackExponent b = -1#_ → unpackMantissa b = 0#_) :
    UnpackedFloat.pack .binary64 (UnpackedFloat.unpack .binary64 b) = b := by
  have hbits := packComponents_unpack b
  unfold UnpackedFloat.unpack
  dsimp only
  by_cases hall : unpackExponent b = -1#_
  · rw [if_pos hall, if_pos (h hall), pack_infinity]
    rwa [hall, h hall] at hbits
  rw [if_neg hall]
  by_cases hexponent : unpackExponent b = 0#_
  · rw [if_pos hexponent]
    rw [hexponent] at hbits ⊢
    by_cases hzero : unpackMantissa b = 0#_
    · rw [dif_pos hzero, pack_zero]
      rwa [hzero] at hbits
    · rw [dif_neg hzero]
      exact (pack_subnormal _ _).trans hbits
  · rw [if_neg hexponent]
    exact (pack_normal _ _ hall _).trans hbits

/-- Bits up to those of the positive infinity are the bits of a double. -/
theorem toBits_ofBits {bits : UInt64} (h : bits.toNat ≤ 2047 * Double.leadingOne) :
    (Float.ofBits bits).toBits = bits := by
  have hpacked : UnpackedFloat.pack .binary64 (UnpackedFloat.unpack .binary64 bits.toBitVec) =
      bits.toBitVec := by
    refine pack_unpack _ fun hexponent => BitVec.eq_of_toNat_eq ?_
    have hfield : bits.toNat / 2 ^ 52 % 2 ^ 11 = 2047 :=
      (toNat_unpackExponent bits.toBitVec).symm.trans (congrArg BitVec.toNat hexponent)
    change bits.toNat ≤ 2047 * 2 ^ 52 at h
    rw [toNat_unpackMantissa]
    change bits.toNat % 2 ^ 52 = 0
    omega
  exact congrArg UInt64.ofBitVec hpacked

theorem nearestBits_le (num den : Nat) :
    (nearestBits num den).toNat ≤ 2047 * Double.leadingOne := by
  unfold nearestBits
  split
  · exact Nat.zero_le _
  · rw [UInt64.toNat_ofNat']
    exact Nat.le_trans (Nat.mod_le _ _) (Nat.min_le_right _ _)

/-- Bits up to those of the positive infinity hold no sign. -/
theorem Double.ofBits_cases {bits : UInt64} (h : bits.toNat ≤ 2047 * leadingOne) :
    ofBits bits = .infinite false ∨ ∃ m e, ofBits bits = .finite false m e := by
  change bits.toNat ≤ 2047 * 2 ^ 52 at h
  have hsign : bits.toNat.testBit 63 = false := Nat.testBit_lt_two_pow (by omega)
  unfold ofBits
  dsimp only
  rw [hsign]
  split
  · next hfield =>
    have hfraction : bits.toNat % leadingOne = 0 := by
      change bits.toNat / 2 ^ 52 % 2048 = 2047 at hfield
      change bits.toNat % 2 ^ 52 = 0
      omega
    rw [if_pos hfraction]
    exact .inl rfl
  · split
    · exact .inr ⟨_, _, rfl⟩
    · exact .inr ⟨_, _, rfl⟩

/-- A number that was read has no sign. -/
theorem ofFloat_read_cases (numeral : List Char) : Double.ofFloat (read numeral) = .infinite false ∨
    ∃ m e, Double.ofFloat (read numeral) = .finite false m e := by
  rw [Double.ofFloat, read, nearest, toBits_ofBits (nearestBits_le _ _)]
  exact Double.ofBits_cases (nearestBits_le _ _)

/-! ### Texts -/

theorem isDigit_of_mem_digits {n : Nat} : ∀ d ∈ digits n, IsDigit d :=
  fun _ hd => isDigit_iff.1 (Nat.isDigit_of_mem_toDigits (by decide) (by decide) hd)

theorem isDigit_of_mem_zeros {n : Nat} : ∀ d ∈ List.replicate n '0', IsDigit d := by
  intro d hd
  rw [List.eq_of_mem_replicate hd]
  exact ⟨by decide, by decide⟩

/-- A decimal is written as a numeral. -/
theorem Scientific.lexeme_positional (s : Scientific) (rest : List Char) :
    Lexeme .number s.positional rest := by
  unfold positional
  dsimp only
  split
  · refine .whole (by simp [digits]) ?_
    rw [List.forall_mem_append]
    exact ⟨isDigit_of_mem_digits, isDigit_of_mem_zeros⟩
  · next hneg =>
    generalize hpadded : List.replicate _ '0' ++ digits s.significand = padded
    have hdigits : ∀ d ∈ padded, IsDigit d := by
      rw [← hpadded, List.forall_mem_append]
      exact ⟨isDigit_of_mem_zeros, isDigit_of_mem_digits⟩
    -- one digit at least stands before the point, and as many after it as there are places
    have hlength : (-s.exponent).toNat + 1 ≤ padded.length := by
      rw [← hpadded, List.length_append, List.length_replicate]
      omega
    refine .fraction (List.ne_nil_of_length_pos ?_)
      (fun d hd => hdigits d (List.mem_of_mem_take hd)) (List.ne_nil_of_length_pos ?_)
      fun d hd => hdigits d (List.mem_of_mem_drop hd)
    · rw [List.length_take]
      omega
    · rw [List.length_drop]
      omega

/-- The text of a number that was read is a numeral, unless the number is the infinity. -/
theorem text_read_cases (words : Words) (numeral rest : List Char) :
    Double.ofFloat (read numeral) = .infinite false ∧ text words (read numeral) = words.infinity ∨
      Lexeme .number (text words (read numeral)).toList rest := by
  rw [text]
  rcases ofFloat_read_cases numeral with hread | ⟨m, e, hread⟩
  · left
    rw [hread]
    exact ⟨rfl, by simp [Double.text]⟩
  · right
    rw [hread]
    simp only [Double.text, Bool.false_eq_true, if_false, String.toList_append, String.toList_empty,
      String.toList_ofList, List.nil_append]
    split
    · exact .whole (by simp) (by simp [IsDigit])
    · exact Scientific.lexeme_positional _ rest

end Lox.Decimal
