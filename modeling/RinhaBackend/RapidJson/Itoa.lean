import RinhaBackend.Foundation.Decimal

/-!
# Integers in decimal

The integer printers of RapidJSON.  They split a number into groups of four digits,
look every two digits up in a table and leave the leading zeros out by comparing
the whole number with powers of ten.
-/

namespace RinhaBackend.RapidJson

open Foundation

/-- The table behind `GetDigitsLut`. -/
def digitsLut : Bytes :=
  ascii ("0001020304050607080910111213141516171819" ++
    "2021222324252627282930313233343536373839" ++
    "4041424344454647484950515253545556575859" ++
    "6061626364656667686970717273747576777879" ++
    "8081828384858687888990919293949596979899")

/-- The two entries of the table at `n << 1`. -/
def putTwo (n : Nat) : Bytes :=
  [digitsLut.getD (n <<< 1) 0, digitsLut.getD (n <<< 1 + 1) 0]

def putFour (n : Nat) : Bytes := putTwo (n / 100) ++ putTwo (n % 100)

def putEight (n : Nat) : Bytes := putFour (n / 10000) ++ putFour (n % 10000)

def u32toa (number : UInt32) : Bytes :=
  let value := number.toNat
  if value < 10000 then
    putAbove value [1000, 100, 10] (putFour value)
  else if value < 100000000 then
    putAbove value [10000000, 1000000, 100000] (putFour (value / 10000)) ++
      putFour (value % 10000)
  else
    let a := value / 100000000
    let value := value % 100000000
    (if 10 ≤ a then putTwo a else [digitByte a]) ++ putEight value

def i32toa (value : Int) : Bytes :=
  let u := UInt32.ofInt value
  if value < 0 then 45 :: u32toa (~~~u + 1) else u32toa u

def kTen8 : Nat := 100000000

def kTen16 : Nat := kTen8 * kTen8

def u64toa (number : UInt64) : Bytes :=
  let value := number.toNat
  if value < kTen8 then
    if value < 10000 then
      putAbove value [1000, 100, 10] (putFour value)
    else
      putAbove value [10000000, 1000000, 100000] (putFour (value / 10000)) ++
        putFour (value % 10000)
  else if value < kTen16 then
    putAbove value
        [kTen8 * 10000000, kTen8 * 1000000, kTen8 * 100000, kTen8 * 10000, kTen8 * 1000,
          kTen8 * 100, kTen8 * 10]
        (putEight (value / kTen8)) ++
      putEight (value % kTen8)
  else
    let a := value / kTen16
    let value := value % kTen16
    (if a < 10 then [digitByte a]
      else if a < 100 then putTwo a
      else if a < 1000 then digitByte (a / 100) :: putTwo (a % 100)
      else putFour a) ++
      (putEight (value / kTen8) ++ putEight (value % kTen8))

def i64toa (value : Int) : Bytes :=
  let u := UInt64.ofInt value
  if value < 0 then 45 :: u64toa (~~~u + 1) else u64toa u

/-! ## The table and the groups -/

theorem putTwo_eq {n : Nat} (h : n < 100) : putTwo n = fixedDigits 2 n := by
  have hall : ∀ n : Fin 100, putTwo n = fixedDigits 2 n := by decide +kernel
  exact hall ⟨n, h⟩

theorem putFour_eq {n : Nat} (h : n < 10000) : putFour n = fixedDigits 4 n := by
  have hlow := fixedDigits_mod 2 n
  rw [putFour, putTwo_eq (by omega), putTwo_eq (by omega), fixedDigits_add 2 2]
  rw [show 10 ^ 2 = 100 from rfl] at hlow ⊢
  rw [hlow]

theorem putEight_eq {n : Nat} (h : n < 100000000) : putEight n = fixedDigits 8 n := by
  have hlow := fixedDigits_mod 4 n
  rw [putEight, putFour_eq (by omega), putFour_eq (by omega), fixedDigits_add 4 4]
  rw [show 10 ^ 4 = 10000 from rfl] at hlow ⊢
  rw [hlow]

theorem putSixteen_eq {n : Nat} (h : n < kTen16) :
    putEight (n / kTen8) ++ putEight (n % kTen8) = fixedDigits 16 n := by
  simp only [kTen16, kTen8] at h ⊢
  have hlow := fixedDigits_mod 8 n
  rw [putEight_eq (by omega), putEight_eq (by omega), fixedDigits_add 8 8]
  rw [show 10 ^ 8 = 100000000 from rfl] at hlow ⊢
  rw [hlow]

theorem putAbove_four {value : Nat} (h : value < 10000) :
    putAbove value [1000, 100, 10] (putFour value) = decimal value := by
  have hput := putAbove_fixedDigits 0 3 (.inl rfl) h
  rw [pow_zero, Nat.div_one, show fixedDigits 0 value = [] from rfl, List.append_nil] at hput
  rw [putFour_eq h]
  exact hput

theorem putAbove_eight {value : Nat} (hlow : 10000 ≤ value) (hhigh : value < 100000000) :
    putAbove value [10000000, 1000000, 100000] (putFour (value / 10000)) ++
      putFour (value % 10000) = decimal value := by
  have hput := putAbove_fixedDigits 4 3 (.inr hlow) hhigh
  rw [← fixedDigits_mod 4 value] at hput
  rw [putFour_eq (by omega), putFour_eq (by omega)]
  exact hput

theorem putAbove_sixteen {value : Nat} (hlow : kTen8 ≤ value) (hhigh : value < kTen16) :
    putAbove value
        [kTen8 * 10000000, kTen8 * 1000000, kTen8 * 100000, kTen8 * 10000, kTen8 * 1000,
          kTen8 * 100, kTen8 * 10]
        (putEight (value / kTen8)) ++
      putEight (value % kTen8) = decimal value := by
  simp only [kTen16, kTen8] at hlow hhigh ⊢
  have hput := putAbove_fixedDigits 8 7 (.inr hlow) hhigh
  rw [← fixedDigits_mod 8 value] at hput
  rw [putEight_eq (by omega), putEight_eq (by omega)]
  exact hput

theorem decimal_of_lt_ten {n : Nat} (h : n < 10) : decimal n = [digitByte n] := by
  rw [decimal_eq_fixedDigits 0 (.inl rfl) h]
  simp [fixedDigits, Nat.mod_eq_of_lt h]

theorem decimal_of_lt_hundred {n : Nat} (hlow : 10 ≤ n) (hhigh : n < 100) :
    decimal n = putTwo n := by
  rw [putTwo_eq hhigh, decimal_eq_fixedDigits 1 (.inr hlow) hhigh]

private theorem decimal_top_two {a : Nat} (h : a < 100) :
    (if 10 ≤ a then putTwo a else [digitByte a]) = decimal a := by
  split_ifs with hten
  · exact (decimal_of_lt_hundred hten h).symm
  · exact (decimal_of_lt_ten (by omega)).symm

private theorem decimal_top_four {a : Nat} (h : a < 10000) :
    (if a < 10 then [digitByte a]
      else if a < 100 then putTwo a
      else if a < 1000 then digitByte (a / 100) :: putTwo (a % 100)
      else putFour a) = decimal a := by
  split_ifs with hten hhundred hthousand
  · exact (decimal_of_lt_ten hten).symm
  · exact (decimal_of_lt_hundred (by omega) hhundred).symm
  · have hsplit : decimal a = _ := decimal_append 2 (by omega)
    rw [← fixedDigits_mod 2 a, decimal_of_lt_ten (n := a / 10 ^ 2) (by omega)] at hsplit
    rw [hsplit, putTwo_eq (by omega)]
    rfl
  · rw [putFour_eq h, decimal_eq_fixedDigits 3 (.inr (by omega)) h]

theorem u32toa_eq (number : UInt32) : u32toa number = decimal number.toNat := by
  have hbound : number.toNat < 4294967296 := number.toNat_lt
  unfold u32toa
  obtain ⟨value, hvalue⟩ : ∃ value, number.toNat = value := ⟨_, rfl⟩
  rw [hvalue] at hbound ⊢
  dsimp only
  by_cases hfour : value < 10000
  · rw [if_pos hfour, putAbove_four hfour]
  rw [if_neg hfour]
  by_cases height : value < 100000000
  · rw [if_pos height, putAbove_eight (by omega) height]
  rw [if_neg height]
  have hsplit : decimal value = _ := decimal_append 8 (by omega)
  rw [← fixedDigits_mod 8 value] at hsplit
  rw [hsplit, decimal_top_two (by omega), putEight_eq (by omega)]
  rfl

theorem u64toa_eq (number : UInt64) : u64toa number = decimal number.toNat := by
  have hbound : number.toNat < 18446744073709551616 := number.toNat_lt
  unfold u64toa
  obtain ⟨value, hvalue⟩ : ∃ value, number.toNat = value := ⟨_, rfl⟩
  rw [hvalue] at hbound ⊢
  dsimp only
  by_cases height : value < kTen8
  · rw [if_pos height]
    split_ifs with hfour
    · exact putAbove_four hfour
    · exact putAbove_eight (by omega) height
  rw [if_neg height]
  by_cases hsixteen : value < kTen16
  · rw [if_pos hsixteen, putAbove_sixteen (by omega) hsixteen]
  rw [if_neg hsixteen]
  have hmod : value % kTen16 < kTen16 := Nat.mod_lt _ (by decide)
  have htop : value / kTen16 < 10000 := by
    simp only [kTen16, kTen8]
    omega
  have hsplit : decimal value = _ := decimal_append 16 (by
    simp only [kTen16, kTen8] at hsixteen
    omega)
  rw [← fixedDigits_mod 16 value] at hsplit
  rw [hsplit, decimal_top_four htop, putSixteen_eq hmod]
  rfl

/-! ## Signed numbers -/

/-- The decimal notation of an integer. -/
def signedDecimal (value : Int) : Bytes :=
  (if value < 0 then [45] else []) ++ decimal value.natAbs

private theorem toNat_ofInt32 (value : Int) :
    (UInt32.ofInt value).toNat = (value % 4294967296).toNat := by
  rw [UInt32.ofInt, UInt32.toNat_ofNat_of_lt' (by simp [UInt32.size]; omega)]
  rfl

private theorem toNat_ofInt64 (value : Int) :
    (UInt64.ofInt value).toNat = (value % 18446744073709551616).toNat := by
  rw [UInt64.ofInt, UInt64.toNat_ofNat_of_lt' (by simp [UInt64.size]; omega)]
  rfl

theorem i32toa_eq {value : Int} (hlow : -2147483648 ≤ value) (hhigh : value < 2147483648) :
    i32toa value = signedDecimal value := by
  have hu := toNat_ofInt32 value
  unfold i32toa signedDecimal
  dsimp only
  split_ifs with hneg
  · have hnegated : (~~~UInt32.ofInt value + 1).toNat = value.natAbs := by
      rw [UInt32.toNat_add, UInt32.toNat_not, hu]
      simp only [UInt32.size, UInt32.toNat_one]
      omega
    rw [u32toa_eq, hnegated]
    rfl
  · rw [u32toa_eq, hu, List.nil_append]
    congr 1
    omega

theorem i64toa_eq {value : Int} (hlow : -9223372036854775808 ≤ value)
    (hhigh : value < 9223372036854775808) : i64toa value = signedDecimal value := by
  have hu := toNat_ofInt64 value
  unfold i64toa signedDecimal
  dsimp only
  split_ifs with hneg
  · have hnegated : (~~~UInt64.ofInt value + 1).toNat = value.natAbs := by
      rw [UInt64.toNat_add, UInt64.toNat_not, hu]
      simp only [UInt64.size, UInt64.toNat_one]
      omega
    rw [u64toa_eq, hnegated]
    rfl
  · rw [u64toa_eq, hu, List.nil_append]
    congr 1
    omega

end RinhaBackend.RapidJson
