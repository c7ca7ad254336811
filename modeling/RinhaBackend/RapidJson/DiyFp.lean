import Mathlib.Data.Nat.Bitwise
import Mathlib.Tactic.Ring
import RinhaBackend.Foundation.Ieee

/-!
# Floating-point numbers by hand

The 64-bit floating-point numbers with which `Grisu2` works, taken from the bits of a
`double`: products rounded to 64 bits, the neighbourhood of a double, and the table of
powers of ten that brings every double to about the same exponent.  What follows from
them is how wide that neighbourhood still is, compared with the number, after the
multiplication.
-/

namespace RinhaBackend.RapidJson

open Foundation

structure DiyFp where
  f : UInt64
  e : Int
deriving DecidableEq

namespace DiyFp

def kDpExponentBias : Int := 0x3FF + 52

def kDpMinExponent : Int := -kDpExponentBias

def kDpExponentMask : UInt64 := 0x7FF0000000000000

def kDpSignificandMask : UInt64 := 0x000FFFFFFFFFFFFF

def kDpHiddenBit : UInt64 := 0x0010000000000000

/-- The constructor from a `double`, given its bits.  The sign is masked off. -/
def ofBits (u64 : UInt64) : DiyFp :=
  let biasedE : Int := ((u64 &&& kDpExponentMask) >>> 52).toNat
  let significand := u64 &&& kDpSignificandMask
  if biasedE ≠ 0 then ⟨significand + kDpHiddenBit, biasedE - kDpExponentBias⟩
  else ⟨significand, kDpMinExponent + 1⟩

def minus (lhs rhs : DiyFp) : DiyFp := ⟨lhs.f - rhs.f, lhs.e⟩

def times (lhs rhs : DiyFp) : DiyFp :=
  let p := lhs.f.toNat * rhs.f.toNat
  let h := UInt64.ofNat (p >>> 64)
  let l := UInt64.ofNat p
  ⟨if l &&& 0x8000000000000000 ≠ 0 then h + 1 else h, lhs.e + rhs.e + 64⟩

/-- The leading zeros of a word that is not zero. -/
def clzll (x : UInt64) : Nat := 63 - x.toNat.log2

def normalize (v : DiyFp) : DiyFp :=
  let s := clzll v.f
  ⟨v.f <<< UInt64.ofNat s, v.e - s⟩

/-- The loop of `NormalizeBoundary`; `none` when it has not ended after `fuel` rounds. -/
def shiftToHidden : (fuel : Nat) → DiyFp → Option DiyFp
  | 0, _ => none
  | fuel + 1, res =>
      if res.f &&& (kDpHiddenBit <<< 1) = 0 then
        shiftToHidden fuel ⟨res.f <<< 1, res.e - 1⟩
      else some res

def normalizeBoundary (v : DiyFp) : Option DiyFp :=
  (shiftToHidden 64 v).map fun res : DiyFp => ⟨res.f <<< 10, res.e - 10⟩

/-- The bounds of the numbers that are rounded to `v`, the lower one first. -/
def normalizedBoundaries (v : DiyFp) : Option (DiyFp × DiyFp) :=
  (normalizeBoundary ⟨(v.f <<< 1) + 1, v.e - 1⟩).map fun pl =>
    let mi : DiyFp :=
      if v.f = kDpHiddenBit then ⟨(v.f <<< 2) - 1, v.e - 2⟩
      else ⟨(v.f <<< 1) - 1, v.e - 1⟩
    (⟨mi.f <<< UInt64.ofNat (mi.e - pl.e).toNat, pl.e⟩, pl)

end DiyFp

/-! ## Powers of ten -/

/-- `10 ^ -348`, `10 ^ -340`, and so on to `10 ^ 340`. -/
def kCachedPowersF : List UInt64 :=
  [
    0xfa8fd5a0081c0288, 0xbaaee17fa23ebf76, 0x8b16fb203055ac76, 0xcf42894a5dce35ea,
    0x9a6bb0aa55653b2d, 0xe61acf033d1a45df, 0xab70fe17c79ac6ca, 0xff77b1fcbebcdc4f,
    0xbe5691ef416bd60c, 0x8dd01fad907ffc3c, 0xd3515c2831559a83, 0x9d71ac8fada6c9b5,
    0xea9c227723ee8bcb, 0xaecc49914078536d, 0x823c12795db6ce57, 0xc21094364dfb5637,
    0x9096ea6f3848984f, 0xd77485cb25823ac7, 0xa086cfcd97bf97f4, 0xef340a98172aace5,
    0xb23867fb2a35b28e, 0x84c8d4dfd2c63f3b, 0xc5dd44271ad3cdba, 0x936b9fcebb25c996,
    0xdbac6c247d62a584, 0xa3ab66580d5fdaf6, 0xf3e2f893dec3f126, 0xb5b5ada8aaff80b8,
    0x87625f056c7c4a8b, 0xc9bcff6034c13053, 0x964e858c91ba2655, 0xdff9772470297ebd,
    0xa6dfbd9fb8e5b88f, 0xf8a95fcf88747d94, 0xb94470938fa89bcf, 0x8a08f0f8bf0f156b,
    0xcdb02555653131b6, 0x993fe2c6d07b7fac, 0xe45c10c42a2b3b06, 0xaa242499697392d3,
    0xfd87b5f28300ca0e, 0xbce5086492111aeb, 0x8cbccc096f5088cc, 0xd1b71758e219652c,
    0x9c40000000000000, 0xe8d4a51000000000, 0xad78ebc5ac620000, 0x813f3978f8940984,
    0xc097ce7bc90715b3, 0x8f7e32ce7bea5c70, 0xd5d238a4abe98068, 0x9f4f2726179a2245,
    0xed63a231d4c4fb27, 0xb0de65388cc8ada8, 0x83c7088e1aab65db, 0xc45d1df942711d9a,
    0x924d692ca61be758, 0xda01ee641a708dea, 0xa26da3999aef774a, 0xf209787bb47d6b85,
    0xb454e4a179dd1877, 0x865b86925b9bc5c2, 0xc83553c5c8965d3d, 0x952ab45cfa97a0b3,
    0xde469fbd99a05fe3, 0xa59bc234db398c25, 0xf6c69a72a3989f5c, 0xb7dcbf5354e9bece,
    0x88fcf317f22241e2, 0xcc20ce9bd35c78a5, 0x98165af37b2153df, 0xe2a0b5dc971f303a,
    0xa8d9d1535ce3b396, 0xfb9b7cd9a4a7443c, 0xbb764c4ca7a44410, 0x8bab8eefb6409c1a,
    0xd01fef10a657842c, 0x9b10a4e5e9913129, 0xe7109bfba19c0c9d, 0xac2820d9623bf429,
    0x80444b5e7aa7cf85, 0xbf21e44003acdd2d, 0x8e679c2f5e44ff8f, 0xd433179d9c8cb841,
    0x9e19db92b4e31ba9, 0xeb96bf6ebadf77d9, 0xaf87023b9bf0ee6b]

def kCachedPowersE : List Int :=
  [
    -1220, -1193, -1166, -1140, -1113, -1087, -1060, -1034, -1007, -980,
    -954, -927, -901, -874, -847, -821, -794, -768, -741, -715,
    -688, -661, -635, -608, -582, -555, -529, -502, -475, -449,
    -422, -396, -369, -343, -316, -289, -263, -236, -210, -183,
    -157, -130, -103, -77, -50, -24, 3, 30, 56, 83,
    109, 136, 162, 189, 216, 242, 269, 295, 322, 348,
    375, 402, 428, 455, 481, 508, 534, 561, 588, 614,
    641, 667, 694, 720, 747, 774, 800, 827, 853, 880,
    907, 933, 960, 986, 1013, 1039, 1066]

def getCachedPowerByIndex (index : Nat) : Option DiyFp :=
  match kCachedPowersF[index]?, kCachedPowersE[index]? with
  | some f, some e => some ⟨f, e⟩
  | _, _ => none

/-- The double `0.30102999566398114`, in units of `2 ^ -54`. -/
def kLog10Of2 : Int := 5422874305198590

/--
`GetCachedPower`, with the decimal exponent.  The product and the sum that give `dk`
are one fused operation and so are rounded once.
-/
def getCachedPower (e : Int) : Option (DiyFp × Int) :=
  let dk := roundToDouble ((-61 - e) * kLog10Of2 + 347 * 0x40000000000000).toNat
  let k := dk / 0x40000000000000
  let k := if 0 < dk % 0x40000000000000 then k + 1 else k
  let index := (k >>> 3) + 1
  (getCachedPowerByIndex index).map fun power => (power, -(-348 + (index <<< 3 : Nat)))

example : Double.floatValue 0.30102999566398114 =
    some ((kLog10Of2 : ℚ) / 0x40000000000000) := by
  decide +kernel
example : Double.floatValue (Ieee.fusedMulAdd (-961) 0.30102999566398114 347) =
    some ((roundToDouble (-961 * kLog10Of2 + 347 * 0x40000000000000).toNat : ℚ) /
      0x40000000000000) := by
  decide +kernel

namespace DiyFp

/-! ## What the bits of a double give -/

/-- A double that is neither zero nor infinite nor a NaN. -/
structure IsDouble (v : DiyFp) : Prop where
  pos : 0 < v.f.toNat
  lt : v.f.toNat < 2 ^ 53
  low : -1074 ≤ v.e
  high : v.e ≤ 971

theorem significand_toNat (u64 : UInt64) :
    (u64 &&& kDpSignificandMask).toNat = u64.toNat % 2 ^ 52 := by
  rw [UInt64.toNat_and]
  exact Nat.and_two_pow_sub_one_eq_mod u64.toNat 52

theorem ofBits_isDouble {u64 : UInt64} (hfinite : u64.toNat / 2 ^ 52 % 2 ^ 11 ≠ 2047)
    (hzero : u64.toNat % 2 ^ 63 ≠ 0) : (ofBits u64).IsDouble := by
  have hbit : kDpHiddenBit.toNat = 2 ^ 52 := rfl
  have hbias : kDpExponentBias = 1075 := rfl
  have hmin : kDpMinExponent = -1075 := rfl
  unfold ofBits
  rw [kDpExponentMask, Ieee.exponentBits_toNat]
  dsimp only
  split_ifs with hbiased
  · have hf : ((u64 &&& kDpSignificandMask) + kDpHiddenBit).toNat =
        u64.toNat % 2 ^ 52 + 2 ^ 52 := by
      rw [UInt64.toNat_add, significand_toNat, hbit]
      omega
    constructor <;> dsimp only <;> omega
  · constructor <;> dsimp only <;> try rw [significand_toNat]
    all_goals omega

/-! ## Products -/

theorem and_two_pow_eq_zero_iff {n i : Nat} (h : n < 2 ^ (i + 1)) :
    n &&& 2 ^ i = 0 ↔ n < 2 ^ i := by
  rw [Nat.and_two_pow, Nat.testBit_eq_decide_div_mod_eq]
  by_cases hbit : n < 2 ^ i
  · simp [Nat.div_eq_of_lt hbit, hbit]
  · have hone : n / 2 ^ i = 1 := Nat.div_eq_of_lt_le (by omega) (by rw [pow_succ] at h; omega)
    simp [hone, hbit]

theorem and_top_ne_zero_iff (l : UInt64) :
    l &&& 0x8000000000000000 ≠ 0 ↔ 2 ^ 63 ≤ l.toNat := by
  rw [ne_eq, ← UInt64.toNat_inj, UInt64.toNat_and, ← not_lt]
  exact not_congr (and_two_pow_eq_zero_iff (i := 63) l.toNat_lt)

/-- The product is rounded to the nearest number of 64 bits. -/
theorem times_f (lhs rhs : DiyFp) :
    (lhs.times rhs).f.toNat = (lhs.f.toNat * rhs.f.toNat + 2 ^ 63) / 2 ^ 64 := by
  have hproduct : lhs.f.toNat * rhs.f.toNat ≤ (2 ^ 64 - 1) * (2 ^ 64 - 1) :=
    Nat.mul_le_mul (Nat.le_pred_of_lt lhs.f.toNat_lt) (Nat.le_pred_of_lt rhs.f.toNat_lt)
  simp only [times, and_top_ne_zero_iff, UInt64.toNat_ofNat', Nat.shiftRight_eq_div_pow]
  generalize lhs.f.toNat * rhs.f.toNat = p at hproduct
  split_ifs with hround
  · rw [UInt64.toNat_add, UInt64.toNat_ofNat']
    change (p / 2 ^ 64 % 2 ^ 64 + 1) % 2 ^ 64 = _
    omega
  · rw [UInt64.toNat_ofNat']
    omega

/-! ## The neighbourhood of a double -/

theorem and_hidden_eq_zero_iff {f : UInt64} (hlt : f.toNat < 2 ^ 54) :
    f &&& (kDpHiddenBit <<< 1) = 0 ↔ f.toNat < 2 ^ 53 := by
  rw [← UInt64.toNat_inj, UInt64.toNat_and]
  exact and_two_pow_eq_zero_iff (i := 53) hlt

theorem toNat_shiftLeft_of_lt {f : UInt64} {s : Nat} (hs : s < 64)
    (h : f.toNat * 2 ^ s < 2 ^ 64) : (f <<< UInt64.ofNat s).toNat = f.toNat * 2 ^ s := by
  rw [UInt64.toNat_shiftLeft, UInt64.toNat_ofNat', Nat.shiftLeft_eq,
    Nat.mod_eq_of_lt (show s < 2 ^ 64 by omega), Nat.mod_eq_of_lt hs, Nat.mod_eq_of_lt h]

theorem shiftToHidden_spec {fuel : Nat} {res : DiyFp} (hlt : res.f.toNat < 2 ^ 54)
    (hfuel : 2 ^ 54 ≤ res.f.toNat * 2 ^ fuel) :
    ∃ s : Nat, shiftToHidden fuel res =
        some ⟨UInt64.ofNat (res.f.toNat * 2 ^ s), res.e - s⟩ ∧
      2 ^ 53 ≤ res.f.toNat * 2 ^ s ∧ res.f.toNat * 2 ^ s < 2 ^ 54 := by
  induction fuel generalizing res with
  | zero => omega
  | succ fuel ih =>
      by_cases hbit : res.f.toNat < 2 ^ 53
      · have hdouble : (res.f <<< 1).toNat = res.f.toNat * 2 :=
          toNat_shiftLeft_of_lt (s := 1) (by decide) (by omega)
        have hpow : ∀ s : Nat, res.f.toNat * 2 * 2 ^ s = res.f.toNat * 2 ^ (s + 1) := by
          intro s
          ring
        have hrest := @ih ⟨res.f <<< 1, res.e - 1⟩
        simp only [hdouble, hpow] at hrest
        obtain ⟨s, hrun, hlow, hhigh⟩ := hrest (by omega) hfuel
        refine ⟨s + 1, ?_, hlow, hhigh⟩
        rw [shiftToHidden, if_pos ((and_hidden_eq_zero_iff hlt).mpr hbit), hrun]
        congr 2
        push_cast
        ring
      · refine ⟨0, ?_, by omega, by omega⟩
        rw [shiftToHidden, if_neg (mt (and_hidden_eq_zero_iff hlt).mp hbit)]
        simp

theorem normalizeBoundary_spec {v : DiyFp} (hpos : 0 < v.f.toNat) (hlt : v.f.toNat < 2 ^ 54) :
    ∃ s : Nat, normalizeBoundary v =
        some ⟨UInt64.ofNat (v.f.toNat * 2 ^ (s + 10)), v.e - (s + 10 : Nat)⟩ ∧
      2 ^ 53 ≤ v.f.toNat * 2 ^ s ∧ v.f.toNat * 2 ^ s < 2 ^ 54 := by
  obtain ⟨s, hrun, hlow, hhigh⟩ := @shiftToHidden_spec 64 v hlt (by omega)
  refine ⟨s, ?_, hlow, hhigh⟩
  have hpow : v.f.toNat * 2 ^ (s + 10) = v.f.toNat * 2 ^ s * 2 ^ 10 := by ring
  have hword : (UInt64.ofNat (v.f.toNat * 2 ^ s)).toNat = v.f.toNat * 2 ^ s := by
    rw [UInt64.toNat_ofNat', Nat.mod_eq_of_lt (by omega)]
  have hshift : UInt64.ofNat (v.f.toNat * 2 ^ s) <<< 10 =
      UInt64.ofNat (v.f.toNat * 2 ^ (s + 10)) := by
    rw [← UInt64.toNat_inj, hpow, UInt64.toNat_ofNat', Nat.mod_eq_of_lt (by omega)]
    exact (toNat_shiftLeft_of_lt (s := 10) (by decide) (by omega)).trans (by rw [hword])
  rw [normalizeBoundary, hrun, Option.map_some, hshift]
  congr 2
  push_cast
  ring

/--
The bounds of the numbers that are rounded to a double: the upper one is normalized,
and the distance between them is not small compared with it.
-/
structure Bounds (minus plus : DiyFp) : Prop where
  same : minus.e = plus.e
  low : -1137 ≤ plus.e
  high : plus.e ≤ 960
  normalized : 2 ^ 63 ≤ plus.f.toNat
  spread : plus.f.toNat + 6 * 10 ^ 16 ≤ 10 ^ 16 * (plus.f.toNat - minus.f.toNat)

theorem double_toNat {v : DiyFp} (h : v.IsDouble) : (v.f <<< 1).toNat = v.f.toNat * 2 :=
  toNat_shiftLeft_of_lt (s := 1) (by decide) (by have hlt := h.lt; omega)

theorem upper_spec {v : DiyFp} (h : v.IsDouble) :
    ∃ s ≤ 52, normalizeBoundary ⟨(v.f <<< 1) + 1, v.e - 1⟩ =
        some ⟨UInt64.ofNat ((v.f.toNat * 2 + 1) * 2 ^ (s + 10)), v.e - 1 - (s + 10 : Nat)⟩ ∧
      2 ^ 63 ≤ (v.f.toNat * 2 + 1) * 2 ^ (s + 10) ∧
      (v.f.toNat * 2 + 1) * 2 ^ (s + 10) < 2 ^ 64 := by
  have hpos := h.pos
  have hlt := h.lt
  have hupper : ((v.f <<< 1) + 1).toNat = v.f.toNat * 2 + 1 := by
    rw [UInt64.toNat_add, double_toNat h]
    exact Nat.mod_eq_of_lt (by change _ + 1 < _; omega)
  obtain ⟨s, hplus, hs, hs'⟩ := normalizeBoundary_spec (v := ⟨(v.f <<< 1) + 1, v.e - 1⟩)
    (by rw [hupper]; omega) (by rw [hupper]; omega)
  rw [hupper] at hplus hs hs'
  have hfew : s ≤ 52 := by
    by_contra hmany
    have hpow : 2 ^ 53 ≤ 2 ^ s := Nat.pow_le_pow_right (by decide) (by omega)
    have hthree : 3 * 2 ^ s ≤ (v.f.toNat * 2 + 1) * 2 ^ s := Nat.mul_le_mul_right _ (by omega)
    omega
  have hscale : (v.f.toNat * 2 + 1) * 2 ^ (s + 10) = (v.f.toNat * 2 + 1) * 2 ^ s * 2 ^ 10 := by
    ring
  exact ⟨s, hfew, hplus, by omega, by omega⟩

theorem lower_toNat {v : DiyFp} (h : v.IsDouble) {s : Nat} (hs : s ≤ 52)
    (hlt : (v.f.toNat * 2 + 1) * 2 ^ (s + 10) < 2 ^ 64) :
    (((v.f <<< 1) - 1) <<< UInt64.ofNat (s + 10)).toNat + 2 * 2 ^ (s + 10) =
      (v.f.toNat * 2 + 1) * 2 ^ (s + 10) := by
  have hpos := h.pos
  have hminus : ((v.f <<< 1) - 1).toNat = v.f.toNat * 2 - 1 := by
    rw [UInt64.toNat_sub_of_le, double_toNat h]
    · rfl
    · rw [UInt64.le_iff_toNat_le, double_toNat h]
      change 1 ≤ _
      omega
  have hsub : (v.f.toNat * 2 - 1) * 2 ^ (s + 10) + 2 * 2 ^ (s + 10) =
      (v.f.toNat * 2 + 1) * 2 ^ (s + 10) := by
    rw [← Nat.add_mul]
    congr 1
    omega
  rw [toNat_shiftLeft_of_lt (by omega) (by rw [hminus]; omega), hminus, hsub]

theorem normalizedBoundaries_spec {v : DiyFp} (h : v.IsDouble) :
    ∃ minus plus, v.normalizedBoundaries = some (minus, plus) ∧ Bounds minus plus := by
  have hlow := h.low
  have hhigh := h.high
  obtain ⟨s, hs, hplus, hge, hlt⟩ := upper_spec h
  have hf : (UInt64.ofNat ((v.f.toNat * 2 + 1) * 2 ^ (s + 10))).toNat =
      (v.f.toNat * 2 + 1) * 2 ^ (s + 10) := by
    rw [UInt64.toNat_ofNat', Nat.mod_eq_of_lt hlt]
  have hunit : 2 ^ 10 ≤ 2 ^ (s + 10) := Nat.pow_le_pow_right (by decide) (by omega)
  rw [normalizedBoundaries, hplus]
  refine ⟨_, _, rfl, ⟨rfl, by dsimp only; omega, by dsimp only; omega, by rwa [hf], ?_⟩⟩
  rw [hf]
  by_cases hhidden : v.f = kDpHiddenBit
  · -- the double below is only half as far away
    have hbit : v.f.toNat = 2 ^ 52 := by
      rw [hhidden]
      rfl
    have hzero : s = 0 := by
      by_contra hsome
      have hpow : 2 ^ 11 ≤ 2 ^ (s + 10) := Nat.pow_le_pow_right (by decide) (by omega)
      have htwice := Nat.mul_le_mul_left (v.f.toNat * 2 + 1) hpow
      omega
    subst hzero
    have hminus : ((v.f <<< 2) - 1).toNat = 2 ^ 54 - 1 := by
      rw [hhidden]
      rfl
    have hshift : (v.e - 2 - (v.e - 1 - (0 + 10 : Nat))).toNat = 9 := by omega
    rw [if_pos hhidden]
    dsimp only
    rw [hshift, toNat_shiftLeft_of_lt (by decide) (by rw [hminus]; decide), hminus, hbit]
    decide
  · have hlower := lower_toNat h hs hlt
    have hshift : (v.e - 1 - (v.e - 1 - (s + 10 : Nat))).toNat = s + 10 := by omega
    rw [if_neg hhidden]
    dsimp only
    rw [hshift]
    omega

/--
After the multiplication with a power of the table, and with the bounds one unit
closer, the distance is still more than `10 ^ -16` of the upper bound.
-/
theorem Bounds.scaled {lower upper power : DiyFp} (h : Bounds lower upper)
    (hpower : 2 ^ 63 ≤ power.f.toNat) :
    let wp := (upper.times power).f - 1
    let delta := wp - ((lower.times power).f + 1)
    power.f.toNat / 2 ≤ wp.toNat + 1 ∧ wp.toNat < power.f.toNat ∧
      delta.toNat < wp.toNat ∧ wp.toNat < 10 ^ 16 * delta.toNat := by
  have hspread := h.spread
  have hnormal := h.normalized
  have hlt := upper.f.toNat_lt
  obtain ⟨distance, hdistance⟩ : ∃ distance, upper.f.toNat = lower.f.toNat + distance :=
    Nat.exists_eq_add_of_le (by omega)
  have hproduct : upper.f.toNat * power.f.toNat =
      lower.f.toNat * power.f.toNat + distance * power.f.toNat := by
    rw [hdistance, Nat.add_mul]
  have hwide : upper.f.toNat * power.f.toNat + 6 * 10 ^ 16 * power.f.toNat ≤
      10 ^ 16 * (distance * power.f.toNat) := by
    rw [← Nat.add_mul, ← Nat.mul_assoc]
    exact Nat.mul_le_mul_right _ (by omega)
  have hlow : 2 ^ 63 * power.f.toNat ≤ upper.f.toNat * power.f.toNat :=
    Nat.mul_le_mul_right _ hnormal
  have hhigh : upper.f.toNat * power.f.toNat ≤ (2 ^ 64 - 1) * power.f.toNat :=
    Nat.mul_le_mul_right _ (by omega)
  have hbound := power.f.toNat_lt
  have hupper := upper.times_f power
  have hlower := lower.times_f power
  generalize upper.f.toNat * power.f.toNat = product at hproduct hwide hlow hhigh hupper
  generalize lower.f.toNat * power.f.toNat = product' at hproduct hlower
  generalize distance * power.f.toNat = between at hproduct hwide
  have hwp : ((upper.times power).f - 1).toNat = (upper.times power).f.toNat - 1 := by
    rw [UInt64.toNat_sub_of_le]
    · rfl
    · rw [UInt64.le_iff_toNat_le, hupper]
      change 1 ≤ _
      omega
  have hwm : ((lower.times power).f + 1).toNat = (lower.times power).f.toNat + 1 := by
    rw [UInt64.toNat_add]
    exact Nat.mod_eq_of_lt (by rw [hlower]; change _ + 1 < _; omega)
  have hdelta : ((upper.times power).f - 1 - ((lower.times power).f + 1)).toNat =
      (upper.times power).f.toNat - 1 - ((lower.times power).f.toNat + 1) := by
    rw [UInt64.toNat_sub_of_le, hwp, hwm]
    rw [UInt64.le_iff_toNat_le, hwp, hwm, hupper, hlower]
    omega
  dsimp only
  rw [hdelta, hwp, hupper, hlower]
  omega

end DiyFp

end RinhaBackend.RapidJson
