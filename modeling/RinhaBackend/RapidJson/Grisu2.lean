import RinhaBackend.Foundation.Generation
import RinhaBackend.RapidJson.DiyFp
import RinhaBackend.RapidJson.Dtoa

/-!
# The digits of a double

`Grisu2` of RapidJSON: it scales a double by a power of ten of the table, writes the
digits of the upper bound of its neighbourhood until what is left is within that
neighbourhood, and then moves the last digit closer to the double.  For every double
that is neither zero nor infinite nor a NaN it ends with at most seventeen digits.
-/

namespace RinhaBackend.RapidJson

open Foundation Json

def countDecimalDigit32 (n : UInt32) : Nat :=
  if n < 10 then 1
  else if n < 100 then 2
  else if n < 1000 then 3
  else if n < 10000 then 4
  else if n < 100000 then 5
  else if n < 1000000 then 6
  else if n < 10000000 then 7
  else if n < 100000000 then 8
  else 9

def kPow10 (n : Nat) : UInt64 := UInt64.ofNat (10 ^ n)

/--
The loop of `GrisuRound`; `none` when it has not ended after `fuel` rounds, or when
there is no last digit.
-/
def grisuRound (delta tenKappa wpW : UInt64) : (fuel : Nat) → (buffer : Bytes) →
    (rest : UInt64) → Option Bytes
  | 0, _, _ => none
  | fuel + 1, buffer, rest =>
      if rest < wpW ∧ tenKappa ≤ delta - rest ∧
          (rest + tenKappa < wpW ∨ rest + tenKappa - wpW < wpW - rest) then
        match buffer.getLast? with
        | none => none
        | some last =>
            grisuRound delta tenKappa wpW fuel (buffer.dropLast ++ [last - 1])
              (rest + tenKappa)
      else some buffer

/-- A digit is written unless it is a leading zero. -/
def writeDigit (buffer : Bytes) (d : UInt32) : Bytes :=
  if d ≠ 0 ∨ buffer ≠ [] then buffer ++ [48 + d.toUInt8] else buffer

/-- The loop for the digits behind the point, where `kappa` is `-index`. -/
def digitGenFraction (shift : Nat) (wpW : UInt64) : (fuel index : Nat) →
    (p2 delta : UInt64) → (buffer : Bytes) → (k : Int) → Option (Bytes × Int)
  | 0, _, _, _, _, _ => none
  | fuel + 1, index, p2, delta, buffer, k =>
      let one : UInt64 := 1 <<< UInt64.ofNat shift
      let p2 := p2 * 10
      let delta := delta * 10
      let d := (p2 >>> UInt64.ofNat shift).toUInt8
      let buffer := writeDigit buffer d.toUInt32
      let p2 := p2 &&& (one - 1)
      let index := index + 1
      if p2 < delta then
        (grisuRound delta one (wpW * if index < 20 then kPow10 index else 0) 10 buffer
          p2).map fun buffer => (buffer, k - index)
      else digitGenFraction shift wpW fuel index p2 delta buffer k

/-- The loop for the digits before the point. -/
def digitGenInteger (shift : Nat) (wpW p2 delta : UInt64) : (kappa : Nat) →
    (p1 : UInt32) → (buffer : Bytes) → (k : Int) → Option (Bytes × Int)
  | 0, _, buffer, k => digitGenFraction shift wpW 20 0 p2 delta buffer k
  | kappa + 1, p1, buffer, k =>
      let d := p1 / UInt32.ofNat (10 ^ kappa)
      let p1 := p1 % UInt32.ofNat (10 ^ kappa)
      let buffer := writeDigit buffer d
      let tmp := (p1.toUInt64 <<< UInt64.ofNat shift) + p2
      if tmp ≤ delta then
        (grisuRound delta (kPow10 kappa <<< UInt64.ofNat shift) wpW 10 buffer tmp).map
          fun buffer => (buffer, k + kappa)
      else digitGenInteger shift wpW p2 delta kappa p1 buffer k

def digitGen (w mp : DiyFp) (delta : UInt64) (k : Int) : Option (Bytes × Int) :=
  let shift := (-mp.e).toNat
  let one : UInt64 := 1 <<< UInt64.ofNat shift
  let wpW := (mp.minus w).f
  let p1 := (mp.f >>> UInt64.ofNat shift).toUInt32
  let p2 := mp.f &&& (one - 1)
  digitGenInteger shift wpW p2 delta (countDecimalDigit32 p1) p1 [] k

/-- The digits and the exponent of the double with these bits. -/
def grisu2 (bits : UInt64) : Option (Bytes × Int) := do
  let v := DiyFp.ofBits bits
  let (wM, wP) ← v.normalizedBoundaries
  let (cMk, k) ← getCachedPower wP.e
  let w := v.normalize.times cMk
  let wp := wP.times cMk
  let wm := wM.times cMk
  let wm : DiyFp := { wm with f := wm.f + 1 }
  let wp : DiyFp := { wp with f := wp.f - 1 }
  digitGen w wp (wp.f - wm.f) k

/-! ## Words -/

section

variable {shift : Nat} (hshift : shift < 64)

include hshift

theorem toNat_one_shiftLeft : ((1 : UInt64) <<< UInt64.ofNat shift).toNat = 2 ^ shift := by
  have hlt : 2 ^ shift < 2 ^ 64 := Nat.pow_lt_pow_right (by decide) hshift
  rw [DiyFp.toNat_shiftLeft_of_lt hshift (by simpa using hlt)]
  exact Nat.one_mul _

theorem toNat_shiftRight_ofNat (x : UInt64) :
    (x >>> UInt64.ofNat shift).toNat = x.toNat / 2 ^ shift := by
  rw [UInt64.toNat_shiftRight, UInt64.toNat_ofNat',
    Nat.mod_eq_of_lt (show shift < 2 ^ 64 by omega), Nat.mod_eq_of_lt hshift,
    Nat.shiftRight_eq_div_pow]

theorem toNat_and_one_sub (x : UInt64) :
    (x &&& ((1 : UInt64) <<< UInt64.ofNat shift - 1)).toNat = x.toNat % 2 ^ shift := by
  have hone := toNat_one_shiftLeft hshift
  have hmask : ((1 : UInt64) <<< UInt64.ofNat shift - 1).toNat = 2 ^ shift - 1 := by
    rw [UInt64.toNat_sub_of_le, hone]
    · rfl
    · rw [UInt64.le_iff_toNat_le, hone]
      exact Nat.one_le_two_pow
  rw [UInt64.toNat_and, hmask, Nat.and_two_pow_sub_one_eq_mod]

end

theorem pow10_toNat {kappa : Nat} (h : kappa ≤ 8) :
    (UInt32.ofNat (10 ^ kappa)).toNat = 10 ^ kappa ∧ (kPow10 kappa).toNat = 10 ^ kappa := by
  have hlt : 10 ^ kappa < 2 ^ 32 :=
    lt_of_le_of_lt (Nat.pow_le_pow_right (by decide) h) (by decide)
  rw [kPow10, UInt32.toNat_ofNat', UInt64.toNat_ofNat', Nat.mod_eq_of_lt hlt,
    Nat.mod_eq_of_lt (hlt.trans (by decide))]
  exact ⟨rfl, rfl⟩

/-- Both halves of a number that is split at `unit`, when it is divided by a multiple. -/
theorem split_div_mod {high low unit : Nat} (hlow : low < unit) (part : Nat) :
    (high * unit + low) / (part * unit) = high / part ∧
      (high * unit + low) % (part * unit) = high % part * unit + low := by
  have hquotient : (high * unit + low) / (part * unit) = high / part := by
    rw [Nat.mul_comm part, ← Nat.div_div_eq_div_mul, Nat.mul_comm high,
      Nat.mul_add_div (by omega), Nat.div_eq_of_lt hlow, Nat.add_zero]
  refine ⟨hquotient, ?_⟩
  have hsplit := Nat.div_add_mod (high * unit + low) (part * unit)
  have hsplit' : high * unit = part * unit * (high / part) + high % part * unit := by
    conv_lhs => rw [← Nat.div_add_mod high part]
    ring
  rw [hquotient] at hsplit
  omega

section

variable {shift : Nat} {p2 : UInt64}

/-- The next digit after the point and what it leaves. -/
theorem fraction_words (hshift : shift ≤ 60) (hp2 : p2.toNat < 2 ^ shift) :
    ((p2 * 10) >>> UInt64.ofNat shift).toUInt8.toUInt32.toNat = p2.toNat * 10 / 2 ^ shift ∧
      (p2 * 10 &&& ((1 : UInt64) <<< UInt64.ofNat shift - 1)).toNat =
        p2.toNat * 10 % 2 ^ shift := by
  have hone : 2 ^ shift ≤ 2 ^ 60 := Nat.pow_le_pow_right (by decide) hshift
  have hten : (p2 * 10).toNat = p2.toNat * 10 := by
    rw [UInt64.toNat_mul]
    exact Nat.mod_eq_of_lt (by change _ * 10 < _; omega)
  have hdigit : p2.toNat * 10 / 2 ^ shift < 10 := (Nat.div_lt_iff_lt_mul (by omega)).mpr (by omega)
  rw [UInt8.toNat_toUInt32, UInt64.toNat_toUInt8, toNat_shiftRight_ofNat (by omega),
    toNat_and_one_sub (by omega), hten]
  exact ⟨Nat.mod_eq_of_lt (hdigit.trans (by decide)), rfl⟩

/-- The next digit before the point, what it leaves and the unit of its place. -/
theorem integer_words {kappa : Nat} {p1 : UInt32} (hkappa : kappa ≤ 8) (hshift : shift ≤ 60)
    (hp2 : p2.toNat < 2 ^ shift) (hunit : 10 ^ kappa * 2 ^ shift < 2 ^ 64) :
    (p1 / UInt32.ofNat (10 ^ kappa)).toNat =
        (p1.toNat * 2 ^ shift + p2.toNat) / (10 ^ kappa * 2 ^ shift) ∧
      (p1 % UInt32.ofNat (10 ^ kappa)).toNat * 2 ^ shift + p2.toNat =
        (p1.toNat * 2 ^ shift + p2.toNat) % (10 ^ kappa * 2 ^ shift) ∧
      ((p1 % UInt32.ofNat (10 ^ kappa)).toUInt64 <<< UInt64.ofNat shift + p2).toNat =
        (p1 % UInt32.ofNat (10 ^ kappa)).toNat * 2 ^ shift + p2.toNat ∧
      (kPow10 kappa <<< UInt64.ofNat shift).toNat = 10 ^ kappa * 2 ^ shift := by
  obtain ⟨hword, hten⟩ := pow10_toNat hkappa
  obtain ⟨hquotient, hremainder⟩ := @split_div_mod p1.toNat _ _ hp2 (10 ^ kappa)
  have hp1 : (p1 % UInt32.ofNat (10 ^ kappa)).toNat = p1.toNat % 10 ^ kappa := by
    rw [UInt32.toNat_mod, hword]
  have hlt := Nat.mod_lt (p1.toNat * 2 ^ shift + p2.toNat)
    (show 0 < 10 ^ kappa * 2 ^ shift by positivity)
  rw [hremainder, ← hp1] at hlt
  refine ⟨by rw [hquotient, UInt32.toNat_div, hword], by rw [hremainder, hp1], ?_, ?_⟩
  · rw [UInt64.toNat_add, DiyFp.toNat_shiftLeft_of_lt (by omega), UInt32.toNat_toUInt64,
      Nat.mod_eq_of_lt (by omega)]
    rw [UInt32.toNat_toUInt64]
    omega
  · rw [DiyFp.toNat_shiftLeft_of_lt (by omega) (by rw [hten]; omega), hten]

end

theorem writeDigit_renderDigits {digits : List Digit} {digit : Digit} {d : UInt32}
    (hd : d.toNat = digit.val) (hfirst : digits = [] → 0 < digit.val) :
    writeDigit (renderDigits digits) d = renderDigits (digits ++ [digit]) := by
  have hbyte : 48 + d.toUInt8 = digitByte digit.val := by
    rw [← UInt8.toNat_inj, digitByte, UInt8.toNat_ofNat', UInt8.toNat_add,
      UInt32.toNat_toUInt8, hd]
    change (48 + digit.val % 2 ^ 8) % 2 ^ 8 = _
    omega
  have hpush : d ≠ 0 ∨ renderDigits digits ≠ [] := by
    cases digits with
    | nil =>
        refine .inl fun hzero => ?_
        have hpos := hfirst rfl
        rw [← hd, hzero] at hpos
        exact absurd hpos (lt_irrefl 0)
    | cons lead digits => exact .inr (by simp [renderDigits])
  rw [writeDigit, if_pos hpush, hbyte]
  simp [renderDigits]

/-! ## Rounding -/

theorem renderDigits_getLast (digits : List Digit) (last : Digit) :
    (renderDigits (digits ++ [last])).getLast? = some (digitByte last.val) ∧
      (renderDigits (digits ++ [last])).dropLast = renderDigits digits := by
  simp [renderDigits]

theorem digitByte_sub_one : ∀ digit : Digit, 1 ≤ digit.val →
    digitByte digit.val - 1 = digitByte (digit.val - 1) := by
  decide

/-- A last digit that has enough to take off is left with a digit. -/
theorem grisuRound_spec {delta tenKappa wpW : UInt64} {digits : List Digit} {fuel : Nat}
    {last : Digit} {rest : UInt64} (hle : rest.toNat ≤ delta.toNat)
    (hmost : ∀ count, rest.toNat + count * tenKappa.toNat ≤ delta.toNat → count ≤ last.val)
    (hfuel : last.val < fuel) :
    ∃ (last' : Digit) (count : Nat), last'.val + count = last.val ∧
      rest.toNat + count * tenKappa.toNat ≤ delta.toNat ∧
      grisuRound delta tenKappa wpW fuel (renderDigits (digits ++ [last])) rest =
        some (renderDigits (digits ++ [last'])) := by
  induction fuel generalizing last rest with
  | zero => omega
  | succ fuel ih =>
      rw [grisuRound]
      split_ifs with hcloser
      · have hsub : (delta - rest).toNat = delta.toNat - rest.toNat :=
          UInt64.toNat_sub_of_le _ _ (UInt64.le_iff_toNat_le.mpr hle)
        have hten := UInt64.le_iff_toNat_le.mp hcloser.2.1
        rw [hsub] at hten
        have hlt := delta.toNat_lt
        have hadd : (rest + tenKappa).toNat = rest.toNat + tenKappa.toNat := by
          rw [UInt64.toNat_add, Nat.mod_eq_of_lt (by omega)]
        have hone : 1 ≤ last.val := hmost 1 (by omega)
        have hdigit := last.isLt
        obtain ⟨last', count, hlast', hcount, hrun⟩ :=
          @ih ⟨last.val - 1, by omega⟩ (rest + tenKappa) (by rw [hadd]; omega)
            (fun count hcount => by
              rw [hadd] at hcount
              have hmore := hmost (count + 1) (by rw [Nat.succ_mul]; omega)
              dsimp only
              omega)
            (by dsimp only; omega)
        dsimp only at hlast'
        rw [hadd] at hcount
        refine ⟨last', count + 1, by omega, by rw [Nat.succ_mul]; omega, ?_⟩
        obtain ⟨hlast, hbefore⟩ := renderDigits_getLast digits last
        rw [hlast, hbefore]
        dsimp only
        rw [digitByte_sub_one last hone, ← hrun]
        simp [renderDigits]
      · exact ⟨last, 0, by omega, by omega, rfl⟩

/-! ## The loops -/

/-- At most seventeen digits, the first of them not zero and in the place `10 ^ place`. -/
def Leads (place : Int) (found : Bytes × Int) : Prop :=
  ∃ (lead : Digit) (digits : List Digit), 0 < lead.val ∧ digits.length ≤ 16 ∧
    found.1 = renderDigits (lead :: digits) ∧ found.2 + digits.length = place

section

variable {number tolerance top scale unit rest factor unit' : Nat} {digits : List Digit}

/-- The loop ends at a digit after which what is left is within the tolerance. -/
theorem generating_leads (h : Generating number tolerance top digits scale unit rest)
    (hunit : unit * factor = 10 * unit') (hunit' : 0 < unit') (hfactor : 0 < factor)
    (htop : top ≤ 10 * number) (hprecision : number < 10 ^ 16 * tolerance)
    {digit : Digit} (hdigit : digit.val = rest * factor / unit')
    {delta tenKappa left wpW : UInt64} (hdelta : delta.toNat = tolerance * (scale * factor))
    (htenKappa : tenKappa.toNat = unit') (hleft : left.toNat = rest * factor % unit')
    (hclose : left.toNat ≤ delta.toNat) {d : UInt32} (hd : d.toNat = digit.val) (k : Int) :
    ∃ found, (grisuRound delta tenKappa wpW 10 (writeDigit (renderDigits digits) d) left).map
        (fun buffer => (buffer, k)) = some found ∧ Leads (k + digits.length) found := by
  have hten := digit.isLt
  rw [writeDigit_renderDigits hd fun hnil => hdigit ▸ h.digit_pos hunit hunit' htop hnil]
  have hcounts : ∀ count, left.toNat + count * tenKappa.toNat ≤ delta.toNat →
      count ≤ digit.val ∧ (digits = [] → count < digit.val) := by
    intro count hcount
    rw [hleft, htenKappa, hdelta] at hcount
    rw [hdigit]
    exact h.decrements hunit' hcount hfactor
  obtain ⟨last, count, hlast, hcount, hround⟩ := @grisuRound_spec delta tenKappa wpW digits 10
    digit left hclose (fun count hcount => (hcounts count hcount).1) hten
  rw [hround]
  refine ⟨_, rfl, ?_⟩
  have hlength := h.length_le htop hprecision
  cases hdigits : digits with
  | nil =>
      have hfew := (hcounts count hcount).2 hdigits
      exact ⟨last, [], by omega, by simp, rfl, by simp⟩
  | cons lead rest =>
      have hlead := h.lead
      rw [hdigits] at hlead hlength
      refine ⟨lead, rest ++ [last], ?_, ?_, rfl, ?_⟩
      · exact Nat.pos_of_ne_zero fun hzero => hlead (congrArg some (Fin.ext hzero))
      · simpa using hlength
      · simp

variable {shift : Nat} {wpW p2 delta : UInt64}

theorem digitGenFraction_spec (hshift : shift ≤ 60) (htop : top ≤ 10 * number)
    (hprecision : number < 10 ^ 16 * tolerance) {fuel index : Nat}
    (h : Generating number tolerance top digits (10 ^ index) (2 ^ shift) p2.toNat)
    (hdelta : delta.toNat = tolerance * 10 ^ index) (hfuel : 17 ≤ fuel + digits.length)
    (k : Int) :
    ∃ found, digitGenFraction shift wpW fuel index p2 delta (renderDigits digits) k =
      some found ∧ Leads (k - index + digits.length - 1) found := by
  induction fuel generalizing index p2 delta digits with
  | zero =>
      have hlength := h.length_le htop hprecision
      omega
  | succ fuel ih =>
      have hone : 2 ^ shift ≤ 2 ^ 60 := Nat.pow_le_pow_right (by decide) hshift
      have hrest := h.rest_lt
      have hleft := h.left
      have hunit : 2 ^ shift * 10 = 10 * 2 ^ shift := Nat.mul_comm _ _
      have hpos : 0 < 2 ^ shift := by positivity
      have hdelta' : (delta * 10).toNat = tolerance * (10 ^ index * 10) := by
        rw [UInt64.toNat_mul, ← Nat.mul_assoc, ← hdelta]
        exact Nat.mod_eq_of_lt (by change _ * 10 < _; omega)
      obtain ⟨hd, hlast⟩ := fraction_words hshift h.rest_lt
      obtain ⟨digit, hdigit⟩ : ∃ digit : Digit, digit.val = p2.toNat * 10 / 2 ^ shift :=
        ⟨⟨_, h.digit_lt hunit (by decide)⟩, rfl⟩
      rw [← hdigit] at hd
      rw [digitGenFraction]
      by_cases hclose : p2 * 10 &&& ((1 : UInt64) <<< UInt64.ofNat shift - 1) < delta * 10
      · rw [if_pos hclose]
        obtain ⟨found, hfound, hleads⟩ := generating_leads h hunit hpos (by decide) htop
          hprecision hdigit hdelta' (toNat_one_shiftLeft (by omega)) hlast
          (UInt64.lt_iff_toNat_lt.mp hclose).le hd (k - (index + 1 : Nat))
        refine ⟨found, hfound, ?_⟩
        have hplace : k - (index + 1 : Nat) + digits.length = k - index + digits.length - 1 := by
          omega
        rwa [hplace] at hleads
      · rw [if_neg hclose]
        have hfar := UInt64.le_iff_toNat_le.mp (UInt64.not_lt.mp hclose)
        rw [hlast, hdelta'] at hfar
        have hnext := h.next hunit hpos htop hdigit hfar
        rw [← pow_succ, ← hlast] at hnext
        rw [← pow_succ] at hdelta'
        obtain ⟨found, hfound, hleads⟩ := ih hnext hdelta' (by
          rw [List.length_append, List.length_singleton]
          omega)
        rw [writeDigit_renderDigits hd fun hnil => hdigit ▸ h.digit_pos hunit hpos htop hnil]
        refine ⟨found, hfound, ?_⟩
        have hplace : k - (index + 1 : Nat) + (digits ++ [digit]).length - 1 =
            k - index + digits.length - 1 := by
          rw [List.length_append, List.length_singleton]
          omega
        rwa [hplace] at hleads

theorem digitGenInteger_spec (hshift : shift ≤ 60) (htop : top ≤ 10 * number)
    (hprecision : number < 10 ^ 16 * tolerance) (hnumber : number < 2 ^ 64)
    (hp2 : p2.toNat < 2 ^ shift) (hdelta : delta.toNat = tolerance) {kappa : Nat}
    {p1 : UInt32} (hkappa : kappa ≤ 9)
    (h : Generating number tolerance top digits 1 (10 ^ kappa * 2 ^ shift)
      (p1.toNat * 2 ^ shift + p2.toNat)) (k : Int) :
    ∃ found, digitGenInteger shift wpW p2 delta kappa p1 (renderDigits digits) k =
      some found ∧ Leads (k + kappa + digits.length - 1) found := by
  induction kappa generalizing p1 digits with
  | zero =>
      have hrest := h.rest_lt
      have hp1 : p1.toNat = 0 := by
        by_contra hsome
        have hle : 1 * 2 ^ shift ≤ p1.toNat * 2 ^ shift := Nat.mul_le_mul_right _ (by omega)
        omega
      rw [hp1, Nat.zero_mul, Nat.zero_add, pow_zero, Nat.one_mul] at h
      have hscaled : delta.toNat = tolerance * 10 ^ 0 := by simpa using hdelta
      obtain ⟨found, hfound, hleads⟩ : ∃ found, digitGenFraction shift wpW 20 0 p2 delta
          (renderDigits digits) k = some found ∧ Leads (k - (0 : Nat) + digits.length - 1) found :=
        digitGenFraction_spec hshift htop hprecision h hscaled (by omega) k
      rw [digitGenInteger]
      exact ⟨found, hfound, by simpa using hleads⟩
  | succ kappa ih =>
      have hunit : 10 ^ (kappa + 1) * 2 ^ shift * 1 = 10 * (10 ^ kappa * 2 ^ shift) := by ring
      have hpos : 0 < 10 ^ kappa * 2 ^ shift := by positivity
      have hle : 10 ^ kappa * 2 ^ shift ≤ number := by simpa using h.unit_le hunit htop
      obtain ⟨hd, hleft, hrest, htenKappa⟩ := @integer_words shift p2 kappa p1 (by omega) hshift
        hp2 (by omega)
      rw [← Nat.mul_one (p1.toNat * 2 ^ shift + p2.toNat)] at hd hleft
      obtain ⟨digit, hdigit⟩ : ∃ digit : Digit, digit.val =
          (p1.toNat * 2 ^ shift + p2.toNat) * 1 / (10 ^ kappa * 2 ^ shift) :=
        ⟨⟨_, h.digit_lt hunit (by decide)⟩, rfl⟩
      rw [← hdigit] at hd
      have hscaled : delta.toNat = tolerance * (1 * 1) := by simpa using hdelta
      rw [digitGenInteger]
      split_ifs with hclose
      · obtain ⟨found, hfound, hleads⟩ := generating_leads h hunit hpos (by decide) htop
          hprecision hdigit hscaled htenKappa (hrest.trans hleft) (UInt64.le_iff_toNat_le.mp hclose) hd
          (k + kappa)
        refine ⟨found, hfound, ?_⟩
        have hplace : k + kappa + digits.length = k + (kappa + 1 : Nat) + digits.length - 1 := by
          omega
        rwa [hplace] at hleads
      · have hfar := UInt64.lt_iff_toNat_lt.mp (UInt64.not_le.mp hclose)
        rw [hrest, hleft, hscaled] at hfar
        have hnext := h.next hunit hpos htop hdigit hfar.le
        rw [← hleft, Nat.mul_one] at hnext
        obtain ⟨found, hfound, hleads⟩ := ih (by omega) hnext
        rw [writeDigit_renderDigits hd fun hnil => hdigit ▸ h.digit_pos hunit hpos htop hnil]
        refine ⟨found, hfound, ?_⟩
        have hplace : k + kappa + (digits ++ [digit]).length - 1 =
            k + (kappa + 1 : Nat) + digits.length - 1 := by
          rw [List.length_append, List.length_singleton]
          omega
        rwa [hplace] at hleads

end

/-! ## The first digit -/

theorem countDecimalDigit32_spec {n : UInt32} (hpos : 0 < n.toNat) (hlt : n.toNat < 10 ^ 9) :
    10 ^ (countDecimalDigit32 n - 1) ≤ n.toNat ∧ n.toNat < 10 ^ countDecimalDigit32 n ∧
      1 ≤ countDecimalDigit32 n ∧ countDecimalDigit32 n ≤ 9 := by
  simp only [countDecimalDigit32, UInt32.lt_iff_toNat_lt, UInt32.reduceToNat]
  split_ifs <;> simp <;> omega

/--
What the table has for the exponent of an upper bound: a normalized power that brings
the bound to a number with one to nine digits before the point.
-/
structure PowerFits (e : Int) (power : DiyFp) (k : Int) : Prop where
  normalized : 9223372036854775808 ≤ power.f.toNat
  shift_ge : 34 ≤ -(e + power.e + 64)
  shift_le : -(e + power.e + 64) ≤ 60
  least : 0 < (power.f.toNat / 2 - 1) >>> (-(e + power.e + 64)).toNat
  most : power.f.toNat >>> (-(e + power.e + 64)).toNat < 1000000000
  low : -324 ≤ k
  high : k ≤ 300

instance (e : Int) (power : DiyFp) (k : Int) : Decidable (PowerFits e power k) :=
  decidable_of_iff (9223372036854775808 ≤ power.f.toNat ∧ 34 ≤ -(e + power.e + 64) ∧
      -(e + power.e + 64) ≤ 60 ∧
      0 < (power.f.toNat / 2 - 1) >>> (-(e + power.e + 64)).toNat ∧
      power.f.toNat >>> (-(e + power.e + 64)).toNat < 1000000000 ∧ -324 ≤ k ∧ k ≤ 300)
    ⟨fun ⟨hnormalized, hge, hle, hleast, hmost, hlow, hhigh⟩ =>
      ⟨hnormalized, hge, hle, hleast, hmost, hlow, hhigh⟩,
    fun h => ⟨h.normalized, h.shift_ge, h.shift_le, h.least, h.most, h.low, h.high⟩⟩

theorem cachedPowers_fit : (List.range 2098).all (fun n =>
    (getCachedPower (n - 1137)).any fun found => PowerFits (n - 1137) found.1 found.2) =
      true := by
  decide +kernel

theorem getCachedPower_spec {e : Int} (hlow : -1137 ≤ e) (hhigh : e ≤ 960) :
    ∃ power k, getCachedPower e = some (power, k) ∧ PowerFits e power k := by
  have hall := List.all_eq_true.mp cachedPowers_fit (e + 1137).toNat
    (List.mem_range.mpr (by omega))
  have he : ((e + 1137).toNat : Int) - 1137 = e := by omega
  rw [he, Option.any_eq_true] at hall
  obtain ⟨⟨power, k⟩, hpower, hfits⟩ := hall
  exact ⟨power, k, hpower, of_decide_eq_true hfits⟩

/-! ## Every double has its digits -/

theorem digitGen_spec (w : DiyFp) {mp : DiyFp} {delta : UInt64} {shift : Nat} (hshift : shift ≤ 60)
    (he : (-mp.e).toNat = shift) (hpos : 0 < mp.f.toNat / 2 ^ shift)
    (hlt : mp.f.toNat / 2 ^ shift < 10 ^ 9) (hdelta : delta.toNat < mp.f.toNat)
    (hprecision : mp.f.toNat < 10 ^ 16 * delta.toNat) (k : Int) :
    ∃ (found : Bytes × Int) (place : Int), digitGen w mp delta k = some found ∧
      Leads place found ∧ k ≤ place ∧ place ≤ k + 8 := by
  obtain ⟨p1, hp1⟩ : ∃ p1, (mp.f >>> UInt64.ofNat shift).toUInt32 = p1 := ⟨_, rfl⟩
  have hnat : p1.toNat = mp.f.toNat / 2 ^ shift := by
    rw [← hp1, UInt64.toNat_toUInt32, toNat_shiftRight_ofNat (by omega),
      Nat.mod_eq_of_lt (by omega)]
  rw [← hnat] at hpos hlt
  obtain ⟨hlow, hhigh, hone, hnine⟩ := countDecimalDigit32_spec hpos hlt
  have hp2 := toNat_and_one_sub (show shift < 64 by omega) mp.f
  have hsplit : mp.f.toNat = p1.toNat * 2 ^ shift + mp.f.toNat % 2 ^ shift := by
    rw [hnat, Nat.mul_comm]
    exact (Nat.div_add_mod ..).symm
  have hunit : 0 < 2 ^ shift := by positivity
  have hmod := Nat.mod_lt mp.f.toNat hunit
  have hnumber : mp.f.toNat < 10 ^ countDecimalDigit32 p1 * 2 ^ shift := by
    have hle : (p1.toNat + 1) * 2 ^ shift ≤ 10 ^ countDecimalDigit32 p1 * 2 ^ shift :=
      Nat.mul_le_mul_right _ hhigh
    rw [Nat.succ_mul] at hle
    omega
  have htop : 10 ^ countDecimalDigit32 p1 * 2 ^ shift ≤ 10 * mp.f.toNat := by
    have hpow : 10 ^ countDecimalDigit32 p1 = 10 * 10 ^ (countDecimalDigit32 p1 - 1) := by
      rw [← pow_succ', Nat.sub_add_cancel hone]
    have hle : 10 ^ (countDecimalDigit32 p1 - 1) * 2 ^ shift ≤ p1.toNat * 2 ^ shift :=
      Nat.mul_le_mul_right _ hlow
    rw [hpow, Nat.mul_assoc]
    omega
  have hfresh : Generating mp.f.toNat delta.toNat (10 ^ countDecimalDigit32 p1 * 2 ^ shift) [] 1
      (10 ^ countDecimalDigit32 p1 * 2 ^ shift) (p1.toNat * 2 ^ shift +
        (mp.f &&& ((1 : UInt64) <<< UInt64.ofNat shift - 1)).toNat) := by
    rw [hp2, ← hsplit]
    exact .fresh hnumber hdelta
  rw [digitGen, he, hp1]
  obtain ⟨found, hfound, hleads⟩ := digitGenInteger_spec hshift htop hprecision
    mp.f.toNat_lt (by rw [hp2]; exact hmod) rfl hnine hfresh k
  refine ⟨found, _, hfound, hleads, ?_⟩
  rw [List.length_nil]
  omega

theorem grisu2_spec {bits : UInt64} (hfinite : bits.toNat / 2 ^ 52 % 2 ^ 11 ≠ 2047)
    (hzero : bits.toNat % 2 ^ 63 ≠ 0) :
    ∃ decimal : Decimal, grisu2 bits = some (decimal.buffer, decimal.k) := by
  obtain ⟨lower, upper, hbounds, hfar⟩ :=
    DiyFp.normalizedBoundaries_spec (DiyFp.ofBits_isDouble hfinite hzero)
  obtain ⟨power, k, hpower, hfits⟩ := getCachedPower_spec hfar.low hfar.high
  obtain ⟨hleast, hmost, hdelta, hprecision⟩ := hfar.scaled hfits.normalized
  have hshift_ge := hfits.shift_ge
  have hshift_le := hfits.shift_le
  have hpos := hfits.least
  have hlt := hfits.most
  rw [Nat.shiftRight_eq_div_pow] at hpos hlt
  have hshift : (-(upper.e + power.e + 64)).toNat ≤ 60 := by omega
  obtain ⟨found, place, hfound, ⟨lead, digits, hlead, hlength, hbuffer, hplace⟩, hge, hle⟩ :=
    @digitGen_spec ((DiyFp.ofBits bits).normalize.times power)
      ⟨(upper.times power).f - 1, upper.e + power.e + 64⟩ _ _ hshift rfl
      (lt_of_lt_of_le hpos (Nat.div_le_div_right (by dsimp only; omega)))
      (lt_of_le_of_lt (Nat.div_le_div_right hmost.le) hlt) hdelta hprecision k
  have hlow := hfits.low
  have hhigh := hfits.high
  refine ⟨⟨lead, hlead, digits, found.2, hlength, by omega, by omega⟩, ?_⟩
  rw [grisu2, hbounds]
  simp only [Option.bind_eq_bind, Option.bind_some, hpower]
  refine hfound.trans ?_
  rw [Decimal.buffer, ← hbuffer]

/-! ## Its decimal -/

namespace Decimal

/-- Digits and an exponent as they stand in the buffer. -/
def read (found : Bytes × Int) : Option Decimal :=
  let buffer := found.1.map fun c => lastDigit (digitValue c)
  let lead := buffer.headD (lastDigit 0)
  if h : 0 < lead.val ∧ buffer.tail.length ≤ 16 ∧ -324 ≤ found.2 + buffer.tail.length ∧
      found.2 + buffer.tail.length ≤ 308 then
    some ⟨lead, h.1, buffer.tail, found.2, h.2.1, h.2.2.1, h.2.2.2⟩
  else none

theorem lastDigit_digitValue : ∀ digit : Digit,
    lastDigit (digitValue (digitByte digit.val)) = digit := by
  decide

theorem read_buffer (decimal : Decimal) : read (decimal.buffer, decimal.k) = some decimal := by
  have hdigits : (decimal.buffer.map fun c => lastDigit (digitValue c)) =
      decimal.lead :: decimal.digits := by
    simp [buffer, renderDigits, lastDigit_digitValue, Function.comp_def]
  have hfits : 0 < decimal.lead.val ∧ decimal.digits.length ≤ 16 ∧
      -324 ≤ decimal.k + decimal.digits.length ∧ decimal.k + decimal.digits.length ≤ 308 :=
    ⟨decimal.lead_pos, decimal.digits_le, decimal.lower, decimal.upper⟩
  simp only [read, hdigits, List.headD_cons, List.tail_cons, dif_pos hfits]

def one : Decimal := ⟨lastDigit 1, lastDigit_one_pos, [], 0, by decide, by decide, by decide⟩

/-- What `Grisu2` finds for a double; `1` where it is never called. -/
def ofDouble (value : Float) : Decimal := ((grisu2 value.toBits).bind read).getD one

theorem grisu2_eq_of_bits {value : Float} (hfinite : value.toBits.toNat / 2 ^ 52 % 2 ^ 11 ≠ 2047)
    (hzero : value.toBits.toNat % 2 ^ 63 ≠ 0) :
    grisu2 value.toBits = some ((ofDouble value).buffer, (ofDouble value).k) := by
  obtain ⟨decimal, hfound⟩ := grisu2_spec hfinite hzero
  rw [ofDouble, hfound, Option.bind_some, read_buffer, Option.getD_some]

/--
`Grisu2` ends on every double that is neither zero nor infinite nor a NaN, and on the
double that `dtoa` passes on for a negative one.
-/
theorem grisu2_eq_ofDouble {d : Float} (hfinite : Ieee.isNanOrInf d = false)
    (hzero : Ieee.isZero d = false) {value : Float} (hvalue : value = d ∨ value = Ieee.neg d) :
    grisu2 value.toBits = some ((ofDouble value).buffer, (ofDouble value).k) := by
  have hexponent := Ieee.exponent_ne_of_finite hfinite
  have hne := Ieee.bits_ne_of_not_isZero hzero
  rcases hvalue with rfl | rfl
  · exact grisu2_eq_of_bits hexponent hne
  · have hbits : (Ieee.neg d).toBits.toNat % 2 ^ 63 = d.toBits.toNat % 2 ^ 63 :=
      Ieee.toBits_neg hexponent
    exact grisu2_eq_of_bits (by omega) (by omega)

end Decimal

example : grisu2 (0.1 + 0.2 : Float).toBits = some (ascii "30000000000000004", -17) := by
  decide +kernel

end RinhaBackend.RapidJson
