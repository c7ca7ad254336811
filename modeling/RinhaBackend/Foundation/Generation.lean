import RinhaBackend.Foundation.Decimal

/-!
# Digits until they are close enough

A number is written digit by digit from its highest place on, and the digits stop as
soon as what is left of it is within a tolerance.  The places before the point are
reached by smaller units, those behind it by a larger scale, so a state of the process
is what is left, the unit of the last digit and the scale of both.
-/

namespace RinhaBackend.Foundation

open Json (Digit)

/--
The digits written so far are not close enough.  In units of `1 / scale`, `rest` is
what they leave of the number, less than the place `unit` of the last of them, and
`top` is the place above the first.
-/
structure Generating (number tolerance top : Nat) (digits : List Digit)
    (scale unit rest : Nat) : Prop where
  rest_lt : rest < unit
  left : tolerance * scale ≤ rest
  places : unit * 10 ^ digits.length = top * scale
  start : digits = [] → rest = number * scale ∧ tolerance * scale < rest
  lead : digits.head? ≠ some 0

section

variable {number tolerance top scale unit rest factor unit' : Nat} {digits : List Digit}

theorem Generating.fresh (htop : number < top) (hfar : tolerance < number) :
    Generating number tolerance top [] 1 top number where
  rest_lt := htop
  left := by omega
  places := by simp
  start _ := by omega
  lead := by simp

variable (h : Generating number tolerance top digits scale unit rest)

include h

/-- The next place is a tenth of the last one, after both have been scaled. -/
theorem Generating.digit_lt (hunit : unit * factor = 10 * unit') (hfactor : 0 < factor) :
    rest * factor / unit' < 10 := by
  have hlt : rest * factor < 10 * unit' := hunit ▸ Nat.mul_lt_mul_of_pos_right h.rest_lt hfactor
  exact Nat.div_lt_of_lt_mul (by rwa [Nat.mul_comm unit'])

theorem Generating.unit_le (hunit : unit * factor = 10 * unit') (htop : top ≤ 10 * number) :
    unit' ≤ number * (scale * factor) := by
  have hplaces : 10 * unit' * 10 ^ digits.length = top * (scale * factor) := by
    rw [← hunit, Nat.mul_right_comm, h.places, Nat.mul_assoc]
  have hone : 10 * unit' ≤ 10 * unit' * 10 ^ digits.length :=
    Nat.le_mul_of_pos_right _ (by positivity)
  have hscaled : top * (scale * factor) ≤ 10 * number * (scale * factor) :=
    Nat.mul_le_mul_right _ htop
  rw [Nat.mul_assoc] at hscaled
  omega

theorem Generating.digit_pos (hunit : unit * factor = 10 * unit') (hunit' : 0 < unit')
    (htop : top ≤ 10 * number) (hnil : digits = []) : 0 < rest * factor / unit' := by
  have hle := h.unit_le hunit htop
  rw [← Nat.mul_assoc, ← (h.start hnil).1] at hle
  exact Nat.div_pos hle hunit'

theorem Generating.next (hunit : unit * factor = 10 * unit') (hunit' : 0 < unit')
    (htop : top ≤ 10 * number) {digit : Digit} (hdigit : digit.val = rest * factor / unit')
    (hleft : tolerance * (scale * factor) ≤ rest * factor % unit') :
    Generating number tolerance top (digits ++ [digit]) (scale * factor) unit'
      (rest * factor % unit') where
  rest_lt := Nat.mod_lt _ hunit'
  left := hleft
  places := by
    have hplaces := h.places
    rw [List.length_append, List.length_singleton, pow_succ]
    calc unit' * (10 ^ digits.length * 10)
        = 10 * unit' * 10 ^ digits.length := by ring
      _ = unit * 10 ^ digits.length * factor := by rw [← hunit]; ring
      _ = top * (scale * factor) := by rw [hplaces]; ring
  start hnil := by simp at hnil
  lead := by
    cases hdigits : digits with
    | nil =>
        have hpos := h.digit_pos hunit hunit' htop hdigits
        simp only [List.nil_append, List.head?_cons, ne_eq, Option.some.injEq]
        intro hzero
        rw [← hdigit, hzero] at hpos
        exact absurd hpos (lt_irrefl 0)
    | cons lead rest =>
        have hlead := h.lead
        rw [hdigits] at hlead
        simpa using hlead

/-- A tolerance of at least `10 ^ -precision` of the number leaves so many digits at most. -/
theorem Generating.length_le (htop : top ≤ 10 * number) {precision : Nat}
    (hprecision : number < 10 ^ precision * tolerance) : digits.length ≤ precision := by
  by_contra hlong
  have hpow : 10 ^ (precision + 1) ≤ 10 ^ digits.length :=
    Nat.pow_le_pow_right (by decide) (by omega)
  have hlt : tolerance * scale * 10 ^ digits.length < top * scale := by
    rw [← h.places]
    exact Nat.mul_lt_mul_of_pos_right (lt_of_le_of_lt h.left h.rest_lt) (by positivity)
  have hbig : top * scale ≤ tolerance * scale * 10 ^ (precision + 1) := by
    calc top * scale ≤ 10 * (10 ^ precision * tolerance) * scale :=
          Nat.mul_le_mul_right _ (htop.trans (Nat.mul_le_mul_left 10 hprecision.le))
      _ = tolerance * scale * 10 ^ (precision + 1) := by ring
  exact absurd hlt (not_lt.mpr (hbig.trans (Nat.mul_le_mul_left _ hpow)))

/--
Rounding takes units off the last digit as long as that stays within the tolerance,
which is never more units than the digit has, and fewer if it is the only digit.
-/
theorem Generating.decrements (hunit' : 0 < unit') {count : Nat}
    (hcount : rest * factor % unit' + count * unit' ≤ tolerance * (scale * factor))
    (hfactor : 0 < factor) :
    count ≤ rest * factor / unit' ∧ (digits = [] → count < rest * factor / unit') := by
  have hsplit := Nat.div_add_mod (rest * factor) unit'
  have hcomm := Nat.mul_comm unit' (rest * factor / unit')
  have hleft : tolerance * (scale * factor) ≤ rest * factor := by
    rw [← Nat.mul_assoc]
    exact Nat.mul_le_mul_right _ h.left
  refine ⟨Nat.le_of_mul_le_mul_right (by omega) hunit', fun hnil => ?_⟩
  have hstrict : tolerance * (scale * factor) < rest * factor := by
    rw [← Nat.mul_assoc]
    exact Nat.mul_lt_mul_of_pos_right (h.start hnil).2 hfactor
  exact Nat.lt_of_mul_lt_mul_right (a := unit') (by omega)

end

end RinhaBackend.Foundation
