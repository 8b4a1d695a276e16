import Mathlib.Data.BitVec
import Mathlib.Data.Finite.Defs
import Mathlib.Data.Fintype.EquivFin
import Mathlib.Order.WellFounded

/-!
# Words and their shift-xor steps

A word that is xored with itself, shifted by a positive amount, keeps all its information: every bit
is determined by the result and the bits that the shift has brought there. Such steps are linear, so
what holds of the words with a single bit can be carried to all words; for one, that a word can be
told from the values that one bit takes in its orbit.
-/

namespace HotBatch.Words

variable {width : ℕ} {word left right : BitVec width} {shift index : ℕ}

/-- Words are equal if every bit is determined by the bits that come before it in some order. -/
theorem eq_of_bits {before : ℕ → ℕ → Prop} (hwf : WellFounded before)
    (hbit : ∀ index < width, (∀ earlier, before earlier index →
      left.getLsbD earlier = right.getLsbD earlier) → left.getLsbD index = right.getLsbD index) :
    left = right := by
  have hall : ∀ index, left.getLsbD index = right.getLsbD index := by
    intro index
    induction index using hwf.induction with
    | _ index ih =>
        by_cases hlt : index < width
        · exact hbit index hlt ih
        · rw [BitVec.getLsbD_of_ge _ _ (Nat.not_lt.mp hlt),
            BitVec.getLsbD_of_ge _ _ (Nat.not_lt.mp hlt)]
  exact BitVec.eq_of_getLsbD_eq fun index _ ↦ hall index

theorem xor_shiftLeft_injective (hshift : 0 < shift) :
    Function.Injective fun word : BitVec width ↦ word ^^^ (word <<< shift) := by
  intro left right heq
  apply eq_of_bits wellFounded_lt
  intro index hindex hbelow
  have hbits := congrArg (fun word : BitVec width ↦ word.getLsbD index) heq
  simp only [BitVec.getLsbD_xor, BitVec.getLsbD_shiftLeft] at hbits
  by_cases hlow : index < shift
  · simpa [hlow] using hbits
  · rw [hbelow (index - shift) (by omega)] at hbits
    exact Bool.xor_left_inj.mp hbits

theorem xor_shiftRight_injective (hshift : 0 < shift) :
    Function.Injective fun word : BitVec width ↦ word ^^^ (word >>> shift) := by
  intro left right heq
  apply eq_of_bits (measure fun index ↦ width - index).wf
  intro index hindex habove
  have hbits := congrArg (fun word : BitVec width ↦ word.getLsbD index) heq
  simp only [BitVec.getLsbD_xor, BitVec.getLsbD_ushiftRight] at hbits
  have hcloser : width - (shift + index) < width - index := by omega
  rw [habove (shift + index) hcloser] at hbits
  exact Bool.xor_left_inj.mp hbits

/-- A step that loses nothing is a permutation of the words. -/
theorem bijective_of_injective {step : BitVec width → BitVec width}
    (hinjective : Function.Injective step) : Function.Bijective step := by
  have hfinite : Finite (BitVec width) := .of_equiv _ BitVec.equivFin.symm.toEquiv
  exact Finite.injective_iff_bijective.mp hinjective

/-! ## Linear maps -/

/-- A map of words that respects xor. -/
def Linear (step : BitVec width → BitVec width) : Prop :=
  ∀ left right, step (left ^^^ right) = step left ^^^ step right

section Linear

variable {first second step : BitVec width → BitVec width}

theorem linear_xor_shiftLeft (shift : ℕ) :
    Linear fun word : BitVec width ↦ word ^^^ (word <<< shift) := by
  intro left right
  simp only [BitVec.shiftLeft_xor_distrib]
  ac_rfl

theorem linear_xor_shiftRight (shift : ℕ) :
    Linear fun word : BitVec width ↦ word ^^^ (word >>> shift) := by
  intro left right
  simp only [BitVec.ushiftRight_xor_distrib]
  ac_rfl

theorem Linear.comp (hfirst : Linear first) (hsecond : Linear second) :
    Linear (second ∘ first) := by
  intro left right
  rw [Function.comp_apply, hfirst, hsecond]
  rfl

theorem Linear.map_zero (hstep : Linear step) : step (BitVec.ofNat width 0) = BitVec.ofNat width 0 := by
  have hsum := hstep (BitVec.ofNat width 0) (BitVec.ofNat width 0)
  rwa [BitVec.xor_self, BitVec.xor_self] at hsum

/-- Words below a power of two are reached from the lower ones by xor with single bits. -/
theorem Linear.eq_of_low_bits (hfirst : Linear first) (hsecond : Linear second)
    (hsame : ∀ index < width, first (.twoPow width index) = second (.twoPow width index))
    {bound : ℕ} (hbound : bound ≤ width)
    (hlow : ∀ index, bound ≤ index → word.getLsbD index = false) : first word = second word := by
  induction bound generalizing word with
  | zero =>
      have hzero : word = BitVec.ofNat width 0 := BitVec.eq_of_getLsbD_eq fun index _ ↦ by
        rw [hlow index (Nat.zero_le _), BitVec.getLsbD_zero]
      rw [hzero, hfirst.map_zero, hsecond.map_zero]
  | succ bound ih =>
      by_cases hset : word.getLsbD bound = true
      · have hrest : first (word ^^^ .twoPow width bound) = second (word ^^^ .twoPow width bound) := by
          refine ih (Nat.le_of_succ_le hbound) fun index hindex ↦ ?_
          rw [BitVec.getLsbD_xor, BitVec.getLsbD_twoPow]
          cases Nat.eq_or_lt_of_le hindex with
          | inl heq => simp [← heq, hset, Nat.lt_of_succ_le hbound]
          | inr hlt => simp [hlow index hlt, Nat.ne_of_lt hlt]
        rw [hfirst, hsecond, hsame bound (Nat.lt_of_succ_le hbound)] at hrest
        exact (BitVec.xor_left_inj _).mp hrest
      · refine ih (Nat.le_of_succ_le hbound) fun index hindex ↦ ?_
        cases Nat.eq_or_lt_of_le hindex with
        | inl heq => rwa [← heq, ← Bool.not_eq_true]
        | inr hlt => exact hlow index hlt

/-- Linear maps are equal if they agree on the words with a single bit. -/
theorem Linear.eq_of_twoPow (hfirst : Linear first) (hsecond : Linear second)
    (hsame : ∀ index < width, first (.twoPow width index) = second (.twoPow width index))
    (word : BitVec width) : first word = second word :=
  hfirst.eq_of_low_bits hsecond hsame (Nat.le_refl _) (BitVec.getLsbD_of_ge word)

end Linear

/-! ## What one bit of an orbit tells -/

/-- The xor of the words of a table whose turn finds the bit set in the orbit of a word. -/
def recover (step : BitVec width → BitVec width) (bit : ℕ) :
    List (BitVec width) → BitVec width → BitVec width
  | [], _ => BitVec.ofNat width 0
  | entry :: rest, word =>
      (if word.getLsbD bit then entry else BitVec.ofNat width 0) ^^^ recover step bit rest (step word)

section Recover

variable {step : BitVec width → BitVec width} {bit : ℕ} {table : List (BitVec width)}

theorem linear_recover (hstep : Linear step) : Linear (recover step bit table) := by
  induction table with
  | nil => exact fun _ _ ↦ BitVec.xor_self.symm
  | cons entry rest ih =>
      intro left right
      have hentry : (if (left ^^^ right).getLsbD bit then entry else BitVec.ofNat width 0) =
          (if left.getLsbD bit then entry else BitVec.ofNat width 0) ^^^
            (if right.getLsbD bit then entry else BitVec.ofNat width 0) := by
        rw [BitVec.getLsbD_xor]
        cases left.getLsbD bit <;> cases right.getLsbD bit <;> simp
      rw [recover, recover, recover, hentry, hstep, ih]
      ac_rfl

/-- The table finds a word from one bit of its orbit. -/
theorem recover_eq_self (hstep : Linear step)
    (htable : ∀ index < width, recover step bit table (.twoPow width index) = .twoPow width index)
    (word : BitVec width) : recover step bit table word = word := by
  have hidentity : Linear fun word : BitVec width ↦ word := fun _ _ ↦ rfl
  exact (linear_recover hstep).eq_of_twoPow hidentity htable word

/-- Nothing is found in an orbit that never has the bit. -/
theorem recover_eq_zero
    (hnever : ∀ turn < table.length, (step^[turn] word).getLsbD bit = false) :
    recover step bit table word = BitVec.ofNat width 0 := by
  induction table generalizing word with
  | nil => rfl
  | cons entry rest ih =>
      have hrest := ih fun turn hturn ↦ hnever (turn + 1) (Nat.succ_lt_succ hturn)
      have hfirst := hnever 0 (Nat.succ_pos _)
      rw [recover, hrest, if_neg (by simpa using hfirst), BitVec.xor_self]

/-- In an orbit that does not move, all is found or nothing. -/
theorem recover_of_fixed (hfixed : step word = word) :
    recover step bit table word =
      if word.getLsbD bit then table.foldr (· ^^^ ·) (BitVec.ofNat width 0)
      else BitVec.ofNat width 0 := by
  induction table with
  | nil => simp [recover]
  | cons entry rest ih =>
      rw [recover, hfixed, ih]
      split <;> simp

end Recover

end HotBatch.Words
