import HotBatch.Foundation.Words
import Mathlib.Data.Nat.Prime.Basic
import Mathlib.Dynamics.PeriodicPts.Lemmas

/-!
# Polynomials in a linear step

A number stands for the polynomial over the field of two elements that has its bits as coefficients.
Such a polynomial can be applied to a linear step of words. Modulo a polynomial that the step
annihilates, powers of the step become small numbers, so that the length of its orbits can be found
by computing with those.
-/

namespace HotBatch.Words

variable {width : ℕ} {step : BitVec width → BitVec width}

/-- The first `count` coefficients of a polynomial, applied to a word. -/
def evaluate (step : BitVec width → BitVec width) : ℕ → ℕ → BitVec width → BitVec width
  | 0, _, _ => BitVec.ofNat width 0
  | count + 1, poly, word =>
      (if poly.testBit 0 then word else BitVec.ofNat width 0) ^^^
        step (evaluate step count (poly / 2) word)

section Evaluate

variable {count : ℕ}

theorem evaluate_zero (hstep : Linear step) (count : ℕ) (word : BitVec width) :
    evaluate step count 0 word = BitVec.ofNat width 0 := by
  induction count with
  | zero => rfl
  | succ count ih => rw [evaluate, Nat.zero_div, ih, hstep.map_zero]; simp

theorem evaluate_xor (hstep : Linear step) (count left right : ℕ) (word : BitVec width) :
    evaluate step count (left ^^^ right) word =
      evaluate step count left word ^^^ evaluate step count right word := by
  induction count generalizing left right with
  | zero => exact BitVec.xor_self.symm
  | succ count ih =>
      have hfirst : (if (left ^^^ right).testBit 0 then word else BitVec.ofNat width 0) =
          (if left.testBit 0 then word else BitVec.ofNat width 0) ^^^
            (if right.testBit 0 then word else BitVec.ofNat width 0) := by
        rw [Nat.testBit_xor]
        cases left.testBit 0 <;> cases right.testBit 0 <;> simp
      rw [evaluate, evaluate, evaluate, Nat.xor_div_two, ih, hstep, hfirst]
      ac_rfl

theorem linear_evaluate (hstep : Linear step) (count poly : ℕ) :
    Linear (evaluate step count poly) := by
  induction count generalizing poly with
  | zero => exact fun _ _ ↦ BitVec.xor_self.symm
  | succ count ih =>
      intro left right
      rw [evaluate, evaluate, evaluate, ih, hstep]
      cases poly.testBit 0
      · simp
      · simp only [if_true]
        ac_rfl

theorem evaluate_one (hstep : Linear step) (count : ℕ) (word : BitVec width) :
    evaluate step (count + 1) 1 word = word := by
  have hhalf : 1 / 2 = 0 := rfl
  rw [evaluate, hhalf, evaluate_zero hstep, hstep.map_zero]
  simp

/-- Doubling a number multiplies its polynomial by the step. -/
theorem evaluate_double (count poly : ℕ) (word : BitVec width) :
    evaluate step (count + 1) (2 * poly) word = step (evaluate step count poly word) := by
  rw [evaluate, Nat.mul_div_cancel_left poly Nat.two_pos]
  simp

/-- Coefficients that are not there do not matter. -/
theorem evaluate_widen (hstep : Linear step) {poly : ℕ} (hpoly : poly < 2 ^ count)
    (word : BitVec width) : evaluate step (count + 1) poly word = evaluate step count poly word := by
  induction count generalizing poly with
  | zero =>
      obtain rfl := Nat.lt_one_iff.mp hpoly
      exact (evaluate_zero hstep _ _).trans (evaluate_zero hstep _ _).symm
  | succ count ih =>
      have hhalf : poly / 2 < 2 ^ count := by
        rw [Nat.pow_succ] at hpoly
        omega
      rw [evaluate, ih hhalf]
      rfl

end Evaluate

/-! ## Modulo a polynomial of the step -/

/-- `modulus` has this degree, and applied to the step it gives zero. -/
structure Annihilates (step : BitVec width → BitVec width) (degree modulus : ℕ) : Prop where
  lt : modulus < 2 ^ (degree + 1)
  leading : modulus.testBit degree = true
  vanishes : ∀ word, evaluate step (degree + 1) modulus word = BitVec.ofNat width 0

/-- A polynomial annihilates the step if it gives zero on the words with a single bit. -/
theorem annihilates_of_twoPow (hstep : Linear step) {degree modulus : ℕ}
    (hlt : modulus < 2 ^ (degree + 1)) (hleading : modulus.testBit degree = true)
    (hvanishes : ∀ index < width,
      evaluate step (degree + 1) modulus (.twoPow width index) = BitVec.ofNat width 0) :
    Annihilates step degree modulus := by
  have hzero : Linear fun _ : BitVec width ↦ BitVec.ofNat width 0 := fun _ _ ↦ BitVec.xor_self.symm
  exact ⟨hlt, hleading, (linear_evaluate hstep _ _).eq_of_twoPow hzero hvanishes⟩

section Modulo

variable (degree modulus : ℕ)

/-- The product with the step: a bit that is shifted out is replaced by what the modulus says. -/
def timesStep (poly : ℕ) : ℕ := 2 * poly ^^^ 2 * poly / 2 ^ degree * modulus

/-- The product with the first `count` coefficients of the left factor. -/
def multiply : ℕ → ℕ → ℕ → ℕ
  | 0, _, _ => 0
  | count + 1, left, right =>
      left % 2 * right ^^^ timesStep degree modulus (multiply count (left / 2) right)

/-- A power of the step, whose exponent has `count` bits. -/
def power : ℕ → ℕ → ℕ
  | 0, _ => 1
  | count + 1, exponent =>
      let root := power count (exponent / 2)
      let square := multiply degree modulus degree root root
      if exponent % 2 = 1 then timesStep degree modulus square else square

variable {degree modulus}

/-- A number that has lost its highest bit is smaller. -/
theorem lt_of_xor_leading {poly : ℕ} (hlt : poly < 2 ^ (degree + 1))
    (hmodulus : modulus < 2 ^ (degree + 1)) (hleading : modulus.testBit degree = true)
    (hbit : poly.testBit degree = true) : poly ^^^ modulus < 2 ^ degree := by
  apply Nat.lt_pow_two_of_testBit
  intro index hindex
  rw [Nat.testBit_xor]
  cases Nat.eq_or_lt_of_le hindex with
  | inl heq => rw [← heq, hbit, hleading, Bool.xor_self]
  | inr hlarger =>
      have hpow : 2 ^ (degree + 1) ≤ 2 ^ index := Nat.pow_le_pow_right Nat.two_pos hlarger
      rw [Nat.testBit_lt_two_pow (hlt.trans_le hpow), Nat.testBit_lt_two_pow (hmodulus.trans_le hpow),
        Bool.xor_self]

variable (hstep : Linear step) (hmodulus : Annihilates step degree modulus)
include hstep hmodulus

theorem evaluate_timesStep {poly : ℕ} (hpoly : poly < 2 ^ degree) :
    timesStep degree modulus poly < 2 ^ degree ∧ ∀ word,
      evaluate step degree (timesStep degree modulus poly) word =
        step (evaluate step degree poly word) := by
  have hdouble : 2 * poly < 2 ^ (degree + 1) := by
    rw [Nat.pow_succ]
    omega
  have hquotient : 2 * poly / 2 ^ degree < 2 := by
    apply Nat.div_lt_of_lt_mul
    rwa [Nat.pow_succ] at hdouble
  have hbit := Nat.testBit_eq_decide_div_mod_eq (x := 2 * poly) (i := degree)
  rw [Nat.mod_eq_of_lt hquotient] at hbit
  unfold timesStep
  rcases Nat.lt_succ_iff_lt_or_eq.mp hquotient with hnone | hone
  · have hzero := Nat.lt_one_iff.mp hnone
    have hlt : 2 * poly < 2 ^ degree := by
      rw [Nat.div_eq_zero_iff] at hzero
      exact hzero.resolve_left (Nat.two_pow_pos degree).ne'
    rw [hzero, Nat.zero_mul, Nat.xor_zero]
    refine ⟨hlt, fun word ↦ ?_⟩
    rw [← evaluate_widen hstep hlt, evaluate_double]
  · rw [hone, decide_eq_true rfl] at hbit
    have hlt := lt_of_xor_leading hdouble hmodulus.lt hmodulus.leading hbit
    rw [hone, Nat.one_mul]
    refine ⟨hlt, fun word ↦ ?_⟩
    rw [← evaluate_widen hstep hlt, evaluate_xor hstep, hmodulus.vanishes, evaluate_double]
    simp

/-- Products of polynomials are applied one after the other. -/
theorem evaluate_multiply (count left : ℕ) {right : ℕ} (hright : right < 2 ^ degree) :
    multiply degree modulus count left right < 2 ^ degree ∧ ∀ word,
      evaluate step degree (multiply degree modulus count left right) word =
        evaluate step count left (evaluate step degree right word) := by
  induction count generalizing left with
  | zero => exact ⟨Nat.two_pow_pos degree, evaluate_zero hstep degree⟩
  | succ count ih =>
      obtain ⟨hlt, hsame⟩ := ih (left / 2)
      obtain ⟨hltStep, hsameStep⟩ := evaluate_timesStep hstep hmodulus hlt
      rw [multiply]
      simp only [evaluate, Nat.testBit_zero]
      rcases Nat.mod_two_eq_zero_or_one left with heven | hodd
      · rw [heven, Nat.zero_mul, Nat.zero_xor]
        refine ⟨hltStep, fun word ↦ ?_⟩
        rw [hsameStep, hsame]
        simp
      · rw [hodd, Nat.one_mul]
        refine ⟨Nat.xor_lt_two_pow hright hltStep, fun word ↦ ?_⟩
        rw [evaluate_xor hstep, hsameStep, hsame]
        simp

/-- The powers are those of the step. -/
theorem evaluate_power (hdegree : 0 < degree) (count : ℕ) {exponent : ℕ}
    (hexponent : exponent < 2 ^ count) :
    power degree modulus count exponent < 2 ^ degree ∧ ∀ word,
      evaluate step degree (power degree modulus count exponent) word = step^[exponent] word := by
  induction count generalizing exponent with
  | zero =>
      obtain rfl := Nat.lt_one_iff.mp hexponent
      obtain ⟨degree, rfl⟩ := Nat.exists_eq_add_of_lt hdegree
      refine ⟨Nat.one_lt_two_pow (Nat.succ_ne_zero _), fun word ↦ ?_⟩
      exact evaluate_one hstep _ word
  | succ count ih =>
      have hhalf : exponent / 2 < 2 ^ count := by
        rw [Nat.pow_succ] at hexponent
        omega
      obtain ⟨hlt, hsame⟩ := ih hhalf
      obtain ⟨hltSquare, hsameSquare⟩ := evaluate_multiply hstep hmodulus degree
        (power degree modulus count (exponent / 2)) hlt
      have hsquare : ∀ word, evaluate step degree (multiply degree modulus degree
          (power degree modulus count (exponent / 2)) (power degree modulus count (exponent / 2)))
            word = step^[exponent / 2 + exponent / 2] word := by
        intro word
        rw [hsameSquare, hsame, hsame, Function.iterate_add_apply]
      rw [power]
      rcases Nat.mod_two_eq_zero_or_one exponent with heven | hodd
      · have hexponent : exponent = exponent / 2 + exponent / 2 := by omega
        rw [if_neg (by simp [heven])]
        refine ⟨hltSquare, fun word ↦ ?_⟩
        conv_rhs => rw [hexponent]
        exact hsquare word
      · have hexponent : exponent = exponent / 2 + exponent / 2 + 1 := by omega
        obtain ⟨hltStep, hsameStep⟩ := evaluate_timesStep hstep hmodulus hltSquare
        rw [if_pos hodd]
        refine ⟨hltStep, fun word ↦ ?_⟩
        conv_rhs => rw [hexponent]
        rw [hsameStep, hsquare, Function.iterate_succ_apply']

/-- A polynomial that has an inverse takes no word to zero but zero. -/
theorem eq_zero_of_evaluate_eq_zero (hdegree : 0 < degree) {inverse poly : ℕ}
    (hpoly : poly < 2 ^ degree) (hinverse : multiply degree modulus degree inverse poly = 1)
    {word : BitVec width} (hzero : evaluate step degree poly word = BitVec.ofNat width 0) :
    word = BitVec.ofNat width 0 := by
  obtain ⟨less, rfl⟩ := Nat.exists_eq_add_of_lt hdegree
  have hsame := (evaluate_multiply hstep hmodulus (0 + less + 1) inverse hpoly).2 word
  rwa [hinverse, evaluate_one hstep, hzero, (linear_evaluate hstep _ _).map_zero] at hsame

end Modulo

/-! ## The length of the orbits -/

/-- A period that no prime divides further is the least one. -/
theorem minimalPeriod_eq_of_div_prime {α : Type} {f : α → α} {x : α} {period : ℕ}
    (hperiod : f^[period] x = x)
    (hprimes : ∀ prime : ℕ, prime.Prime → prime ∣ period → f^[period / prime] x ≠ x) :
    Function.minimalPeriod f x = period := by
  have hdvd : Function.minimalPeriod f x ∣ period := Function.IsPeriodicPt.minimalPeriod_dvd hperiod
  obtain ⟨rest, hrest⟩ := hdvd
  by_contra hne
  have hone : rest ≠ 1 := by
    rintro rfl
    exact hne (by rw [hrest, Nat.mul_one])
  obtain ⟨prime, hprime, smaller, rfl⟩ := Nat.exists_prime_and_dvd hone
  have hquotient : period / prime = Function.minimalPeriod f x * smaller := by
    rw [hrest, Nat.mul_left_comm, Nat.mul_div_cancel_left _ hprime.pos]
  apply hprimes prime hprime ⟨_, hrest.trans (Nat.mul_left_comm _ _ _)⟩
  rw [hquotient]
  exact Function.isPeriodicPt_iff_minimalPeriod_dvd.mpr (Nat.dvd_mul_right _ _)

/-- **All orbits but that of zero have the same length**, when the step to that power is the
identity, and for every prime divisor the smaller power minus the identity has an inverse. -/
theorem minimalPeriod_eq (hstep : Linear step) {degree modulus period : ℕ} (hdegree : 0 < degree)
    (hmodulus : Annihilates step degree modulus) (hlt : period < 2 ^ degree)
    (hone : power degree modulus degree period = 1)
    (hinverses : ∀ prime : ℕ, prime.Prime → prime ∣ period → ∃ inverse,
      multiply degree modulus degree inverse
        (power degree modulus degree (period / prime) ^^^ 1) = 1)
    {word : BitVec width} (hne : word ≠ BitVec.ofNat width 0) :
    Function.minimalPeriod step word = period := by
  obtain ⟨less, rfl⟩ := Nat.exists_eq_add_of_lt hdegree
  apply minimalPeriod_eq_of_div_prime
  · rw [← (evaluate_power hstep hmodulus hdegree _ hlt).2, hone, evaluate_one hstep]
  · intro prime hprime hdvd hfixed
    obtain ⟨inverse, hinverse⟩ := hinverses prime hprime hdvd
    obtain ⟨hsmall, hsame⟩ := evaluate_power hstep hmodulus hdegree (0 + less + 1)
      ((Nat.div_le_self period prime).trans_lt hlt)
    apply hne
    apply eq_zero_of_evaluate_eq_zero hstep hmodulus hdegree
      (Nat.xor_lt_two_pow hsmall (Nat.one_lt_two_pow (Nat.succ_ne_zero _))) hinverse
    rw [evaluate_xor hstep, hsame, hfixed, evaluate_one hstep, BitVec.xor_self]

section Orbits

variable {α : Type} {next : α → α} {start : α} {code : α → ℕ} {size : ℕ}

/-- An orbit that is as long as there are codes but zero goes through all of them. -/
theorem image_orbit (hcode : Function.Injective code)
    (hbounds : ∀ turns, 0 < code (next^[turns] start) ∧ code (next^[turns] start) < size)
    (hperiod : Function.minimalPeriod next start = size - 1) :
    Set.InjOn (fun turns ↦ code (next^[turns] start)) (Finset.range (size - 1)) ∧
      (Finset.range (size - 1)).image (fun turns ↦ code (next^[turns] start)) =
        Finset.Ico 1 size := by
  have hinjective : Set.InjOn (fun turns ↦ code (next^[turns] start)) (Finset.range (size - 1)) := by
    intro first hfirst second hsecond heq
    rw [Finset.mem_coe, Finset.mem_range, ← hperiod] at hfirst hsecond
    exact (Function.iterate_eq_iterate_iff_of_lt_minimalPeriod hfirst hsecond).mp (hcode heq)
  refine ⟨hinjective, Finset.eq_of_subset_of_card_le ?_ ?_⟩
  · intro value hvalue
    obtain ⟨turns, -, rfl⟩ := Finset.mem_image.mp hvalue
    exact Finset.mem_Ico.mpr (hbounds turns)
  · rw [Finset.card_image_of_injOn hinjective, Finset.card_range, Nat.card_Ico]

/-- So many turns of the orbit have a property as there are codes that have it. -/
theorem card_orbit (hcode : Function.Injective code)
    (hbounds : ∀ turns, 0 < code (next^[turns] start) ∧ code (next^[turns] start) < size)
    (hperiod : Function.minimalPeriod next start = size - 1) (p : ℕ → Prop) [DecidablePred p] :
    ((Finset.range (size - 1)).filter fun turns ↦ p (code (next^[turns] start))).card =
      ((Finset.Ico 1 size).filter p).card := by
  obtain ⟨hinjective, himage⟩ := image_orbit hcode hbounds hperiod
  rw [← himage, Finset.filter_image, Finset.card_image_of_injOn]
  exact hinjective.mono (Finset.coe_subset.mpr (Finset.filter_subset _ _))

end Orbits

end HotBatch.Words
