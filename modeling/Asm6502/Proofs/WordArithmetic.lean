import Mathlib.Data.Int.Bitwise
import Asm6502.Arithmetic

/-!
# Exact arithmetic

What the operators are worth in the integers, where nothing overflows.  On words an operator gives
the same, if that fits into a word, and nothing otherwise.  There are two exceptions: a shift to the
left keeps the low bits of what does not fit, and the least word has no remainder by -1.
-/

namespace Asm6502

/-- The integers that a word can hold. -/
def InWord (n : Int) : Prop := -2 ^ 63 ≤ n ∧ n < 2 ^ 63

instance (n : Int) : Decidable (InWord n) :=
  inferInstanceAs (Decidable (-2 ^ 63 ≤ n ∧ n < 2 ^ 63))

def truthValue (p : Prop) [Decidable p] : Int := if p then 1 else 0

/-- The value of an operator in front of an integer. -/
def UnaryOp.onInts (op : UnaryOp) (a : Int) : Int :=
  match op with
  | negate => -a
  | bitNot => -a - 1
  | not => truthValue (a = 0)
  | lowByte => a % 256
  | highByte => a / 256 % 256

/-- The value of an operator between two integers.  Nothing is divided by zero, and shifts are by
less than the size of a word. -/
def BinaryOp.onInts? (op : BinaryOp) (a b : Int) : Option Int :=
  match op with
  | add => some (a + b)
  | subtract => some (a - b)
  | multiply => some (a * b)
  | divide => if b = 0 then none else some (a.tdiv b)
  | modulo => if b = 0 then none else some (a.tmod b)
  | bitAnd => some (a.land b)
  | bitOr => some (a.lor b)
  | xor => some (a.xor b)
  | and => some (truthValue (a ≠ 0 ∧ b ≠ 0))
  | or => some (truthValue (a ≠ 0 ∨ b ≠ 0))
  | equal => some (truthValue (a = b))
  | notEqual => some (truthValue (a ≠ b))
  | less => some (truthValue (a < b))
  | lessEqual => some (truthValue (a ≤ b))
  | greater => some (truthValue (b < a))
  | greaterEqual => some (truthValue (b ≤ a))
  | shiftLeft => if 0 ≤ b ∧ b < 64 then some (a * 2 ^ b.toNat) else none
  | shiftRight => if 0 ≤ b ∧ b < 64 then some (a / 2 ^ b.toNat) else none

/-- The value that words allow for. -/
def BinaryOp.onWords? (op : BinaryOp) (a b : Int) : Option Int :=
  match op with
  | shiftLeft => (op.onInts? a b).map fun n => n.bmod (2 ^ 64)
  | modulo => if a = -2 ^ 63 ∧ b = -1 then none else op.onInts? a b
  | _ => op.onInts? a b

/-! ## Words -/

theorem inWord_toInt (v : Int64) : InWord v.toInt := ⟨v.le_toInt, v.toInt_lt⟩

theorem toInt_ofInt {n : Int} (h : InWord n) : (Int64.ofInt n).toInt = n :=
  Int64.toInt_ofInt_of_le h.1 h.2

theorem fit?_eq (n : Int) : fit? n = if InWord n then some (Int64.ofInt n) else none := by
  have h : (Int64.minValue.toInt ≤ n ∧ n ≤ Int64.maxValue.toInt) ↔ InWord n := by
    rw [Int64.toInt_minValue, Int64.toInt_maxValue, InWord]
    omega
  unfold fit?
  simp only [h]

theorem fit?_eq_some_iff {n : Int} {v : Int64} : fit? n = some v ↔ v.toInt = n := by
  rw [fit?_eq]
  constructor
  · intro h
    split at h
    next hn =>
      cases h
      exact toInt_ofInt hn
    next => cases h
  · rintro rfl
    rw [if_pos (inWord_toInt v), Int64.ofInt_toInt]

theorem some_eq_fit? {n : Int} {v : Int64} (h : v.toInt = n) : some v = fit? n :=
  (fit?_eq_some_iff.2 h).symm

theorem toInt_truth (p : Prop) [Decidable p] {b : Bool} (h : b = true ↔ p) :
    (truth b).toInt = truthValue p := by
  by_cases hp : p
  · rw [h.2 hp, truthValue, if_pos hp]
    rfl
  · rw [Bool.eq_false_iff.2 (mt h.1 hp), truthValue, if_neg hp]
    rfl

/-! ## Bits -/

/-- The bits of a signed word: beyond its size all are equal to the sign. -/
theorem testBit_toInt {w : Nat} (x : BitVec w) (k : Nat) :
    x.toInt.testBit k = if k < w then x.getLsbD k else x.msb := by
  cases h : x.msb with
  | false =>
      rw [BitVec.toInt_eq_toNat_of_msb h]
      change x.toNat.testBit k = _
      rw [BitVec.testBit_toNat]
      split
      · rfl
      · exact BitVec.getLsbD_of_ge x k (by omega)
  | true =>
      have hneg : x.toInt = Int.negSucc (~~~x).toNat := by
        rw [BitVec.toInt_eq_msb_cond, if_pos h, BitVec.toNat_not]
        have hx := x.isLt
        omega
      rw [hneg]
      change (!((~~~x).toNat.testBit k)) = _
      rw [BitVec.testBit_toNat, BitVec.getLsbD_not]
      split <;> simp_all

theorem eq_of_testBit_eq {a b : Int} (h : ∀ k, a.testBit k = b.testBit k) : a = b := by
  -- Far enough to the left all bits are the sign.
  have hsign (m n : Nat) : ∃ k, m.testBit k = false ∧ n.testBit k = false := by
    have hbig := Nat.lt_two_pow_self (n := m + n)
    exact ⟨m + n, Nat.testBit_lt_two_pow (by omega), Nat.testBit_lt_two_pow (by omega)⟩
  cases a with
  | ofNat m =>
      cases b with
      | ofNat n => exact congrArg Int.ofNat (Nat.eq_of_testBit_eq h)
      | negSucc n =>
          obtain ⟨k, hm, hn⟩ := hsign m n
          have hk := h k
          simp [Int.testBit, hm, hn] at hk
  | negSucc m =>
      cases b with
      | ofNat n =>
          obtain ⟨k, hm, hn⟩ := hsign m n
          have hk := h k
          simp [Int.testBit, hm, hn] at hk
      | negSucc n =>
          refine congrArg Int.negSucc (Nat.eq_of_testBit_eq fun k => ?_)
          have hk := h k
          simpa [Int.testBit] using hk

theorem toInt_and (a b : Int64) : (a &&& b).toInt = a.toInt.land b.toInt := by
  refine eq_of_testBit_eq fun k => ?_
  rw [Int.testBit_land, ← Int64.toInt_toBitVec, ← Int64.toInt_toBitVec, ← Int64.toInt_toBitVec,
    Int64.toBitVec_and, testBit_toInt, testBit_toInt, testBit_toInt]
  split <;> simp

theorem toInt_or (a b : Int64) : (a ||| b).toInt = a.toInt.lor b.toInt := by
  refine eq_of_testBit_eq fun k => ?_
  rw [Int.testBit_lor, ← Int64.toInt_toBitVec, ← Int64.toInt_toBitVec, ← Int64.toInt_toBitVec,
    Int64.toBitVec_or, testBit_toInt, testBit_toInt, testBit_toInt]
  split <;> simp

theorem toInt_xor (a b : Int64) : (a ^^^ b).toInt = a.toInt.xor b.toInt := by
  refine eq_of_testBit_eq fun k => ?_
  rw [Int.testBit_lxor, ← Int64.toInt_toBitVec, ← Int64.toInt_toBitVec, ← Int64.toInt_toBitVec,
    Int64.toBitVec_xor, testBit_toInt, testBit_toInt, testBit_toInt]
  split <;> simp

theorem toInt_complement (v : Int64) : (~~~v).toInt = -v.toInt - 1 := by
  obtain ⟨hlow, hhigh⟩ := inWord_toInt v
  rw [Int64.toInt_not]
  exact Int.bmod_eq_of_le (by omega) (by omega)

theorem toInt_and_255 (v : Int64) : (v &&& 0xFF).toInt = v.toInt % 256 := by
  have hbits : (v.toBitVec &&& 255#64).toNat = v.toBitVec.toNat % 256 := by
    rw [BitVec.toNat_and]
    exact Nat.and_two_pow_sub_one_eq_mod v.toBitVec.toNat 8
  have hsmall : (v.toBitVec &&& 255#64).toInt = (v.toBitVec &&& 255#64).toNat :=
    BitVec.toInt_eq_toNat_of_lt (by omega)
  change (v.toBitVec &&& 255#64).toInt = v.toBitVec.toInt % 256
  rw [hsmall, hbits, BitVec.toInt_eq_toNat_cond]
  split <;> omega

/-! ## Shifts -/

section Shifts

variable {k : Int64} (hk : 0 ≤ k.toInt ∧ k.toInt < 64)

include hk

/-- A shift by less than the size of a word is by the whole amount. -/
theorem toNat_smod_64 : (k.toBitVec.smod 64).toNat = k.toInt.toNat := by
  have hsmod : k.toBitVec.smod 64 = k.toBitVec := by
    apply BitVec.eq_of_toInt_eq
    rw [BitVec.toInt_smod, Int.fmod_eq_emod_of_nonneg _ (by decide)]
    exact Int.emod_eq_of_lt hk.1 hk.2
  have hword : k.toInt = k.toBitVec.toNat := by
    have hcond := BitVec.toInt_eq_toNat_cond k.toBitVec
    rw [Int64.toInt_toBitVec] at hcond
    have hsize := k.toBitVec.isLt
    split at hcond <;> omega
  rw [hsmod]
  omega

theorem toInt_shiftLeft (a : Int64) :
    (a <<< k).toInt = (a.toInt * 2 ^ k.toInt.toNat).bmod (2 ^ 64) := by
  rw [← Int64.toInt_toBitVec, ← Int64.toInt_toBitVec a, Int64.toBitVec_shiftLeft,
    BitVec.shiftLeft_eq', toNat_smod_64 hk, BitVec.toInt_shiftLeft, Nat.shiftLeft_eq,
    BitVec.toInt_eq_toNat_bmod, Int.bmod_mul_bmod]
  push_cast
  rfl

theorem toInt_shiftRight (a : Int64) : (a >>> k).toInt = a.toInt / 2 ^ k.toInt.toNat := by
  rw [← Int64.toInt_toBitVec, Int64.toBitVec_shiftRight, BitVec.sshiftRight_eq', toNat_smod_64 hk,
    BitVec.toInt_sshiftRight, Int.shiftRight_eq_div_pow]
  push_cast
  rfl

end Shifts

/-! ## Operators -/

/-- An operator in front of a word gives its exact value or nothing. -/
theorem UnaryOp.value_eq (op : UnaryOp) (v : Int64) : op.apply? v = fit? (op.onInts v.toInt) := by
  cases op with
  | negate => rfl
  | bitNot => exact some_eq_fit? (toInt_complement v)
  | not =>
      refine some_eq_fit? (toInt_truth _ ?_)
      rw [beq_iff_eq, ← Int64.toInt_inj, Int64.toInt_zero]
  | lowByte => exact some_eq_fit? (toInt_and_255 v)
  | highByte =>
      refine some_eq_fit? ?_
      rw [toInt_and_255, toInt_shiftRight (by decide)]
      rfl

/-- Only one quotient of words does not fit. -/
theorem inWord_tdiv_iff {a b : Int} (ha : InWord a) :
    InWord (a.tdiv b) ↔ ¬ (a = -2 ^ 63 ∧ b = -1) := by
  obtain ⟨hlow, hhigh⟩ := ha
  by_cases hminus : b = -1
  · rw [hminus, Int.tdiv_neg, Int.tdiv_one, InWord]
    omega
  · by_cases hone : b = 1
    · rw [hone, Int.tdiv_one, InWord]
      omega
    · have hquotient : (a.tdiv b).natAbs = a.natAbs / b.natAbs := Int.natAbs_tdiv a b
      have hsmall : a.natAbs / b.natAbs ≤ a.natAbs / 2 := by
        by_cases hzero : b = 0
        · simp [hzero]
        · exact Nat.div_le_div_left (by omega) (by decide)
      unfold InWord
      omega

theorem inWord_tmod {a b : Int} (hb : InWord b) (hne : b ≠ 0) : InWord (a.tmod b) := by
  obtain ⟨hlow, hhigh⟩ := hb
  have hrest : (a.tmod b).natAbs = a.natAbs % b.natAbs := Int.natAbs_tmod a b
  have hsmall : a.natAbs % b.natAbs < b.natAbs := Nat.mod_lt _ (by omega)
  unfold InWord
  omega

theorem eq_zero_iff_toInt {b : Int64} : b = 0 ↔ b.toInt = 0 := by
  rw [← Int64.toInt_inj, Int64.toInt_zero]

/-- The remainder is given where the quotient fits. -/
theorem BinaryOp.modulo_value (a b : Int64) :
    modulo.apply? a b = (modulo.onWords? a.toInt b.toInt).bind fit? := by
  unfold BinaryOp.apply? onWords? onInts?
  dsimp only
  by_cases hb : b.toInt = 0
  · simp [eq_zero_iff_toInt, hb]
  · have hquotient := inWord_tdiv_iff (b := b.toInt) (inWord_toInt a)
    rw [if_neg (mt eq_zero_iff_toInt.1 hb), if_neg hb, fit?_eq]
    by_cases hleast : a.toInt = -2 ^ 63 ∧ b.toInt = -1
    · rw [if_neg (fun h => hquotient.1 h hleast), if_pos hleast]
      rfl
    · rw [if_pos (hquotient.2 hleast), if_neg hleast]
      exact some_eq_fit? (toInt_ofInt (inWord_tmod (inWord_toInt b) hb))

theorem BinaryOp.value_eq (op : BinaryOp) (a b : Int64) :
    op.apply? a b = (op.onWords? a.toInt b.toInt).bind fit? := by
  cases op with
  | add | subtract | multiply => rfl
  | divide =>
      unfold BinaryOp.apply? onWords? onInts?
      by_cases hb : b.toInt = 0 <;> simp [eq_zero_iff_toInt, hb]
  | modulo => exact modulo_value a b
  | bitAnd => exact some_eq_fit? (toInt_and a b)
  | bitOr => exact some_eq_fit? (toInt_or a b)
  | xor => exact some_eq_fit? (toInt_xor a b)
  | and | or | equal | notEqual | less | lessEqual | greater | greaterEqual =>
      refine some_eq_fit? (toInt_truth _ ?_)
      simp [← Int64.toInt_inj, Int64.lt_iff_toInt_lt, Int64.le_iff_toInt_le]
  | shiftLeft =>
      unfold BinaryOp.apply? shiftAmount? onWords? onInts?
      dsimp only
      split
      next hk => exact some_eq_fit? (toInt_shiftLeft hk a)
      next => rfl
  | shiftRight =>
      change _ = (onInts? .shiftRight a.toInt b.toInt).bind fit?
      unfold BinaryOp.apply? shiftAmount? onInts?
      dsimp only
      split
      next hk => exact some_eq_fit? (toInt_shiftRight hk a)
      next => rfl

/-- Where the exact value fits, words allow for it, the least word by -1 apart. -/
theorem BinaryOp.onInts?_of_onWords? {op : BinaryOp} {a b n : Int} (h : op.onWords? a b = some n)
    (hshift : op = .shiftLeft -> ∀ m, op.onInts? a b = some m -> InWord m) :
    op.onInts? a b = some n := by
  cases op with
  | shiftLeft =>
      obtain ⟨m, hm, rfl⟩ := Option.map_eq_some_iff.1 h
      obtain ⟨hlow, hhigh⟩ := hshift rfl m hm
      rw [hm, Int.bmod_eq_of_le (by omega) (by omega)]
  | modulo =>
      rw [onWords?] at h
      split at h
      next => cases h
      next => exact h
  | _ => exact h

end Asm6502
