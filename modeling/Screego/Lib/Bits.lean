import Mathlib.Data.List.Basic

/-!
# Bytes as bits

A list of bytes is a list of bits, the most significant bit of each byte first.
A mask that has ones in front and zeros behind selects the first bits, so two
lists of bytes agree under it exactly if they begin with the same bits.
-/

namespace Bits

/-- The bits of a byte, the most significant first. -/
def ofByte (b : UInt8) : List Bool := (List.range 8).map fun i ↦ b.toBitVec.getMsbD i

def ofBytes (bs : List UInt8) : List Bool := bs.flatMap ofByte

@[simp] theorem length_ofByte (b : UInt8) : (ofByte b).length = 8 := by
  rw [ofByte, List.length_map, List.length_range]

@[simp] theorem ofBytes_nil : ofBytes [] = [] := rfl

@[simp] theorem ofBytes_cons (b : UInt8) (bs : List UInt8) :
    ofBytes (b :: bs) = ofByte b ++ ofBytes bs := rfl

theorem ofBytes_append (bs bs' : List UInt8) : ofBytes (bs ++ bs') = ofBytes bs ++ ofBytes bs' :=
  List.flatMap_append

theorem length_ofBytes (bs : List UInt8) : (ofBytes bs).length = 8 * bs.length := by
  induction bs with
  | nil => rfl
  | cons b bs ih =>
      rw [ofBytes_cons, List.length_append, length_ofByte, ih, List.length_cons]
      omega

theorem take_ofByte_eq_iff {a b : UInt8} {n : ℕ} (hn : n ≤ 8) :
    (ofByte a).take n = (ofByte b).take n ↔
      ∀ i < n, a.toBitVec.getMsbD i = b.toBitVec.getMsbD i := by
  rw [ofByte, ofByte, ← List.map_take, ← List.map_take, List.take_range, Nat.min_eq_left hn,
    List.map_inj_left]
  simp

theorem ofByte_injective : Function.Injective ofByte := by
  intro a b h
  have hall := (take_ofByte_eq_iff (Nat.le_refl 8)).mp (congrArg (List.take 8) h)
  exact UInt8.toBitVec_inj.mp (BitVec.eq_of_getMsbD_eq hall)

theorem ofBytes_injective {as bs : List UInt8} (h : ofBytes as = ofBytes bs) : as = bs := by
  induction as generalizing bs with
  | nil =>
      have hlength := congrArg List.length h
      rw [length_ofBytes, length_ofBytes, List.length_nil] at hlength
      exact (List.eq_nil_of_length_eq_zero (by omega)).symm
  | cons a as ih =>
      cases bs with
      | nil =>
          have hlength := congrArg List.length h
          rw [length_ofBytes, length_ofBytes, List.length_nil, List.length_cons] at hlength
          omega
      | cons b bs =>
          rw [ofBytes_cons, ofBytes_cons] at h
          obtain ⟨hhead, htail⟩ := List.append_inj h (by simp)
          rw [ofByte_injective hhead, ih htail]

theorem take_ofBytes (bs : List UInt8) (n : ℕ) :
    (ofBytes bs).take (8 * n) = ofBytes (bs.take n) := by
  induction n generalizing bs with
  | zero => rfl
  | succ n ih =>
      cases bs with
      | nil => rfl
      | cons b bs =>
          rw [ofBytes_cons, List.take_succ_cons, ofBytes_cons, Nat.mul_succ, Nat.add_comm,
            List.take_append, length_ofByte, Nat.add_sub_cancel_left, ih]
          rw [List.take_of_length_le (by rw [length_ofByte]; omega)]

/-- Whole bytes come first exactly if their bits do. -/
theorem ofBytes_prefix_iff {as bs : List UInt8} : ofBytes as <+: ofBytes bs ↔ as <+: bs := by
  constructor
  · intro h
    rw [List.prefix_iff_eq_take, length_ofBytes, take_ofBytes] at h
    rw [ofBytes_injective h]
    exact List.take_prefix _ _
  · rintro ⟨rest, rfl⟩
    rw [ofBytes_append]
    exact List.prefix_append _ _

/-! ## Masks -/

/-- The bytes of two lists, one after the other, under `&&&`. -/
def and (as bs : List UInt8) : List UInt8 := List.zipWith (· &&& ·) as bs

theorem and_cons (a b : UInt8) (as bs : List UInt8) :
    and (a :: as) (b :: bs) = (a &&& b) :: and as bs := rfl

@[simp] theorem length_and (as bs : List UInt8) :
    (and as bs).length = min as.length bs.length :=
  List.length_zipWith

/-- The byte with `n` ones in front. -/
def maskByte (n : ℕ) : UInt8 := ~~~((0xff : UInt8) >>> UInt8.ofNat n)

/-- `len` bytes whose first `n` bits are ones. -/
def mask : ℕ → ℕ → List UInt8
  | 0, _ => []
  | len + 1, n => if 8 ≤ n then 0xff :: mask len (n - 8) else maskByte n :: mask len 0

@[simp] theorem length_mask (len n : ℕ) : (mask len n).length = len := by
  induction len generalizing n with
  | zero => rfl
  | succ len ih =>
      unfold mask
      split <;> rw [List.length_cons, ih]

theorem drop_mask (len k n : ℕ) : (mask (k + len) n).drop k = mask len (n - 8 * k) := by
  induction k generalizing n with
  | zero => simp
  | succ k ih =>
      rw [Nat.add_right_comm, mask]
      split
      · rw [List.drop_succ_cons, ih]
        congr 1
        omega
      · rw [List.drop_succ_cons, ih]
        congr 1
        omega

theorem take_mask (len k n : ℕ) : (mask (k + len) n).take k = mask k n := by
  induction k generalizing n with
  | zero => rfl
  | succ k ih =>
      rw [Nat.add_right_comm, mask, mask]
      split <;> rw [List.take_succ_cons, ih]

theorem and_ones (b : UInt8) : b &&& 0xff = b := by
  apply UInt8.toBitVec_inj.mp
  rw [UInt8.toBitVec_and]
  exact BitVec.and_allOnes

theorem eq_ones_of_and {a b : UInt8} (h : a &&& b = 0xff) : b = 0xff := by
  have hbits := congrArg UInt8.toBitVec h
  rw [UInt8.toBitVec_and] at hbits
  exact UInt8.toBitVec_inj.mp (BitVec.and_eq_allOnes_iff.mp hbits).2

theorem maskByte_ne_ones {n : ℕ} (hn : n < 8) : maskByte n ≠ 0xff := by
  have hall : ∀ n < 8, maskByte n ≠ 0xff := by decide
  exact hall n hn

/-- A mask that is long enough changes nothing. -/
theorem and_mask_of_le {bs : List UInt8} {len n : ℕ} (hb : bs.length = len)
    (hn : 8 * len ≤ n) : and bs (mask len n) = bs := by
  induction len generalizing bs n with
  | zero =>
      rw [List.eq_nil_of_length_eq_zero hb]
      rfl
  | succ len ih =>
      match bs with
      | b :: bs =>
          rw [mask, if_pos (by omega), and_cons, and_ones,
            ih (Nat.succ.inj hb) (by omega)]

/-- Masking twice is masking once. -/
theorem and_and_self (bs m : List UInt8) :
    and (and bs m) m = and bs m := by
  induction bs generalizing m with
  | nil => rfl
  | cons b bs ih =>
      cases m with
      | nil => rfl
      | cons c m =>
          have hand : b &&& c &&& c = b &&& c := by
            apply UInt8.toBitVec_inj.mp
            simp only [UInt8.toBitVec_and, BitVec.and_assoc, BitVec.and_self]
          rw [and_cons, and_cons, hand, ih]

theorem getMsbD_maskByte {n i : ℕ} (hn : n < 8) (hi : i < 8) :
    (maskByte n).toBitVec.getMsbD i = decide (i < n) := by
  have hall : ∀ n < 8, ∀ i < 8, (maskByte n).toBitVec.getMsbD i = decide (i < n) := by decide
  exact hall n hn i hi

theorem and_maskByte_eq_iff {a b : UInt8} {n : ℕ} (hn : n < 8) :
    a &&& maskByte n = b &&& maskByte n ↔ (ofByte a).take n = (ofByte b).take n := by
  rw [take_ofByte_eq_iff (Nat.le_of_lt hn), ← UInt8.toBitVec_inj, UInt8.toBitVec_and,
    UInt8.toBitVec_and]
  constructor
  · intro h i hi
    have hbit := congrArg (BitVec.getMsbD · i) h
    simpa [getMsbD_maskByte hn (Nat.lt_trans hi hn), hi] using hbit
  · intro h
    refine BitVec.eq_of_getMsbD_eq fun i hi ↦ ?_
    rw [BitVec.getMsbD_and, BitVec.getMsbD_and, getMsbD_maskByte hn hi]
    by_cases hin : i < n
    · rw [h i hin]
    · simp [hin]

/-- Bytes agree under a mask exactly if their first bits do. -/
theorem and_mask_eq_iff {as bs : List UInt8} {len : ℕ} (ha : as.length = len)
    (hb : bs.length = len) (n : ℕ) :
    and as (mask len n) = and bs (mask len n) ↔
      (ofBytes as).take n = (ofBytes bs).take n := by
  induction len generalizing as bs n with
  | zero =>
      rw [List.eq_nil_of_length_eq_zero ha, List.eq_nil_of_length_eq_zero hb]
      simp
  | succ len ih =>
      match as, bs with
      | a :: as, b :: bs =>
          have hrest {m : ℕ} := ih (Nat.succ.inj ha) (Nat.succ.inj hb) m
          rw [ofBytes_cons, ofBytes_cons, List.take_append, List.take_append, length_ofByte,
            length_ofByte]
          unfold mask
          split
          · next hn =>
              rw [and_cons, and_cons, List.cons.injEq, and_ones,
                and_ones, hrest, List.take_of_length_le (l := ofByte a) (by simpa using hn),
                List.take_of_length_le (l := ofByte b) (by simpa using hn)]
              constructor
              · rintro ⟨rfl, h⟩
                rw [h]
              · intro h
                obtain ⟨hhead, htail⟩ := List.append_inj h (by simp)
                exact ⟨ofByte_injective hhead, htail⟩
          · next hn =>
              have hzero : n - 8 = 0 := by omega
              rw [and_cons, and_cons, List.cons.injEq, hrest,
                and_maskByte_eq_iff (by omega), hzero]
              simp

end Bits
