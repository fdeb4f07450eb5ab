import Mathlib.Tactic
import Mathlib.Data.Nat.Count

namespace Bitmap

abbrev Bytes := ℕ → BitVec 8

def mask (k : ℕ) : BitVec 8 := 1#8 <<< (k % 8)

def test (m : Bytes) (k : ℕ) : Bool := m (k / 8) &&& mask k != 0#8

def insert (m : Bytes) (k : ℕ) : Bytes :=
  Function.update m (k / 8) (m (k / 8) ||| mask k)

def remove (m : Bytes) (k : ℕ) : Bytes :=
  Function.update m (k / 8) (m (k / 8) &&& ~~~ mask k)

theorem mask_bit (k i : ℕ) : (mask k).getLsbD i = decide (i = k % 8) := by
  have hk : k % 8 < 8 := Nat.mod_lt _ (by decide)
  simp only [mask, BitVec.getLsbD_shiftLeft, BitVec.getLsbD_one]
  by_cases h : i = k % 8
  · subst h; simp [hk]
  · simp [h]; omega

theorem test_eq (m : Bytes) (k : ℕ) : test m k = (m (k / 8)).getLsbD (k % 8) := by
  have hk : k % 8 < 8 := Nat.mod_lt _ (by decide)
  rw [Bool.eq_iff_iff, test, bne_iff_ne, ne_eq]
  constructor
  · intro h
    by_contra hb
    refine h (BitVec.eq_of_getLsbD_eq fun i hi => ?_)
    rw [BitVec.getLsbD_and, mask_bit]
    by_cases hik : i = k % 8
    · subst hik; simpa using hb
    · simp [hik]
  · intro hb h
    have := congrArg (fun x => x.getLsbD (k % 8)) h
    simp [BitVec.getLsbD_and, mask_bit, hb] at this

theorem same_bit {j k : ℕ} (hd : j / 8 = k / 8) : j % 8 = k % 8 ↔ j = k := by omega

theorem test_insert (m : Bytes) (k j : ℕ) :
    test (insert m k) j = (decide (j = k) || test m j) := by
  rw [test_eq, test_eq, insert]
  by_cases hd : j / 8 = k / 8
  · rw [hd, Function.update_self, BitVec.getLsbD_or, mask_bit, Bool.or_comm]
    simp only [same_bit hd]
  · have hne : j ≠ k := fun h => hd (by rw [h])
    rw [Function.update_of_ne hd]
    simp [hne]

theorem test_remove (m : Bytes) (k j : ℕ) :
    test (remove m k) j = (!decide (j = k) && test m j) := by
  have hj : j % 8 < 8 := Nat.mod_lt _ (by decide)
  rw [test_eq, test_eq, remove]
  by_cases hd : j / 8 = k / 8
  · rw [hd, Function.update_self, BitVec.getLsbD_and, BitVec.getLsbD_not, mask_bit, Bool.and_comm]
    simp only [same_bit hd, hj, decide_true, Bool.true_and]
  · have hne : j ≠ k := fun h => hd (by rw [h])
    rw [Function.update_of_ne hd]
    simp [hne]

theorem eq_of_test {m m' : Bytes} (h : ∀ k, test m k = test m' k) : m = m' := by
  funext b
  refine BitVec.eq_of_getLsbD_eq fun i hi => ?_
  have hk := h (8 * b + i)
  rwa [test_eq, test_eq, show (8 * b + i) / 8 = b by omega, show (8 * b + i) % 8 = i by omega] at hk

def size (m : Bytes) (n : ℕ) : ℕ := Nat.count (fun k => test m k = true) n

theorem size_succ (m : Bytes) (n : ℕ) :
    size m (n + 1) = size m n + if test m n = true then 1 else 0 :=
  Nat.count_succ _ n

theorem size_congr {m m' : Bytes} {n : ℕ} (h : ∀ k < n, test m k = test m' k) :
    size m n = size m' n := by
  induction n with
  | zero => simp [size]
  | succ n ih =>
    rw [size_succ, size_succ, ih (fun k hk => h k (Nat.lt_succ_of_lt hk)), h n (Nat.lt_succ_self n)]

theorem size_insert {m : Bytes} {n k : ℕ} (hk : k < n) (h : test m k = false) :
    size (insert m k) n = size m n + 1 := by
  induction n with
  | zero => omega
  | succ n ih =>
    rw [size_succ, size_succ]
    by_cases hkn : k = n
    · subst hkn
      rw [@size_congr _ m _ (fun j hj => by simp [test_insert, Nat.ne_of_lt hj])]
      simp [test_insert, h]
    · rw [ih (by omega), test_insert]
      simp only [Ne.symm hkn, decide_false, Bool.false_or]
      omega

theorem size_remove {m : Bytes} {n k : ℕ} (hk : k < n) (h : test m k = true) :
    size (remove m k) n + 1 = size m n := by
  have hs := size_insert (m := remove m k) hk (by simp [test_remove])
  rw [← hs]
  refine size_congr fun j _ => ?_
  by_cases hj : j = k
  · subst hj; simp [test_insert, h]
  · simp [test_insert, test_remove, hj]

theorem size_pos_iff (m : Bytes) (n : ℕ) : 0 < size m n ↔ ∃ k < n, test m k = true := by
  induction n with
  | zero => simp [size]
  | succ n ih =>
    rw [size_succ]
    by_cases hn : test m n = true
    · simp only [hn, if_true, Nat.lt_add_one_iff, Nat.zero_le, true_iff]
      exact ⟨n, by omega, hn⟩
    · simp only [hn, Bool.false_eq_true, if_false, Nat.add_zero, ih]
      constructor
      · rintro ⟨k, hk, ht⟩
        exact ⟨k, by omega, ht⟩
      · rintro ⟨k, hk, ht⟩
        have : k ≠ n := fun he => hn (he ▸ ht)
        exact ⟨k, by omega, ht⟩

theorem size_le (m : Bytes) (n : ℕ) : size m n ≤ n := Nat.count_le _

def wordIsZero (m : Bytes) (b : ℕ) : Bool := (List.range 8).all fun j => m (b + j) == 0#8

theorem wordIsZero_iff (m : Bytes) (b : ℕ) :
    wordIsZero m b = true ↔ ∀ k, 8 * b ≤ k → k < 8 * b + 64 → test m k = false := by
  simp only [wordIsZero, List.all_eq_true, List.mem_range, beq_iff_eq]
  constructor
  · intro h k hk hk'
    have hz := h (k / 8 - b) (by omega)
    rw [show b + (k / 8 - b) = k / 8 by omega] at hz
    rw [test_eq, hz, BitVec.getLsbD_zero]
  · intro h j hj
    refine BitVec.eq_of_getLsbD_eq fun i hi => ?_
    have ht := h (8 * (b + j) + i) (by omega) (by omega)
    rw [test_eq] at ht
    rw [show (8 * (b + j) + i) / 8 = b + j by omega,
      show (8 * (b + j) + i) % 8 = i by omega] at ht
    rw [ht, BitVec.getLsbD_zero]

def IsFirst (m : Bytes) (n : ℕ) : Option ℕ → Prop
  | some k => k < n ∧ test m k = true ∧ ∀ j < k, test m j = false
  | none => ∀ k < n, test m k = false

theorem IsFirst.eq_find {m : Bytes} {n : ℕ} {o : Option ℕ} (h : IsFirst m n o) : o = (List.range n).find? (test m) := by
  cases o with
  | none =>
    refine (List.find?_eq_none.mpr fun k hk => ?_).symm
    rw [h k (List.mem_range.mp hk)]
    exact Bool.false_ne_true
  | some k =>
    obtain ⟨hk, ht, hlow⟩ := h
    refine (List.find?_range_eq_some.mpr ⟨ht, List.mem_range.mpr hk, fun j hj => ?_⟩).symm
    rw [hlow j hj]
    rfl

end Bitmap
