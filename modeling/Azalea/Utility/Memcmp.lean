import Azalea.Utility.Memcpy

namespace Azalea.Memcmp

def lowestByte (value : QWORD) : Option ℤ :=
  ((List.range 8).find? fun j => (value >>> (j * 8)) &&& 0xFF#64 != 0#64).map fun j =>
    ((value >>> (j * 8)) &&& 0xFF#64).toNat

def compareQwords (mem : Bytes.Mem 64) (destination source : QWORD) : ℕ → ℕ → Option ℤ
  | 0, _ => none
  | n + 1, i =>
    let value : QWORD := .ofNat 64 (Bytes.load mem (destination + .ofNat 64 (8 * i)) 8) -
      .ofNat 64 (Bytes.load mem (source + .ofNat 64 (8 * i)) 8)
    if value ≠ 0#64 then (lowestByte value).or (compareQwords mem destination source n (i + 1))
    else compareQwords mem destination source n (i + 1)

def compareChars (mem : Bytes.Mem 64) (destination source : QWORD) : ℕ → ℕ → Option ℤ
  | 0, _ => none
  | n + 1, startOffset =>
    let chValue := mem (destination + .ofNat 64 startOffset) - mem (source + .ofNat 64 startOffset)
    if chValue ≠ 0#8 then some chValue.toInt
    else compareChars mem destination source n (startOffset + 1)

def lkMemcmp (mem : Bytes.Mem 64) (destination source : QWORD) (size : ℤ) : ℤ :=
  let i := (size.tdiv 8).toNat
  ((compareQwords mem destination source i 0).or
    (compareChars mem destination source (size.tmod 8).toNat (8 * i))).getD 0

def SameAt (mem : Bytes.Mem 64) (destination source : QWORD) (k : ℕ) : Prop :=
  mem (destination + .ofNat 64 k) = mem (source + .ofNat 64 k)

structure Differs (mem : Bytes.Mem 64) (destination source : QWORD) (lo hi k : ℕ) : Prop where
  ge : lo ≤ k
  lt : k < hi
  same : ∀ j, lo ≤ j → j < k → SameAt mem destination source j
  differ : ¬ SameAt mem destination source k

variable {mem : Bytes.Mem 64} {destination source : QWORD} {lo hi n i k : ℕ}

theorem mod_shiftRight (x : ℕ) (hk : k < 8) : x % 2 ^ 64 / 2 ^ (k * 8) % 2 ^ 8 = x / 2 ^ (k * 8) % 2 ^ 8 := by
  have hpow : 2 ^ 64 = 2 ^ (k * 8) * 2 ^ (64 - k * 8) := by rw [← pow_add, show k * 8 + (64 - k * 8) = 64 by omega]
  have hdvd : 2 ^ 8 ∣ 2 ^ (64 - k * 8) := Nat.pow_dvd_pow 2 (by omega)
  rw [hpow, Nat.mod_mul_right_div_self, Nat.mod_mod_of_dvd _ hdvd]

theorem byte_sub (hk : k < 8) (h : ∀ j < k, SameAt mem destination source j) :
    (((BitVec.ofNat 64 (Bytes.load mem destination 8) - BitVec.ofNat 64 (Bytes.load mem source 8)) >>> (k * 8)) &&&
      0xFF#64).toNat = (mem (destination + .ofNat 64 k) - mem (source + .ofNat 64 k)).toNat := by
  have hd := Bytes.load_lt mem destination 8
  have hs := Bytes.load_lt mem source 8
  have h64 : (2 ^ 8) ^ 8 = 2 ^ 64 := by norm_num
  have hmask : (0xFF#64).toNat = 2 ^ 8 - 1 := rfl
  rw [h64] at hd hs
  rw [← Bytes.load_sub_div hk h, BitVec.toNat_and, hmask, Nat.and_two_pow_sub_one_eq_mod, BitVec.toNat_ushiftRight,
    Nat.shiftRight_eq_div_pow, BitVec.toNat_sub, BitVec.toNat_ofNat, BitVec.toNat_ofNat, Nat.mod_eq_of_lt hd,
    Nat.mod_eq_of_lt hs, mod_shiftRight _ hk, h64, ← pow_mul, Nat.mul_comm 8 k]

theorem sub_of_same (h : ∀ j < 8, SameAt mem destination source j) :
    BitVec.ofNat 64 (Bytes.load mem destination 8) - BitVec.ofNat 64 (Bytes.load mem source 8) = 0#64 := by
  rw [Bytes.load_congr h, BitVec.sub_self]

theorem lowestByte_differs (h : Differs mem destination source 0 8 k) :
    lowestByte (BitVec.ofNat 64 (Bytes.load mem destination 8) - BitVec.ofNat 64 (Bytes.load mem source 8)) =
      some ((mem (destination + .ofNat 64 k) - mem (source + .ofNat 64 k)).toNat : ℤ) := by
  have hbyte := byte_sub h.lt fun j hj => h.same j (Nat.zero_le j) hj
  rw [lowestByte, List.find?_range_eq_some.mpr ⟨?_, List.mem_range.mpr h.lt, fun j hj => ?_⟩, Option.map_some, hbyte]
  · rw [bne_iff_ne]
    intro hzero
    rw [hzero, BitVec.toNat_zero] at hbyte
    exact h.differ (sub_eq_zero.mp (BitVec.toNat_inj.mp (hbyte.symm.trans BitVec.toNat_zero.symm)))
  · have hlow := byte_sub (hj.trans h.lt) fun l hl => h.same l (Nat.zero_le l) (hl.trans hj)
    have hsame : mem (destination + .ofNat 64 j) = mem (source + .ofNat 64 j) := h.same j (Nat.zero_le j) hj
    rw [hsame, BitVec.sub_self, BitVec.toNat_zero] at hlow
    rw [BitVec.toNat_inj.mp (hlow.trans (BitVec.toNat_zero (w := 64)).symm)]
    rfl

theorem sameAt_add : SameAt mem (destination + .ofNat 64 i) (source + .ofNat 64 i) k ↔
    SameAt mem destination source (i + k) := by
  rw [SameAt, SameAt, Bytes.add_offset_add, Bytes.add_offset_add]

theorem compareQwords_same (h : ∀ j, 8 * i ≤ j → j < 8 * (i + n) → SameAt mem destination source j) :
    compareQwords mem destination source n i = none := by
  induction n generalizing i with
  | zero => rfl
  | succ n ih =>
    have hzero := sub_of_same fun j hj => sameAt_add.mpr (h (8 * i + j) (by omega) (by omega))
    rw [compareQwords]
    simp only [hzero, ne_eq, not_true_eq_false, if_false]
    exact ih fun j hj hlt => h j (by omega) (by omega)

theorem compareQwords_differs (h : Differs mem destination source (8 * i) (8 * (i + n)) k) :
    compareQwords mem destination source n i =
      some ((mem (destination + .ofNat 64 k) - mem (source + .ofNat 64 k)).toNat : ℤ) := by
  induction n generalizing i with
  | zero =>
    have := h.ge
    have := h.lt
    omega
  | succ n ih =>
    rw [compareQwords]
    rcases Nat.lt_or_ge k (8 * (i + 1)) with hk | hk
    · have hbyte := lowestByte_differs (k := k - 8 * i) ⟨Nat.zero_le _, by omega,
        fun j _ hj => sameAt_add.mpr (h.same (8 * i + j) (by omega) (by omega)), fun hsame => h.differ ?_⟩
      · rw [Bytes.add_offset_add, Bytes.add_offset_add, Nat.add_sub_cancel' h.ge] at hbyte
        have hne : BitVec.ofNat 64 (Bytes.load mem (destination + .ofNat 64 (8 * i)) 8) -
            BitVec.ofNat 64 (Bytes.load mem (source + .ofNat 64 (8 * i)) 8) ≠ 0#64 := by
          intro hzero
          rw [hzero] at hbyte
          exact Option.some_ne_none _ hbyte.symm
        simp only [if_pos hne, hbyte, Option.some_or]
      · rwa [sameAt_add, Nat.add_sub_cancel' h.ge] at hsame
    · have hzero := sub_of_same fun j hj => sameAt_add.mpr (h.same (8 * i + j) (by omega) (by omega))
      simp only [hzero, ne_eq, not_true_eq_false, if_false]
      have hlt := h.lt
      exact ih ⟨hk, by omega, fun j hj hjk => h.same j (by omega) hjk, h.differ⟩

theorem compareChars_same (h : ∀ j, i ≤ j → j < i + n → SameAt mem destination source j) :
    compareChars mem destination source n i = none := by
  induction n generalizing i with
  | zero => rfl
  | succ n ih =>
    have hi : mem (destination + .ofNat 64 i) = mem (source + .ofNat 64 i) := h i (by omega) (by omega)
    rw [compareChars, hi]
    simp only [BitVec.sub_self, ne_eq, not_true_eq_false, if_false]
    exact ih fun j hj hlt => h j (by omega) (by omega)

theorem compareChars_differs (h : Differs mem destination source i (i + n) k) :
    compareChars mem destination source n i =
      some (mem (destination + .ofNat 64 k) - mem (source + .ofNat 64 k)).toInt := by
  induction n generalizing i with
  | zero =>
    have := h.ge
    have := h.lt
    omega
  | succ n ih =>
    have hge := h.ge
    have hlt := h.lt
    rw [compareChars]
    rcases Nat.eq_or_lt_of_le hge with rfl | hik
    · exact if_pos fun hzero => h.differ (sub_eq_zero.mp hzero)
    · have hi : mem (destination + .ofNat 64 i) = mem (source + .ofNat 64 i) := h.same i le_rfl hik
      simp only [hi, BitVec.sub_self, ne_eq, not_true_eq_false, if_false]
      exact ih ⟨hik, by omega, fun j hj hjk => h.same j (by omega) hjk, h.differ⟩

theorem same_or_differs (mem : Bytes.Mem 64) (destination source : QWORD) (n : ℕ) :
    (∀ j < n, SameAt mem destination source j) ∨ ∃ k, Differs mem destination source 0 n k := by
  induction n with
  | zero => exact Or.inl (by omega)
  | succ n ih =>
    rcases ih with hsame | ⟨k, h⟩
    · by_cases hn : SameAt mem destination source n
      · refine Or.inl fun j hj => ?_
        rcases Nat.lt_or_eq_of_le (Nat.le_of_lt_succ hj) with hj | rfl
        · exact hsame j hj
        · exact hn
      · exact Or.inr ⟨n, Nat.zero_le n, Nat.lt_succ_self n, fun j _ hj => hsame j hj, hn⟩
    · exact Or.inr ⟨k, h.ge, Nat.lt_succ_of_lt h.lt, h.same, h.differ⟩

theorem Differs.symm (h : Differs mem destination source lo hi k) : Differs mem source destination lo hi k :=
  ⟨h.ge, h.lt, fun j hl hj => (h.same j hl hj).symm, fun he => h.differ he.symm⟩

theorem Differs.unique {l : ℕ} (h : Differs mem destination source lo hi k) (h' : Differs mem destination source lo hi l) :
    k = l := by
  rcases lt_trichotomy k l with hlt | heq | hgt
  · exact absurd (h'.same k h.ge hlt) h.differ
  · exact heq
  · exact absurd (h.same l h'.ge hgt) h'.differ

theorem lkMemcmp_loops (mem : Bytes.Mem 64) (destination source : QWORD) (n : ℕ) :
    lkMemcmp mem destination source n = ((compareQwords mem destination source (n / 8) 0).or
      (compareChars mem destination source (n % 8) (8 * (n / 8)))).getD 0 := by
  rw [lkMemcmp, toNat_tdiv_eight, toNat_tmod_eight]

theorem lkMemcmp_same (h : ∀ j < n, SameAt mem destination source j) : lkMemcmp mem destination source n = 0 := by
  rw [lkMemcmp_loops, compareQwords_same fun j _ hj => h j (by omega), compareChars_same fun j _ hj => h j (by omega)]
  rfl

theorem lkMemcmp_qword (h : Differs mem destination source 0 n k) (hk : k < 8 * (n / 8)) :
    lkMemcmp mem destination source n = (mem (destination + .ofNat 64 k) - mem (source + .ofNat 64 k)).toNat := by
  rw [lkMemcmp_loops, compareQwords_differs ⟨h.ge, by omega, h.same, h.differ⟩]
  rfl

theorem lkMemcmp_char (h : Differs mem destination source 0 n k) (hk : 8 * (n / 8) ≤ k) :
    lkMemcmp mem destination source n = (mem (destination + .ofNat 64 k) - mem (source + .ofNat 64 k)).toInt := by
  have hn := h.lt
  rw [lkMemcmp_loops, compareQwords_same fun j _ hj => h.same j (Nat.zero_le j) (by omega),
    compareChars_differs ⟨hk, by omega, fun j _ hj => h.same j (Nat.zero_le j) hj, h.differ⟩]
  rfl

structure Orders (mem : Bytes.Mem 64) (destination source : QWORD) (n : ℕ) : Prop where
  zero : lkMemcmp mem destination source n = 0 ↔ ∀ k < n, SameAt mem destination source k
  sign : ∀ k, Differs mem destination source 0 n k →
    (lkMemcmp mem destination source n).sign =
      (((mem (destination + .ofNat 64 k)).toNat : ℤ) - (mem (source + .ofNat 64 k)).toNat).sign
  opposite : (lkMemcmp mem source destination n).sign = -(lkMemcmp mem destination source n).sign

theorem toInt_sub (x y : BitVec 8) : (x - y).toInt = ((x.toNat : ℤ) - y.toNat + 128) % 256 - 128 := by
  have hx := x.isLt
  have hy := y.isLt
  rw [BitVec.toInt_eq_toNat_cond, BitVec.toNat_sub]
  split_ifs <;> omega

theorem toInt_sub_near {x y : BitVec 8} (h : |(x.toNat : ℤ) - y.toNat| ≤ 127) :
    (x - y).toInt = (x.toNat : ℤ) - y.toNat := by
  have hbounds := abs_le.mp h
  rw [toInt_sub]
  omega

theorem toInt_sub_far {x y : BitVec 8} (hsign : (x - y).toInt.sign = ((x.toNat : ℤ) - y.toNat).sign)
    (hopposite : (y - x).toInt.sign = -(x - y).toInt.sign) : |(x.toNat : ℤ) - y.toNat| ≤ 127 := by
  have hx := x.isLt
  have hy := y.isLt
  have hxy := toInt_sub x y
  have hyx := toInt_sub y x
  rw [abs_le]
  rcases lt_trichotomy ((x.toNat : ℤ) - y.toNat) 0 with hneg | hzero | hpos
  · rw [Int.sign_eq_neg_one_of_neg hneg] at hsign
    rw [hsign] at hopposite
    have h1 := Int.sign_eq_neg_one_iff_neg.mp hsign
    have h2 := Int.sign_eq_one_iff_pos.mp hopposite
    omega
  · omega
  · rw [Int.sign_eq_one_of_pos hpos] at hsign
    have h1 := Int.sign_eq_one_iff_pos.mp hsign
    omega

theorem sign_toNat_sub {x y : BitVec 8} (h : x ≠ y) : ((x - y).toNat : ℤ).sign = 1 := by
  refine Int.sign_eq_one_of_pos ?_
  rw [Int.natCast_pos, Nat.pos_iff_ne_zero]
  intro hzero
  exact h (sub_eq_zero.mp (BitVec.toNat_inj.mp (hzero.trans BitVec.toNat_zero.symm)))

theorem lkMemcmp_orders_iff (mem : Bytes.Mem 64) (destination source : QWORD) (n : ℕ) :
    Orders mem destination source n ↔ ∀ k, Differs mem destination source 0 n k → 8 * (n / 8) ≤ k ∧
      |((mem (destination + .ofNat 64 k)).toNat : ℤ) - (mem (source + .ofNat 64 k)).toNat| ≤ 127 := by
  constructor
  · intro h k hk
    have hsign := h.sign k hk
    have hopposite := h.opposite
    rcases Nat.lt_or_ge k (8 * (n / 8)) with hlt | hge
    · rw [lkMemcmp_qword hk hlt, lkMemcmp_qword hk.symm hlt, sign_toNat_sub hk.differ,
        sign_toNat_sub hk.symm.differ] at hopposite
      omega
    · rw [lkMemcmp_char hk hge] at hsign hopposite
      rw [lkMemcmp_char hk.symm hge] at hopposite
      exact ⟨hge, toInt_sub_far hsign hopposite⟩
  · intro h
    rcases same_or_differs mem destination source n with hsame | ⟨k, hk⟩
    · have hd := lkMemcmp_same hsame
      have hs : lkMemcmp mem source destination n = 0 := lkMemcmp_same fun j hj => (hsame j hj).symm
      exact ⟨⟨fun _ => hsame, fun _ => hd⟩, fun k hk => absurd (hsame k hk.lt) hk.differ, by rw [hd, hs]; rfl⟩
    · obtain ⟨hge, hnear⟩ := h k hk
      have hd := (lkMemcmp_char hk hge).trans (toInt_sub_near hnear)
      rw [abs_sub_comm] at hnear
      have hs := (lkMemcmp_char hk.symm hge).trans (toInt_sub_near hnear)
      refine ⟨⟨fun hzero => ?_, fun hsame => absurd (hsame k hk.lt) hk.differ⟩, fun l hl => ?_, ?_⟩
      · rw [hd, sub_eq_zero, Int.natCast_inj] at hzero
        exact absurd (BitVec.toNat_inj.mp hzero) hk.differ
      · rw [hk.unique hl] at hd
        rw [hd]
      · rw [hs, hd, ← Int.sign_neg, neg_sub]

theorem zero_above_one :
    let mem : Bytes.Mem 64 := fun x => if x = 8#64 then 1#8 else 0#8
    lkMemcmp mem 0 8 8 = 255 ∧ lkMemcmp mem 8 0 8 = 1 ∧ ¬ Orders mem 0 8 8 := by
  intro mem
  have hd : lkMemcmp mem 0 8 8 = 255 := by decide +kernel
  have hs : lkMemcmp mem 8 0 8 = 1 := by decide +kernel
  refine ⟨hd, hs, fun h => ?_⟩
  have hopposite := h.opposite
  rw [Nat.cast_ofNat, hd, hs] at hopposite
  exact absurd hopposite (by decide)

end Azalea.Memcmp
