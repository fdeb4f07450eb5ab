import Azalea.Utility.Format
import Mathlib.Data.Nat.Digits.Lemmas

namespace Azalea
namespace Format

def lkItoa (value : QWORD) (b : Buffer) (start : ℕ) (radix : ℤ) : Buffer × ℕ :=
  if radix = 16 then lkHextostring value.toNat b start else lkDecimaltostring value.toInt b start

def Buffer.read (b : Buffer) (start n : ℕ) : List BYTE := (List.range n).map fun i => b.cell (start + i)

def digitValue (r : Radix) (c : BYTE) : Option ℕ :=
  if 0x30 ≤ c.toNat ∧ c.toNat ≤ 0x39 then some (c.toNat - 0x30)
  else if r = .hex ∧ 0x41 ≤ c.toNat ∧ c.toNat ≤ 0x46 then some (c.toNat - 0x41 + 10)
  else none

def parseDigits (r : Radix) : List BYTE → ℕ → Option ℕ
  | [], value => some value
  | c :: cs, value => (digitValue r c).bind fun d => parseDigits r cs (value * r.base + d)

def parseNat (r : Radix) (text : List BYTE) : Option ℕ := if text = [] then none else parseDigits r text 0

def body (text : List BYTE) : List BYTE := if text.head? = some 0x2D#8 then text.tail else text

def parse : Radix → List BYTE → Option ℤ
  | .hex, text => (parseNat .hex text).bind fun n => if n < 2 ^ 64 then some (BitVec.ofNat 64 n).toInt else none
  | .dec, text => (parseNat .dec (body text)).map fun n : ℕ => if text.head? = some 0x2D#8 then -(n : ℤ) else n

structure Numeral (r : Radix) (value : ℤ) (text : List BYTE) : Prop where
  sign : text.head? = some 0x2D#8 ↔ r = .dec ∧ value < 0
  leading : (body text).head? = some 0x30#8 → body text = [0x30#8]
  parsed : parse r text = some value

structure Written (r : Radix) (value : ℤ) (b : Buffer) (start n : ℕ) : Prop where
  numeral : Numeral r value (b.read start n)
  unbroken : ∀ i < n, b.cell (start + i) ≠ 0#8
  terminated : b.cell (start + n) = 0#8

section Cells

variable {b : Buffer} {l : List BYTE} {start length limit i j n : ℕ} {v : BYTE}

theorem cell_store_self : (b.store i v).cell i = v := Function.update_self ..

theorem cell_store_of_ne (h : j ≠ i) : (b.store i v).cell j = b.cell j := Function.update_of_ne h ..

theorem cell_copy_of_lt (h : j < i) : (b.copy i l).cell j = b.cell j := by
  induction l generalizing b i with
  | nil => rfl
  | cons v vs ih =>
    rw [Buffer.copy, ih (Nat.lt_succ_of_lt h), cell_store_of_ne (Nat.ne_of_lt h)]

theorem read_succ (b : Buffer) (start n : ℕ) : b.read start (n + 1) = b.cell start :: b.read (start + 1) n := by
  rw [Buffer.read, List.range_succ_eq_map, List.map_cons, List.map_map, Nat.add_zero]
  refine congrArg (b.cell start :: ·) (List.map_congr_left fun k _ => ?_)
  rw [Function.comp_apply, Nat.succ_eq_one_add, ← Nat.add_assoc]

theorem read_copy : (b.copy i l).read i l.length = l := by
  induction l generalizing b i with
  | nil => rfl
  | cons v vs ih =>
    rw [List.length_cons, read_succ, Buffer.copy, cell_copy_of_lt (Nat.lt_succ_self i), cell_store_self, ih]

theorem copy_first (b : Buffer) (start : ℕ) (hl : l ≠ []) :
    ((b.copy start l).store (start + l.length) 0#8).cell start ∈ l := by
  cases l with
  | nil => exact absurd rfl hl
  | cons v vs =>
    rw [cell_store_of_ne (by rw [List.length_cons]; omega), Buffer.copy, cell_copy_of_lt (Nat.lt_succ_self start),
      cell_store_self]
    exact List.mem_cons_self

theorem cell_mem_read (h : i < n) : b.cell (start + i) ∈ b.read start n := List.mem_map.mpr ⟨i, List.mem_range.mpr h, rfl⟩

theorem read_congr {b' : Buffer} (h : ∀ i < n, b'.cell (start + i) = b.cell (start + i)) :
    b'.read start n = b.read start n :=
  List.map_congr_left fun i hi => h i (List.mem_range.mp hi)

theorem lkStrlen_eq (h : ∀ i < limit, b.cell (start + i) ≠ 0#8) : b.lkStrlen start limit = limit := by
  rw [Buffer.lkStrlen, List.find?_eq_none.mpr, Option.getD_none]
  intro i hi
  simpa using h i (List.mem_range.mp hi)

theorem reverseLoop_of_lt (h : j < start) (hi : i ≤ length / 2) : (b.reverseLoop start length i).cell j = b.cell j := by
  induction i with
  | zero => rfl
  | succ i ih =>
    rw [Buffer.reverseLoop, cell_store_of_ne (by omega), cell_store_of_ne (by omega), ih (by omega)]

theorem reverseLoop_cell (hi : i ≤ length / 2) : (b.reverseLoop start length i).cell (start + j) =
    if j < length ∧ (j < i ∨ length ≤ j + i) then b.cell (start + (length - 1 - j)) else b.cell (start + j) := by
  induction i generalizing j with
  | zero => rw [if_neg (by omega), Buffer.reverseLoop]
  | succ i ih =>
    have hi' : i ≤ length / 2 := by omega
    rw [Buffer.reverseLoop, show start + length - 1 - i = start + (length - 1 - i) by omega]
    rcases eq_or_ne j (length - 1 - i) with rfl | hlast
    · rw [cell_store_self, ih hi', if_neg (by omega), if_pos (by omega)]
      congr 2
      omega
    rw [cell_store_of_ne (by omega)]
    rcases eq_or_ne j i with rfl | hfirst
    · rw [cell_store_self, ih hi', if_neg (by omega), if_pos (by omega)]
    rw [cell_store_of_ne (by omega), ih hi']
    refine if_congr ?_ rfl rfl
    omega

theorem read_lkReversestring (h : ∀ i < limit, b.cell (start + i) ≠ 0#8) :
    (b.lkReversestring start limit).read start limit = (b.read start limit).reverse := by
  refine List.ext_getElem (by simp [Buffer.read]) fun i hi _ => ?_
  have hlt : i < limit := by simpa [Buffer.read] using hi
  simp only [Buffer.read, List.getElem_reverse, List.getElem_map, List.getElem_range, List.length_map,
    List.length_range, Buffer.lkReversestring, lkStrlen_eq h]
  rw [reverseLoop_cell le_rfl]
  split_ifs with hmoved
  · rfl
  · -- the middle one of an odd number of characters
    congr 2
    omega

theorem lkReversestring_end (h : ∀ i < limit, b.cell (start + i) ≠ 0#8) :
    (b.lkReversestring start limit).cell (start + limit) = b.cell (start + limit) := by
  rw [Buffer.lkReversestring, lkStrlen_eq h, reverseLoop_cell le_rfl, if_neg (by omega)]

theorem lkReversestring_of_lt (h : ∀ i < limit, b.cell (start + i) ≠ 0#8) (hj : j < start) :
    (b.lkReversestring start limit).cell j = b.cell j := by
  rw [Buffer.lkReversestring, lkStrlen_eq h, reverseLoop_of_lt hj le_rfl]

theorem reversed_copy (b : Buffer) (start : ℕ) (hl : ∀ c ∈ l, c ≠ 0#8) :
    let b' := ((b.copy start l).store (start + l.length) 0#8).lkReversestring start l.length
    b'.read start l.length = l.reverse ∧ b'.cell (start + l.length) = 0#8 ∧ ∀ j < start, b'.cell j = b.cell j := by
  have hread : ((b.copy start l).store (start + l.length) 0#8).read start l.length = l :=
    (read_congr fun i hi => cell_store_of_ne (by omega)).trans read_copy
  have hne : ∀ i < l.length, ((b.copy start l).store (start + l.length) 0#8).cell (start + i) ≠ 0#8 := by
    intro i hi
    have hmem := @cell_mem_read ((b.copy start l).store (start + l.length) 0#8) start i _ hi
    rw [hread] at hmem
    exact hl _ hmem
  refine ⟨(read_lkReversestring hne).trans (congrArg List.reverse hread), ?_, fun j hj => ?_⟩
  · rw [lkReversestring_end hne, cell_store_self]
  · rw [lkReversestring_of_lt hne hj, cell_store_of_ne (by omega), cell_copy_of_lt hj]

end Cells

section Digits

variable {r : Radix} {b : Buffer} {start value d i : ℕ} {ds : List ℕ}

theorem Radix.one_lt_base (r : Radix) : 1 < r.base := lt_of_lt_of_le (by decide) r.base_ge

theorem digitValue_digit (h : d < r.base) : digitValue r (digit d) = some d := by
  cases r with
  | dec =>
    have : d < 10 := h
    interval_cases d <;> rfl
  | hex =>
    have : d < 16 := h
    interval_cases d <;> rfl

theorem digitValue_ne_zero {c : BYTE} (h : digitValue r c = some d) : c ≠ 0#8 := by
  rintro rfl
  simp [digitValue] at h

theorem digitValue_ne_minus {c : BYTE} (h : digitValue r c = some d) : c ≠ 0x2D#8 := by
  rintro rfl
  simp [digitValue] at h

theorem digitLoop_eq (r : Radix) (b : Buffer) (start value i : ℕ) : digitLoop r b start value i =
    (b.copy (start + i) ((Nat.digits r.base value).map digit), i + (Nat.digits r.base value).length) := by
  fun_induction digitLoop r b start value i with
  | case1 => simp [Buffer.copy]
  | case2 b value i h ih =>
    rw [ih, Nat.digits_def' r.one_lt_base (Nat.pos_of_ne_zero h), List.map_cons, Buffer.copy, List.length_cons,
      ← Nat.add_assoc start i 1, Nat.add_right_comm i 1, Nat.add_assoc i]

theorem parseDigits_append (r : Radix) (cs : List BYTE) (c : BYTE) (value : ℕ) : parseDigits r (cs ++ [c]) value =
    (parseDigits r cs value).bind fun n => (digitValue r c).map fun d => n * r.base + d := by
  induction cs generalizing value with
  | nil =>
    rw [List.nil_append, parseDigits, parseDigits, Option.bind_some]
    cases digitValue r c <;> rfl
  | cons c' cs ih =>
    rw [List.cons_append, parseDigits, parseDigits, Option.bind_assoc]
    exact Option.bind_congr fun d _ => ih _

theorem parseDigits_digits (h : ∀ d ∈ ds, d < r.base) :
    parseDigits r (ds.map digit).reverse 0 = some (Nat.ofDigits r.base ds) := by
  induction ds with
  | nil => rfl
  | cons d ds ih =>
    rw [List.map_cons, List.reverse_cons, parseDigits_append, ih fun e he => h e (List.mem_cons_of_mem d he),
      Option.bind_some, digitValue_digit (h d List.mem_cons_self), Option.map_some, Nat.ofDigits_cons, Nat.mul_comm,
      Nat.add_comm]

def numeral (r : Radix) (value : ℕ) : List BYTE := ((Nat.digits r.base value).map digit).reverse

theorem numeral_digit {c : BYTE} (h : c ∈ numeral r value) : ∃ d, digitValue r c = some d := by
  obtain ⟨d, hd, rfl⟩ := List.mem_map.mp (List.mem_reverse.mp h)
  exact ⟨d, digitValue_digit (Nat.digits_lt_base r.one_lt_base hd)⟩

theorem parseNat_numeral (h : value ≠ 0) : parseNat r (numeral r value) = some value := by
  have hne : numeral r value ≠ [] := by
    rw [numeral, ne_eq, List.reverse_eq_nil_iff, List.map_eq_nil_iff]
    exact Nat.digits_ne_nil_iff_ne_zero.mpr h
  rw [parseNat, if_neg hne, numeral, parseDigits_digits fun d hd => Nat.digits_lt_base r.one_lt_base hd,
    Nat.ofDigits_digits]

theorem head_numeral (h : value ≠ 0) : (numeral r value).head? ≠ some 0x30#8 := by
  have hne := Nat.digits_ne_nil_iff_ne_zero (b := r.base).mpr h
  have hlast := Nat.getLast_digit_ne_zero r.base h
  have hlt := Nat.digits_lt_base r.one_lt_base (List.getLast_mem hne)
  rw [numeral, List.head?_reverse, List.getLast?_map, List.getLast?_eq_getLast_of_ne_nil hne, Option.map_some]
  intro he
  have hvalue := digitValue_digit hlt
  rw [Option.some.inj he] at hvalue
  exact hlast (Option.some.inj hvalue).symm

theorem body_numeral : body (numeral r value) = numeral r value ∧ (numeral r value).head? ≠ some 0x2D#8 := by
  have hne : (numeral r value).head? ≠ some 0x2D#8 := by
    intro he
    obtain ⟨d, hd⟩ := numeral_digit (List.mem_of_mem_head? he)
    exact digitValue_ne_minus hd rfl
  exact ⟨if_neg hne, hne⟩

theorem numeral_zero (r : Radix) : Numeral r 0 [0x30#8] := by
  refine ⟨by simp, fun _ => rfl, ?_⟩
  cases r <;> rfl

theorem numeral_hex {value : QWORD} (h : value.toNat ≠ 0) : Numeral .hex value.toInt (numeral .hex value.toNat) := by
  obtain ⟨hbody, hminus⟩ := @body_numeral .hex value.toNat
  refine ⟨by simp [hminus], fun hzero => ?_, ?_⟩
  · rw [hbody] at hzero
    exact absurd hzero (head_numeral h)
  · rw [parse, parseNat_numeral h, Option.bind_some, if_pos value.isLt, BitVec.ofNat_toNat, BitVec.setWidth_eq]

theorem numeral_pos {value : ℤ} (h : 0 < value) : Numeral .dec value (numeral .dec value.toNat) := by
  obtain ⟨hbody, hminus⟩ := @body_numeral .dec value.toNat
  have hne : value.toNat ≠ 0 := by omega
  refine ⟨⟨fun he => absurd he hminus, fun he => by omega⟩, fun hzero => ?_, ?_⟩
  · rw [hbody] at hzero
    exact absurd hzero (head_numeral hne)
  · rw [parse, hbody, parseNat_numeral hne, Option.map_some, if_neg hminus, Int.toNat_of_nonneg h.le]

theorem numeral_neg {value : ℤ} (h : value < 0) : Numeral .dec value (0x2D#8 :: numeral .dec value.natAbs) := by
  have hbody : body (0x2D#8 :: numeral .dec value.natAbs) = numeral .dec value.natAbs := if_pos rfl
  have hne : value.natAbs ≠ 0 := by omega
  refine ⟨⟨fun _ => ⟨rfl, h⟩, fun _ => rfl⟩, fun hzero => ?_, ?_⟩
  · rw [hbody] at hzero
    exact absurd hzero (head_numeral hne)
  · rw [parse, hbody, parseNat_numeral hne, Option.map_some, if_pos (by rfl)]
    refine congrArg some ?_
    omega

end Digits

section Strings

variable {r : Radix} {b : Buffer} {start n : ℕ} {text : List BYTE}

theorem Written.of_read {value : ℤ} (hnum : Numeral r value text) (hread : b.read start n = text)
    (hne : ∀ c ∈ text, c ≠ 0#8) (hend : b.cell (start + n) = 0#8) : Written r value b start n :=
  ⟨hread ▸ hnum, fun _ hi => hne _ (hread ▸ cell_mem_read hi), hend⟩

theorem map_digit_ne_zero {value : ℕ} {c : BYTE} (h : c ∈ (Nat.digits r.base value).map digit) :
    c ≠ 0#8 ∧ c ≠ 0x2D#8 := by
  obtain ⟨d, hd, rfl⟩ := List.mem_map.mp h
  have hvalue := digitValue_digit (Nat.digits_lt_base r.one_lt_base hd)
  exact ⟨digitValue_ne_zero hvalue, digitValue_ne_minus hvalue⟩

theorem written_zero (r : Radix) (b : Buffer) (start : ℕ) :
    Written r 0 ((b.store start 0x30#8).store (start + 1) 0#8) start 1 := by
  refine .of_read (numeral_zero r) ?_ (by simp) cell_store_self
  rw [read_succ, cell_store_of_ne (by omega), cell_store_self]
  rfl

theorem lkHextostring_written (value : QWORD) (b : Buffer) (start : ℕ) :
    Written .hex value.toInt (lkHextostring value.toNat b start).1 start (lkHextostring value.toNat b start).2 := by
  unfold lkHextostring
  split_ifs with hzero
  · rw [show value = 0#64 from BitVec.eq_of_toNat_eq hzero]
    exact written_zero ..
  · obtain ⟨hread, hend, -⟩ := reversed_copy b start fun c (hc : c ∈ (Nat.digits Radix.hex.base value.toNat).map digit) =>
      (map_digit_ne_zero hc).1
    simp only [digitLoop_eq, Nat.add_zero, Nat.zero_add]
    rw [List.length_map] at hread hend
    exact .of_read (numeral_hex hzero) hread (fun c hc => (map_digit_ne_zero (List.mem_reverse.mp hc)).1) hend

theorem lkDecimaltostring_pos {value : ℤ} (h : 0 < value) (b : Buffer) (start : ℕ) :
    Written .dec value (lkDecimaltostring value b start).1 start (lkDecimaltostring value b start).2 := by
  have hmag : magnitude value = value.toNat := by rw [magnitude, if_neg h.not_gt]
  have hne : (Nat.digits Radix.dec.base value.toNat).map digit ≠ [] := by
    rw [ne_eq, List.map_eq_nil_iff]
    exact Nat.digits_ne_nil_iff_ne_zero.mpr (by omega)
  obtain ⟨hread, hend, -⟩ := reversed_copy b start fun c (hc : c ∈ (Nat.digits Radix.dec.base value.toNat).map digit) =>
    (map_digit_ne_zero hc).1
  have hminus := (map_digit_ne_zero (copy_first b start hne)).2
  rw [List.length_map] at hread hend hminus
  simp only [lkDecimaltostring, h.ne', if_false, h.not_gt, digitLoop_eq, hmag, Nat.add_zero, Nat.zero_add, hminus]
  exact .of_read (numeral_pos h) hread (fun c hc => (map_digit_ne_zero (List.mem_reverse.mp hc)).1) hend

theorem lkDecimaltostring_neg {value : ℤ} (h : value < 0) (b : Buffer) (start : ℕ) :
    (lkDecimaltostring value b start).2 = (numeral .dec (magnitude value)).length + 1 ∧
      (lkDecimaltostring value b start).1.read start ((numeral .dec (magnitude value)).length + 1) =
        0x2D#8 :: numeral .dec (magnitude value) ∧
      (lkDecimaltostring value b start).1.cell (start + ((numeral .dec (magnitude value)).length + 1)) = 0#8 := by
  obtain ⟨hread, hend, hbelow⟩ := reversed_copy (b.store start 0x2D#8) (start + 1)
    fun c (hc : c ∈ (Nat.digits Radix.dec.base (magnitude value)).map digit) => (map_digit_ne_zero hc).1
  have hlen : (numeral .dec (magnitude value)).length = (Nat.digits Radix.dec.base (magnitude value)).length := by
    rw [numeral, List.length_reverse, List.length_map]
  have hminus : (((b.store start 0x2D#8).copy (start + 1) ((Nat.digits Radix.dec.base (magnitude value)).map digit)).store
      (start + (1 + (Nat.digits Radix.dec.base (magnitude value)).length)) 0#8).cell start = 0x2D#8 := by
    rw [cell_store_of_ne (by omega), cell_copy_of_lt (Nat.lt_succ_self start), cell_store_self]
  rw [List.length_map] at hread hend hbelow
  simp only [lkDecimaltostring, h.ne, if_false, h, if_true, digitLoop_eq, hminus, Nat.add_sub_cancel_left, hlen]
  rw [← Nat.add_assoc start 1]
  refine ⟨Nat.add_comm _ _, ?_, ?_⟩
  · rw [read_succ, hread, hbelow start (Nat.lt_succ_self start), cell_store_self]
    rfl
  · have hsum : ∀ n, start + (n + 1) = start + 1 + n := by omega
    rw [hsum (Nat.digits Radix.dec.base (magnitude value)).length]
    exact hend

theorem magnitude_eq {value : ℤ} (h : value < 0) (hmin : -2 ^ 63 < value) : magnitude value = value.natAbs := by
  rw [magnitude, if_pos h, BitVec.toInt_ofInt_eq_self (by decide) (by omega) (by omega)]
  omega

theorem magnitude_min : magnitude (-2 ^ 63) = 0 := by decide

theorem lkDecimaltostring_written_iff (value : QWORD) (b : Buffer) (start : ℕ) :
    Written .dec value.toInt (lkDecimaltostring value.toInt b start).1 start (lkDecimaltostring value.toInt b start).2 ↔
      value.toInt ≠ -2 ^ 63 := by
  rcases lt_trichotomy value.toInt 0 with hneg | hzero | hpos
  · obtain ⟨hlen, hread, hend⟩ := lkDecimaltostring_neg hneg b start
    rw [hlen]
    constructor
    · intro h hmin
      have hparsed := h.numeral.parsed
      rw [hread, hmin, magnitude_min] at hparsed
      exact absurd hparsed (by decide)
    · intro hmin
      have hge := value.le_toInt
      rw [magnitude_eq hneg (by omega)] at hread hend ⊢
      refine .of_read (numeral_neg hneg) hread (fun c hc => ?_) hend
      rcases List.mem_cons.mp hc with rfl | hc
      · decide
      · obtain ⟨d, hd⟩ := numeral_digit hc
        exact digitValue_ne_zero hd
  · rw [hzero]
    exact iff_of_true (written_zero ..) (by decide)
  · exact iff_of_true (lkDecimaltostring_pos hpos b start) (by omega)

theorem lkItoa_written_iff (r : Radix) (value : QWORD) (b : Buffer) (start : ℕ) :
    Written r value.toInt (lkItoa value b start r.base).1 start (lkItoa value b start r.base).2 ↔
      r = .hex ∨ value.toInt ≠ -2 ^ 63 := by
  cases r with
  | hex => exact iff_of_true (lkHextostring_written value b start) (Or.inl rfl)
  | dec =>
    rw [or_iff_right (by decide)]
    exact lkDecimaltostring_written_iff value b start

theorem min_writes_minus :
    let out := lkItoa 0x8000000000000000#64 ⟨fun _ => 0x41#8, 0⟩ 0 10
    out.2 = 1 ∧ out.1.cell 0 = 0x2D#8 ∧ out.1.cell 1 = 0#8 ∧ ¬ Written .dec (-2 ^ 63) out.1 0 out.2 := by
  intro out
  have hvalue : (0x8000000000000000#64).toInt = -2 ^ 63 := by decide
  have hout : lkDecimaltostring (-2 ^ 63) ⟨fun _ => 0x41#8, 0⟩ 0 = out := by rw [← hvalue]; rfl
  have htext : numeral .dec 0 = [] := by rw [numeral, Nat.digits_zero]; rfl
  have hneg : (-2 ^ 63 : ℤ) < 0 := by decide
  obtain ⟨hlen, hread, hend⟩ := lkDecimaltostring_neg hneg ⟨fun _ => 0x41#8, 0⟩ 0
  rw [hout, magnitude_min, htext] at hlen hread hend
  refine ⟨hlen, (List.cons.inj hread).1, hend, fun h => ?_⟩
  have hparsed := h.numeral.parsed
  rw [hlen, hread] at hparsed
  exact absurd hparsed (by decide)

end Strings

end Format
end Azalea
