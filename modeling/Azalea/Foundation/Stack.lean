import Mathlib.Data.BitVec
import Mathlib.Tactic
import Azalea.Foundation.Bytes

namespace Stack
open Bytes

def word (m : Mem 64) (a : BitVec 64) : BitVec 64 := BitVec.ofNat 64 (load m a 8)

def setWord (m : Mem 64) (a v : BitVec 64) : Mem 64 := store m a 8 v.toNat

def Holds (m : Mem 64) : BitVec 64 → List (BitVec 64) → Prop
  | _, [] => True
  | a, v :: vs => word m a = v ∧ Holds m (a + 8) vs

def pushed (m : Mem 64) : BitVec 64 → List (BitVec 64) → Mem 64
  | _, [] => m
  | a, v :: vs => pushed (setWord m (a - 8) v) (a - 8) vs

def below (a : BitVec 64) (n : ℕ) : BitVec 64 := a - BitVec.ofNat 64 (8 * n)

def above (a : BitVec 64) (n : ℕ) : BitVec 64 := a + BitVec.ofNat 64 (8 * n)

variable {m m' : Mem 64} {a b v x : BitVec 64} {us vs : List (BitVec 64)} {n k : ℕ}

theorem load_of_digits {w : ℕ} {m : Mem w} {a : BitVec w} {n v : ℕ}
    (h : ∀ i < n, (m (a + BitVec.ofNat w i)).toNat = v / (2 ^ 8) ^ i % 2 ^ 8) (hv : v < (2 ^ 8) ^ n) : load m a n = v := by
  induction n generalizing a v with
  | zero =>
    rw [pow_zero] at hv
    rw [load]
    omega
  | succ n ih =>
    have h0 := h 0 (Nat.succ_pos n)
    rw [show BitVec.ofNat w 0 = 0 from rfl, add_zero, pow_zero, Nat.div_one] at h0
    rw [load, h0, ih (v := v / 2 ^ 8)]
    · exact Nat.mod_add_div v (2 ^ 8)
    · intro i hi
      have h1 := h (1 + i) (by omega)
      rwa [BitVec.ofNat_add, ← add_assoc, Nat.pow_add, pow_one, ← Nat.div_div_eq_div_mul] at h1
    · rw [pow_succ'] at hv
      exact Nat.div_lt_of_lt_mul hv

theorem load_store {w : ℕ} (m : Mem w) (a : BitVec w) {n v : ℕ} (hn : n ≤ 2 ^ w) (hv : v < (2 ^ 8) ^ n) :
    load (store m a n v) a n = v := by
  refine load_of_digits (fun i hi => ?_) hv
  have hoff : (a + BitVec.ofNat w i - a).toNat = i := offset_toNat (by omega)
  rw [store, if_pos (show Within a n _ by rw [Within, hoff]; exact hi), hoff, BitVec.toNat_ofNat]

theorem store_of_not_within {w : ℕ} {m : Mem w} {a x : BitVec w} {n v : ℕ} (h : ¬ Within a n x) :
    store m a n v x = m x := if_neg h

@[simp] theorem word_setWord_self : word (setWord m a v) a = v := by
  rw [word, setWord, load_store m a (by decide) (by simpa using v.isLt), BitVec.ofNat_toNat, BitVec.setWidth_eq]

theorem word_congr (h : ∀ x, Within a 8 x → m' x = m x) : word m' a = word m a := by
  rw [word, word]
  refine congrArg _ (load_congr fun i hi => h _ ?_)
  rw [Within, offset_toNat (by omega)]
  exact hi

theorem within_below (h : 8 * (n + k) ≤ 2 ^ 64) :
    Within a (8 * k) x ↔ 8 * n ≤ (x - below a n).toNat ∧ (x - below a n).toNat < 8 * n + 8 * k := by
  have hw := within_add_left (a := below a n) (n := 8 * n) (k := 8 * k) (x := x) (by omega)
  rwa [below, sub_add_cancel] at hw

theorem within_tail (h : 8 * (n + 1) ≤ 2 ^ 64) (hx : Within (a + 8) (8 * n) x) : Within a (8 * (n + 1)) x := by
  have hw := (within_add_left (a := a) (n := 8) (k := 8 * n) (x := x) (by omega)).mp hx
  rw [Within]
  omega

namespace Holds

theorem congr (h : Holds m a vs) (hn : 8 * vs.length ≤ 2 ^ 64) (hx : ∀ x, Within a (8 * vs.length) x → m' x = m x) :
    Holds m' a vs := by
  induction vs generalizing a with
  | nil => trivial
  | cons v vs ih =>
    rw [List.length_cons] at hn hx
    refine ⟨(word_congr fun x hw => hx x (hw.mono (by omega))).trans h.1, ih h.2 (by omega) fun x hw => ?_⟩
    exact hx x (within_tail hn hw)

theorem append (h : Holds m a us) (h' : Holds m (above a us.length) vs) : Holds m a (us ++ vs) := by
  induction us generalizing a with
  | nil =>
    rwa [above, List.length_nil, Nat.mul_zero, show BitVec.ofNat 64 0 = 0 from rfl, add_zero] at h'
  | cons u us ih =>
    refine ⟨h.1, ih h.2 ?_⟩
    rwa [above, List.length_cons, Nat.mul_succ, Nat.add_comm, BitVec.ofNat_add, ← add_assoc] at h'

theorem get (h : Holds m a vs) {i : ℕ} (hi : vs[i]? = some v) : word m (above a i) = v := by
  induction vs generalizing a i with
  | nil => simp at hi
  | cons u us ih =>
    cases i with
    | zero =>
      obtain rfl : u = v := by simpa using hi
      simpa [above] using h.1
    | succ i =>
      have hw := ih h.2 (by simpa using hi)
      rwa [above, add_assoc, show (8 : BitVec 64) = BitVec.ofNat 64 8 from rfl, ← BitVec.ofNat_add, Nat.add_comm,
        ← Nat.mul_succ] at hw

theorem split (h : Holds m a (us ++ vs)) : Holds m a us ∧ Holds m (above a us.length) vs := by
  induction us generalizing a with
  | nil => exact ⟨trivial, by simpa [above] using h⟩
  | cons u us ih =>
    obtain ⟨hus, hvs⟩ := ih h.2
    refine ⟨⟨h.1, hus⟩, ?_⟩
    rwa [above, List.length_cons, Nat.mul_succ, Nat.add_comm, BitVec.ofNat_add, ← add_assoc]

end Holds

theorem setWord_of_not_within (h : ¬ Within a 8 x) : setWord m a v x = m x := store_of_not_within h

theorem Holds.set (h : Holds m a (us ++ v :: vs)) (hn : 8 * (us.length + (vs.length + 1)) ≤ 2 ^ 64) (w : BitVec 64) :
    Holds (setWord m (above a us.length) w) a (us ++ w :: vs) := by
  obtain ⟨hus, -, hvs⟩ := h.split
  refine (hus.congr (by omega) fun x hx => setWord_of_not_within fun hw => ?_).append ⟨word_setWord_self, ?_⟩
  · rw [above, within_add_left (by omega)] at hw
    rw [Within] at hx
    omega
  · refine hvs.congr (by omega) fun x hx => setWord_of_not_within fun hw => ?_
    rw [show (8 : BitVec 64) = BitVec.ofNat 64 8 from rfl, within_add_left (by omega)] at hx
    rw [Within] at hw
    omega

theorem below_zero (a : BitVec 64) : below a 0 = a := by simp [below]

theorem below_add (a : BitVec 64) (n k : ℕ) : below (below a n) k = below a (n + k) := by
  rw [below, below, below, Nat.mul_add, BitVec.ofNat_add, sub_add_eq_sub_sub]

theorem sub_eight (a : BitVec 64) : a - 8 = below a 1 := rfl

theorem above_add (a : BitVec 64) (n k : ℕ) : above (above a n) k = above a (n + k) := by
  rw [above, above, above, Nat.mul_add, BitVec.ofNat_add, add_assoc]

theorem add_eight (a : BitVec 64) : a + 8 = above a 1 := rfl

@[simp] theorem above_below (a : BitVec 64) (n : ℕ) : above (below a n) n = a := sub_add_cancel _ _

theorem within_below_mono (hk : n ≤ k) (hn : 8 * k ≤ 2 ^ 64) (h : Within (below a n) (8 * n) x) :
    Within (below a k) (8 * k) x := by
  have hb : below a n = below a k + BitVec.ofNat 64 (8 * (k - n)) := by
    obtain ⟨j, rfl⟩ := Nat.exists_eq_add_of_le hk
    rw [← below_add, Nat.add_sub_cancel_left]
    exact (sub_add_cancel _ _).symm
  rw [hb, within_add_left (by omega)] at h
  rw [Within]
  omega

theorem within_below_toNat (hn : 8 * n ≤ a.toNat) (h : Within (below a n) (8 * n) x) :
    a.toNat ≤ x.toNat + 8 * n ∧ x.toNat < a.toNat := by
  have ha := a.isLt
  have hx := x.isLt
  rw [Within, below, BitVec.toNat_sub, BitVec.toNat_sub, BitVec.toNat_ofNat] at h
  omega

theorem pushed_of_not_within (hn : 8 * vs.length ≤ 2 ^ 64) (hx : ¬ Within (below a vs.length) (8 * vs.length) x) :
    pushed m a vs x = m x := by
  induction vs generalizing m a with
  | nil => rfl
  | cons v vs ih =>
    rw [List.length_cons] at hn hx
    have hout : ¬ Within (below (below a 1) vs.length) (8 * vs.length) x := by
      rw [below_add, Nat.add_comm]
      exact fun hw => hx (hw.mono (by omega))
    rw [pushed, sub_eight, ih (by omega) hout, setWord_of_not_within]
    intro hw
    rw [show 8 = 8 * 1 from rfl, within_below (n := vs.length) (by omega), below_add, Nat.add_comm 1] at hw
    exact hx (by rw [Within]; omega)

theorem pushed_of_within (hn : 8 * (vs.length + n) ≤ 2 ^ 64) (hx : Within a (8 * n) x) : pushed m a vs x = m x := by
  refine pushed_of_not_within (by omega) fun hw => ?_
  rw [within_below hn] at hx
  rw [Within] at hw
  omega

theorem word_pushed (hn : 8 * (vs.length + 1) ≤ 2 ^ 64) : word (pushed m a vs) a = word m a :=
  word_congr fun _ hx => pushed_of_within (n := 1) hn hx

theorem holds_pushed (hn : 8 * vs.length ≤ 2 ^ 64) : Holds (pushed m a vs) (below a vs.length) vs.reverse := by
  induction vs generalizing m a with
  | nil => trivial
  | cons v vs ih =>
    rw [List.length_cons] at hn
    rw [List.reverse_cons, List.length_cons, pushed, sub_eight, Nat.add_comm vs.length 1, ← below_add]
    refine (ih (by omega)).append ?_
    rw [List.length_reverse, above_below]
    exact ⟨(word_pushed (by omega)).trans word_setWord_self, trivial⟩

theorem pushed_append (m : Mem 64) (a : BitVec 64) (us vs : List (BitVec 64)) :
    pushed m a (us ++ vs) = pushed (pushed m a us) (below a us.length) vs := by
  induction us generalizing m a with
  | nil => simp [pushed, below]
  | cons u us ih => rw [List.cons_append, pushed, ih, pushed, sub_eight, below_add, List.length_cons, Nat.add_comm 1]

end Stack
