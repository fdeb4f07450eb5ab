import Mathlib.Data.BitVec
import Mathlib.Tactic

namespace Bytes

variable {w : ℕ}

abbrev Mem (w : ℕ) := BitVec w → BitVec 8

def Within (a : BitVec w) (n : ℕ) (x : BitVec w) : Prop := (x - a).toNat < n

instance (a : BitVec w) (n : ℕ) (x : BitVec w) : Decidable (Within a n x) := inferInstanceAs (Decidable (_ < _))

def Apart (a : BitVec w) (n : ℕ) (b : BitVec w) (k : ℕ) : Prop := ∀ x, Within a n x → ¬ Within b k x

def load (m : Mem w) (a : BitVec w) : ℕ → ℕ
  | 0 => 0
  | n + 1 => (m a).toNat + 2 ^ 8 * load m (a + 1) n

def store (m : Mem w) (a : BitVec w) (n v : ℕ) : Mem w :=
  fun x => if Within a n x then BitVec.ofNat 8 (v / (2 ^ 8) ^ (x - a).toNat) else m x

def move (m : Mem w) (dst src : BitVec w) (n : ℕ) : Mem w :=
  fun x => if Within dst n x then m (src + (x - dst)) else m x

variable {m m' : Mem w} {a b dst src x : BitVec w} {n k i : ℕ}

theorem Within.mono (h : Within a n x) (hn : n ≤ k) : Within a k x := Nat.lt_of_lt_of_le h hn

theorem Apart.mono (h : Apart a n b k) {n' k' : ℕ} (hn : n' ≤ n) (hk : k' ≤ k) : Apart a n' b k' :=
  fun x hx hb => h x (hx.mono hn) (hb.mono hk)

theorem Apart.symm (h : Apart a n b k) : Apart b k a n := fun x hb ha => h x ha hb

theorem within_add_left (h : n + k ≤ 2 ^ w) :
    Within (a + BitVec.ofNat w n) k x ↔ n ≤ (x - a).toNat ∧ (x - a).toNat < n + k := by
  have hx := (x - a).isLt
  rw [Within, sub_add_eq_sub_sub, BitVec.toNat_sub, BitVec.toNat_ofNat]
  rcases Nat.eq_or_lt_of_le (show n ≤ 2 ^ w by omega) with hn | hn
  · omega
  · rw [Nat.mod_eq_of_lt hn]
    rcases Nat.lt_or_ge (x - a).toNat n with hlt | hge
    · rw [Nat.mod_eq_of_lt (by omega)]
      omega
    · rw [show 2 ^ w - n + (x - a).toNat = (x - a).toNat - n + 2 ^ w by omega, Nat.add_mod_right,
        Nat.mod_eq_of_lt (by omega)]
      omega

theorem offset_toNat (hi : i < 2 ^ w) : (a + BitVec.ofNat w i - a).toNat = i := by
  rw [add_sub_cancel_left, BitVec.toNat_ofNat, Nat.mod_eq_of_lt hi]

theorem add_offset_add (a : BitVec w) (i j : ℕ) :
    a + BitVec.ofNat w i + BitVec.ofNat w j = a + BitVec.ofNat w (i + j) := by
  rw [BitVec.ofNat_add, add_assoc]

theorem load_div (hi : i < n) : load m a n / (2 ^ 8) ^ i % 2 ^ 8 = (m (a + BitVec.ofNat w i)).toNat := by
  induction n generalizing a i with
  | zero => omega
  | succ n ih =>
    have hm := (m a).isLt
    cases i with
    | zero =>
      rw [pow_zero, Nat.div_one, load, Nat.add_mul_mod_self_left, Nat.mod_eq_of_lt hm]
      simp
    | succ i =>
      have hdiv : load m a (n + 1) / 2 ^ 8 = load m (a + 1) n := by
        rw [load, Nat.add_mul_div_left _ _ (by decide), Nat.div_eq_of_lt hm, Nat.zero_add]
      rw [pow_succ', ← Nat.div_div_eq_div_mul, hdiv, ih (by omega), Nat.add_comm i 1, BitVec.ofNat_add, ← add_assoc]
      rfl

theorem load_congr (h : ∀ i < n, m (a + BitVec.ofNat w i) = m' (b + BitVec.ofNat w i)) :
    load m a n = load m' b n := by
  induction n generalizing a b with
  | zero => rfl
  | succ n ih =>
    have h0 : m a = m' b := by simpa using h 0 (by omega)
    have hnext : ∀ i < n, m (a + 1 + BitVec.ofNat w i) = m' (b + 1 + BitVec.ofNat w i) := by
      intro i hi
      have h1 := h (1 + i) (by omega)
      rwa [BitVec.ofNat_add, ← add_assoc, ← add_assoc] at h1
    rw [load, load, h0, ih hnext]

theorem load_congr_within {j : ℕ} (h : ∀ x, Within a n x → m x = m' x) (hj : j + k ≤ n) (hn : n ≤ 2 ^ w) :
    load m (a + BitVec.ofNat w j) k = load m' (a + BitVec.ofNat w j) k := by
  refine load_congr fun i hi => h _ ?_
  rw [add_offset_add, Within, offset_toNat (by omega)]
  omega

theorem load_lt (m : Mem w) (a : BitVec w) (n : ℕ) : load m a n < (2 ^ 8) ^ n := by
  induction n generalizing a with
  | zero => simp [load]
  | succ n ih =>
    have hm := (m a).isLt
    have hi := ih (a + 1)
    rw [load, pow_succ' (2 ^ 8) n]
    omega

theorem load_sub_div (hi : i < n) (h : ∀ j < i, m (a + BitVec.ofNat w j) = m (b + BitVec.ofNat w j)) :
    ((2 ^ 8) ^ n - load m b n + load m a n) / (2 ^ 8) ^ i % 2 ^ 8 =
      (m (a + BitVec.ofNat w i) - m (b + BitVec.ofNat w i)).toNat := by
  induction n generalizing a b i with
  | zero => omega
  | succ n ih =>
    have hb := load_lt m (b + 1) n
    have hm := (m b).isLt
    rw [load, load, pow_succ' (2 ^ 8) n]
    cases i with
    | zero =>
      rw [pow_zero, Nat.div_one, BitVec.toNat_sub, show BitVec.ofNat w 0 = 0 from rfl, add_zero, add_zero]
      omega
    | succ i =>
      have h0 : m a = m b := by simpa using h 0 (by omega)
      have hnext : ∀ j < i, m (a + 1 + BitVec.ofNat w j) = m (b + 1 + BitVec.ofNat w j) := by
        intro j hj
        have h1 := h (1 + j) (by omega)
        rwa [BitVec.ofNat_add, ← add_assoc, ← add_assoc] at h1
      have hsub : 2 ^ 8 * (2 ^ 8) ^ n - ((m b).toNat + 2 ^ 8 * load m (b + 1) n) +
          ((m a).toNat + 2 ^ 8 * load m (a + 1) n) =
            2 ^ 8 * ((2 ^ 8) ^ n - load m (b + 1) n + load m (a + 1) n) := by
        rw [h0]
        omega
      rw [hsub, pow_succ' (2 ^ 8) i, ← Nat.div_div_eq_div_mul, Nat.mul_div_cancel_left _ (by decide), ih (by omega) hnext,
        Nat.add_comm i 1, BitVec.ofNat_add, ← add_assoc, ← add_assoc]
      rfl

theorem store_load (m : Mem w) (dst src : BitVec w) (n : ℕ) : store m dst n (load m src n) = move m dst src n := by
  funext x
  unfold store move
  split
  · next hx =>
    apply BitVec.eq_of_toNat_eq
    rw [BitVec.toNat_ofNat, load_div hx, BitVec.ofNat_toNat, BitVec.setWidth_eq]
  · rfl

theorem move_of_not_within (h : ¬ Within dst n x) : move m dst src n x = m x := if_neg h

theorem move_of_within (h : Within dst n x) : move m dst src n x = m (src + (x - dst)) := if_pos h

theorem move_zero (m : Mem w) (dst src : BitVec w) : move m dst src 0 = m := by
  funext x
  exact if_neg (Nat.not_lt_zero _)

theorem move_append (h : Apart src (n + k) dst (n + k)) (hn : n + k ≤ 2 ^ w) :
    move (move m dst src n) (dst + BitVec.ofNat w n) (src + BitVec.ofNat w n) k = move m dst src (n + k) := by
  funext x
  by_cases hk : Within (dst + BitVec.ofNat w n) k x
  · obtain ⟨hlow, hhigh⟩ := (within_add_left hn).1 hk
    have hsrc : src + BitVec.ofNat w n + (x - (dst + BitVec.ofNat w n)) = src + (x - dst) := by ring
    have hread : Within src (n + k) (src + (x - dst)) := by
      rw [Within, add_sub_cancel_left]
      exact hhigh
    rw [move_of_within hk, hsrc, move_of_not_within, move_of_within hhigh]
    exact fun hd => h _ hread (hd.mono (Nat.le_add_right n k))
  · rw [move_of_not_within hk]
    by_cases hd : Within dst n x
    · rw [move_of_within hd, move_of_within (hd.mono (Nat.le_add_right n k))]
    · rw [move_of_not_within hd, move_of_not_within]
      intro hnk
      exact hk ((within_add_left hn).2 ⟨Nat.not_lt.1 hd, hnk⟩)

end Bytes
