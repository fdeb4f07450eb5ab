import Azalea.Paging.Demand

namespace Azalea
open Word

theorem walkFrom_succ {mem : Mem} {l t v p : ℕ} (hv : ¬ 4096 ∣ v + 1) (hw : walkFrom mem l t v = some p) :
    walkFrom mem l t (v + 1) = some (p + 1) := by
  induction l generalizing t with
  | zero =>
    rw [walkFrom, Option.some.injEq] at hw ⊢
    omega
  | succ l ih =>
    have hdvd : ¬ 2 ^ (12 + 9 * l) ∣ v + 1 := fun hd => hv ((Nat.pow_dvd_pow 2 (Nat.le_add_right 12 _)).trans hd)
    have hdiv : (v + 1) / 2 ^ (12 + 9 * l) = v / 2 ^ (12 + 9 * l) := Nat.succ_div_of_not_dvd hdvd
    have hmod : (v + 1) % 2 ^ (12 + 9 * l) = v % 2 ^ (12 + 9 * l) + 1 := by
      have h1 := Nat.div_add_mod v (2 ^ (12 + 9 * l))
      have h2 := Nat.div_add_mod (v + 1) (2 ^ (12 + 9 * l))
      rw [hdiv] at h2
      omega
    rw [walkFrom] at hw ⊢
    rw [hdiv, hmod]
    by_cases hp : present (mem (slot t (v / 2 ^ (12 + 9 * l) % 512))) = false
    · rw [if_pos hp] at hw
      exact absurd hw (Option.some_ne_none _).symm
    rw [if_neg hp] at hw ⊢
    split
    · rename_i hlarge
      rw [if_pos hlarge, Option.some.injEq] at hw
      rw [← Nat.add_assoc, hw]
    · rename_i hlarge
      rw [if_neg hlarge] at hw
      exact ih hw

theorem walk_succ {mem : Mem} {cr3 v p : ℕ} (hv : ¬ 4096 ∣ v + 1) (hw : walk mem cr3 v = some p) :
    walk mem cr3 (v + 1) = some (p + 1) := by
  rw [walk_eq_walkFrom] at hw ⊢
  exact walkFrom_succ hv hw

namespace Space
variable {s : Space} {level : ℕ → ℕ} {v p : ℕ}

theorem Valid.mapped_bounds (h : s.Valid level) (hd : s.Demand v) (hw : walk s.mem s.pgd v = some p) :
    0 < p ∧ p < wordSize := by
  obtain ⟨f, hown, -, -, rfl⟩ := h.walk_frame hd hw
  have hf := h.pool.owned_lt hown
  have hmod := Nat.mod_lt v (show 0 < 2 ^ 12 by decide)
  omega

theorem Valid.getPa_mapped (h : s.Valid level) (hd : s.Demand v) (h0 : v ≠ 0) (hv : v ≤ configHighHalfLimit)
    (hw : walk s.mem s.pgd v = some p) : s.getPa v = (s, p) := by
  have hp := (h.mapped_bounds hd hw).2
  have hbelow : ∀ pdpt, s.mem (slot s.pgd (v / 2 ^ 39 % 512)) ≠ 0 →
      clearLow 12 (s.mem (slot s.pgd (v / 2 ^ 39 % 512))) = pdpt → level pdpt = 3 →
      Soft s.pgd (s.mem (slot pdpt (v / 2 ^ 30 % 512))) → walkFrom s.mem 3 pdpt v = some p →
      s.getPa v = (s, p) := by
    intro pdpt hne3 he3 hlev3 hsoft3 hw3
    have hsoft : ∀ {l t}, level t = l + 1 → ¬ Rigid s.pgd t →
        Soft s.pgd (s.mem (slot t (v / 2 ^ (12 + 9 * l) % 512))) := fun ht hr =>
      h.tables.soft _ _ (Nat.mod_lt _ (by decide)) (by omega) (.inl hr)
    obtain ⟨hne2, -, hlev2, -, hr2, hw2⟩ := h.tables.descend hlev3 hsoft3 hw3
    obtain ⟨hne1, hl1, hlev1, -, hr1, hw1⟩ := h.tables.descend hlev2 (hsoft hlev2 hr2) hw2
    obtain ⟨hne0, -, -, -, -, hw0⟩ := h.tables.descend hlev1 (hsoft hlev1 hr1) hw1
    rw [walkFrom, Option.some.injEq] at hw0
    rw [getPa, if_neg h0, if_neg (Nat.not_lt.mpr hv), pml4Index_eq, pdptIndex_eq, pdeIndex_eq, pteIndex_eq,
      nextTable_filled hne3, he3]
    dsimp only
    rw [nextTable_filled hne2]
    dsimp only
    split
    · rename_i hl
      exact absurd (hl1.symm.trans hl.2) (by decide)
    rw [nextTable_filled hne1]
    dsimp only
    rw [nextTable_filled hne0]
    dsimp only
    rw [hw0, Nat.mod_eq_of_lt hp]
  by_cases h256 : v / 2 ^ 39 % 512 = 256
  · have hpage : 2 ^ 12 ∣ s.pgd + 0x1000 := h.tables.page_of_level (by rw [h.tables.pdpt]; decide)
    rw [h.walk_window h256] at hw
    refine hbelow (s.pgd + 0x1000) ?_ ?_ h.tables.pdpt (hd h256) hw
    · rw [h256]
      exact h.tables.window_ne_zero
    · rw [h256, h.tables.window, clearLow_entry hpage (by decide)]
  · rw [walk_eq_walkFrom] at hw
    have hsoft := h.tables.soft s.pgd _ (Nat.mod_lt (v / 2 ^ 39) (by decide)) (by rw [h.tables.root]; decide)
      (.inr ⟨rfl, h256⟩)
    obtain ⟨hne, -, hlev, -, hr, hw⟩ := h.tables.descend h.tables.root hsoft hw
    exact hbelow _ hne rfl hlev (h.tables.soft _ _ (Nat.mod_lt _ (by decide)) (hlev.trans_ne (by decide)) (.inl hr)) hw

end Space
end Azalea
