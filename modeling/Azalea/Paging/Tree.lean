import Azalea.Paging.Map

namespace Azalea
open Word

def walkFrom (mem : Mem) : ℕ → ℕ → ℕ → Option ℕ
  | 0, table, v => some (table + v % 2 ^ 12)
  | l + 1, table, v =>
    let entry := mem (slot table (v / 2 ^ (12 + 9 * l) % 512))
    if present entry = false then none
    else if (l = 1 ∨ l = 2) ∧ large entry = true then
      some (clearLow (12 + 9 * l) entry + v % 2 ^ (12 + 9 * l))
    else walkFrom mem l (clearLow 12 entry) v

theorem walk_eq_walkFrom (mem : Mem) (cr3 v : ℕ) : walk mem cr3 v = walkFrom mem 4 cr3 v := by
  simp [walk, walkPdpt, walkPd, walkPt, walkFrom]

theorem slot_page {t i u j : ℕ} (ht : 4096 ∣ t) (hu : 4096 ∣ u) (hi : i < 512) (hj : j < 512)
    (h : slot t i = slot u j) : t = u ∧ i = j := by
  unfold slot at h
  omega

theorem present_ne_zero {e : ℕ} (h : present e = true) : e ≠ 0 := by
  rintro rfl
  exact absurd h (by decide)

theorem zeroFill_slot {mem : Mem} {n t i : ℕ} (hn : 4096 ∣ n) (ht : 4096 ∣ t) (hi : i < 512) :
    zeroFill mem n 4096 (slot t i) = if t = n then 0 else mem (slot t i) := by
  have hiff : (n ≤ slot t i ∧ slot t i < n + 4096) ↔ t = n := by
    unfold slot
    omega
  exact if_congr hiff rfl rfl

def Rigid (pgd t : ℕ) : Prop := t = pgd ∨ t = pgd + 0x1000 ∨ t = pgd + 0x3000

def Soft (pgd entry : ℕ) : Prop := entry = 0 ∨ large entry = false ∧ ¬ Rigid pgd (clearLow 12 entry)

def Typed (own : ℕ → Prop) (level : ℕ → ℕ) (l entry : ℕ) : Prop :=
  entry = 0 ∨ present entry = true ∧ (large entry = true ∧ (l = 2 ∨ l = 3) ∨
    level (clearLow 12 entry) + 1 = l ∧ own (clearLow 12 entry))

structure Tables (pgd : ℕ) (own : ℕ → Prop) (mem : Mem) (level : ℕ → ℕ) : Prop where
  root : level pgd = 4
  pdpt : level (pgd + 0x1000) = 3
  pd : level (pgd + 0x3000) = 2
  owned : ∀ t, level t ≠ 0 → own t
  page : ∀ t, own t → 4096 ∣ t
  entry : ∀ t i, i < 512 → level t ≠ 0 → Typed own level (level t) (mem (slot t i))
  soft : ∀ t i, i < 512 → level t ≠ 0 → (¬ Rigid pgd t ∨ t = pgd ∧ i ≠ 256) → Soft pgd (mem (slot t i))
  window : mem (slot pgd 256) = pgd + 0x1000 ||| 7
  first : Soft pgd (mem (slot (pgd + 0x1000) 0))
  kernel : ∀ i < 512, present (mem (slot (pgd + 0x3000) i)) = true ∧
    large (mem (slot (pgd + 0x3000) i)) = true

def newTable (mem : Mem) (n entry : ℕ) : Mem := Function.update (zeroFill mem n 4096) entry (n ||| 7)

namespace Tables
variable {pgd : ℕ} {own : ℕ → Prop} {mem : Mem} {level : ℕ → ℕ} {n t i : ℕ}

theorem page_of_level (h : Tables pgd own mem level) (ht : level t ≠ 0) : 4096 ∣ t := h.page t (h.owned t ht)

theorem window_ne_zero (h : Tables pgd own mem level) : mem (slot pgd 256) ≠ 0 := by
  rw [h.window]
  exact present_ne_zero (present_or (by decide))

theorem walkFrom_keeps (h : Tables pgd own mem level) {mem' : Mem}
    (hmem : ∀ t i, i < 512 → level t ≠ 0 → mem (slot t i) ≠ 0 → mem' (slot t i) = mem (slot t i))
    {l t v p : ℕ} (ht : level t = l) (hw : walkFrom mem l t v = some p) : walkFrom mem' l t v = some p := by
  induction l generalizing t with
  | zero => exact hw
  | succ l ih =>
    have hi : v / 2 ^ (12 + 9 * l) % 512 < 512 := Nat.mod_lt _ (by decide)
    have hty := h.entry t _ hi (by omega)
    rw [walkFrom] at hw ⊢
    by_cases hp : present (mem (slot t (v / 2 ^ (12 + 9 * l) % 512))) = false
    · rw [if_pos hp] at hw
      exact absurd hw (Option.some_ne_none _).symm
    have hp' := Bool.eq_true_of_not_eq_false hp
    rw [hmem t _ hi (by omega) (present_ne_zero hp')]
    rw [if_neg hp] at hw ⊢
    split
    · rename_i hlarge
      rwa [if_pos hlarge] at hw
    · rename_i hlarge
      rw [if_neg hlarge] at hw
      rcases hty with h0 | ⟨-, ⟨hl, hlev⟩ | ⟨hlev, -⟩⟩
      · exact absurd h0 (present_ne_zero hp')
      · exact absurd ⟨by omega, hl⟩ hlarge
      · exact ih (by omega) hw

theorem keeps (h : Tables pgd own mem level) {mem' : Mem}
    (hmem : ∀ t i, i < 512 → level t ≠ 0 → mem (slot t i) ≠ 0 → mem' (slot t i) = mem (slot t i))
    {v p : ℕ} (hw : walk mem pgd v = some p) : walk mem' pgd v = some p := by
  rw [walk_eq_walkFrom] at hw ⊢
  exact h.walkFrom_keeps hmem h.root hw

theorem walkFrom_empty {l v : ℕ} (h0 : mem (slot t (v / 2 ^ (12 + 9 * l) % 512)) = 0) :
    walkFrom mem (l + 1) t v = none := by
  rw [walkFrom, h0]
  rfl

theorem child (h : Tables pgd own mem level) (ht : level t ≠ 0) (hi : i < 512) (hne : mem (slot t i) ≠ 0)
    (hsoft : Soft pgd (mem (slot t i))) :
    present (mem (slot t i)) = true ∧ large (mem (slot t i)) = false ∧
      level (clearLow 12 (mem (slot t i))) + 1 = level t ∧ own (clearLow 12 (mem (slot t i))) ∧
      ¬ Rigid pgd (clearLow 12 (mem (slot t i))) := by
  obtain ⟨hlarge, hrigid⟩ := hsoft.resolve_left hne
  obtain ⟨hp, hl⟩ := (h.entry t i hi ht).resolve_left hne
  obtain ⟨hlev, hown⟩ := hl.resolve_left fun hl => by simp [hlarge] at hl
  exact ⟨hp, hlarge, hlev, hown, hrigid⟩

theorem walkFrom_child {l v : ℕ} (hp : present (mem (slot t (v / 2 ^ (12 + 9 * l) % 512))) = true)
    (hlarge : large (mem (slot t (v / 2 ^ (12 + 9 * l) % 512))) = false) :
    walkFrom mem (l + 1) t v = walkFrom mem l (clearLow 12 (mem (slot t (v / 2 ^ (12 + 9 * l) % 512)))) v := by
  rw [walkFrom, if_neg (by simp [hp]), if_neg (by simp [hlarge])]

theorem walkFrom_large {l v : ℕ} (hp : present (mem (slot t (v / 2 ^ (12 + 9 * l) % 512))) = true)
    (hlarge : large (mem (slot t (v / 2 ^ (12 + 9 * l) % 512))) = true) (hl : l = 1 ∨ l = 2) :
    walkFrom mem (l + 1) t v ≠ none := by
  rw [walkFrom, if_neg (by simp [hp]), if_pos ⟨hl, hlarge⟩]
  exact Option.some_ne_none _

theorem leaf_empty (h : Tables pgd own mem level) {v : ℕ} (ht : level t = 1) (hw : walkFrom mem 1 t v = none) :
    mem (slot t (v / 2 ^ 12 % 512)) = 0 := by
  rcases h.entry t (v / 2 ^ 12 % 512) (Nat.mod_lt _ (by decide)) (by omega) with h0 | ⟨hp, -⟩
  · exact h0
  · rw [walkFrom, if_neg (by simpa using hp), if_neg (by simp)] at hw
    exact absurd hw (Option.some_ne_none _)

theorem newTable_slot (h : Tables pgd own mem level) (hn : 4096 ∣ n) (ht : level t ≠ 0) (hi : i < 512)
    {u j : ℕ} (hu : 4096 ∣ u) (hj : j < 512) :
    newTable mem n (slot t i) (slot u j) =
      if u = t ∧ j = i then n ||| 7 else if u = n then 0 else mem (slot u j) := by
  unfold newTable
  by_cases he : u = t ∧ j = i
  · rw [if_pos he, he.1, he.2, Function.update_self]
  · rw [if_neg he, Function.update_of_ne fun hs => he (slot_page hu (h.page_of_level ht) hj hi hs)]
    exact zeroFill_slot hn hu hj

theorem newTable_of_ne_zero (h : Tables pgd own mem level) (hn : 4096 ∣ n) (hown : ¬ own n) (ht : level t ≠ 0)
    (hi : i < 512) (h0 : mem (slot t i) = 0) {u j : ℕ} (hu : level u ≠ 0) (hj : j < 512)
    (hne : mem (slot u j) ≠ 0) : newTable mem n (slot t i) (slot u j) = mem (slot u j) := by
  rw [h.newTable_slot hn ht hi (h.page_of_level hu) hj, if_neg, if_neg]
  · rintro rfl
    exact hown (h.owned u hu)
  · rintro ⟨rfl, rfl⟩
    exact hne h0

theorem grow (h : Tables pgd own mem level) {own' : ℕ → Prop} (hmono : ∀ t, own t → own' t)
    (hpage : ∀ t, own' t → 4096 ∣ t) (hnew : own' n) (hown : ¬ own n) (hrigid : ¬ Rigid pgd n)
    (ht : level t ≠ 0) (hi : i < 512) (h0 : mem (slot t i) = 0) :
    Tables pgd own' (newTable mem n (slot t i)) (Function.update level n (level t - 1)) := by
  have hn := hpage n hnew
  have hzero : level n = 0 := by
    by_contra hl
    exact hown (h.owned n hl)
  have hlev : ∀ u, own u → Function.update level n (level t - 1) u = level u := by
    intro u hu
    refine Function.update_of_ne ?_ _ _
    rintro rfl
    exact hown hu
  have hold : ∀ u, u ≠ n → Function.update level n (level t - 1) u ≠ 0 → level u ≠ 0 := by
    intro u hne hu
    rwa [Function.update_of_ne hne] at hu
  have hpg : ∀ u, Function.update level n (level t - 1) u ≠ 0 → 4096 ∣ u := by
    intro u hu
    by_cases hun : u = n
    · exact hun ▸ hn
    · exact h.page_of_level (hold u hun hu)
  have hsoft : ∀ u j, j < 512 → 4096 ∣ u → (u ≠ n → Soft pgd (mem (slot u j))) →
      Soft pgd (newTable mem n (slot t i) (slot u j)) := by
    intro u j hj hu hs
    rw [h.newTable_slot hn ht hi hu hj]
    split
    · exact .inr ⟨not_large_or hn (by decide), by rwa [clearLow_entry hn (by decide)]⟩
    · split
      · exact .inl rfl
      · exact hs ‹_›
  have hroot : level pgd ≠ 0 := by rw [h.root]; decide
  have hpdpt : level (pgd + 0x1000) ≠ 0 := by rw [h.pdpt]; decide
  have hpd : level (pgd + 0x3000) ≠ 0 := by rw [h.pd]; decide
  constructor
  · rw [hlev _ (h.owned _ hroot), h.root]
  · rw [hlev _ (h.owned _ hpdpt), h.pdpt]
  · rw [hlev _ (h.owned _ hpd), h.pd]
  · intro u hu
    by_cases hun : u = n
    · exact hun ▸ hnew
    · exact hmono u (h.owned u (hold u hun hu))
  · exact hpage
  · intro u j hj hu
    rw [h.newTable_slot hn ht hi (hpg u hu) hj]
    split
    · rename_i he
      rw [he.1, hlev t (h.owned t ht)]
      refine .inr ⟨present_or (by decide), .inr ?_⟩
      rw [clearLow_entry hn (by decide), Function.update_self]
      exact ⟨by omega, hnew⟩
    split
    · exact .inl rfl
    rename_i hun
    rw [Function.update_of_ne hun]
    refine (h.entry u j hj (hold u hun hu)).imp id (And.imp id (Or.imp id ?_))
    rintro ⟨hl, ho⟩
    exact ⟨by rw [hlev _ ho]; exact hl, hmono _ ho⟩
  · intro u j hj hu hr
    refine hsoft u j hj (hpg u hu) fun hun => h.soft u j hj (hold u hun hu) hr
  · rw [h.newTable_of_ne_zero hn hown ht hi h0 hroot (by decide) h.window_ne_zero, h.window]
  · exact hsoft _ _ (by decide) (h.page_of_level hpdpt) fun _ => h.first
  · intro j hj
    rw [h.newTable_of_ne_zero hn hown ht hi h0 hpd hj (present_ne_zero (h.kernel j hj).1)]
    exact h.kernel j hj

theorem setLeaf (h : Tables pgd own mem level) {f : ℕ} (ht : level t = 1) (hi : i < 512) (hown : own f)
    (hf : level f = 0) (hrigid : ¬ Rigid pgd f) :
    Tables pgd own (Function.update mem (slot t i) (f ||| 7)) level := by
  have hpage := h.page f hown
  have hslot : ∀ u j, j < 512 → level u ≠ 0 → Function.update mem (slot t i) (f ||| 7) (slot u j) =
      if u = t ∧ j = i then f ||| 7 else mem (slot u j) := by
    intro u j hj hu
    by_cases he : u = t ∧ j = i
    · rw [if_pos he, he.1, he.2, Function.update_self]
    · rw [if_neg he, Function.update_of_ne fun hs =>
        he (slot_page (h.page_of_level hu) (h.page_of_level (by omega)) hj hi hs)]
  have hother : ∀ u j, j < 512 → 2 ≤ level u →
      Function.update mem (slot t i) (f ||| 7) (slot u j) = mem (slot u j) := by
    intro u j hj hu
    rw [hslot u j hj (by omega), if_neg]
    rintro ⟨rfl, -⟩
    omega
  constructor
  · exact h.root
  · exact h.pdpt
  · exact h.pd
  · exact h.owned
  · exact h.page
  · intro u j hj hu
    rw [hslot u j hj hu]
    split
    · rename_i he
      rw [he.1, ht]
      refine .inr ⟨present_or (by decide), .inr ?_⟩
      rw [clearLow_entry hpage (by decide), hf]
      exact ⟨rfl, hown⟩
    · exact h.entry u j hj hu
  · intro u j hj hu hr
    rw [hslot u j hj hu]
    split
    · exact .inr ⟨not_large_or hpage (by decide), by rwa [clearLow_entry hpage (by decide)]⟩
    · exact h.soft u j hj hu hr
  · rw [hother _ _ (by decide) (by rw [h.root]; decide), h.window]
  · rw [hother _ _ (by decide) (by rw [h.pdpt]; decide)]
    exact h.first
  · intro j hj
    rw [hother _ _ hj (by rw [h.pd])]
    exact h.kernel j hj

theorem congr (h : Tables pgd own mem level) {mem' : Mem}
    (hmem : ∀ t i, i < 512 → level t ≠ 0 → mem' (slot t i) = mem (slot t i)) : Tables pgd own mem' level := by
  constructor
  · exact h.root
  · exact h.pdpt
  · exact h.pd
  · exact h.owned
  · exact h.page
  · intro t i hi ht
    rw [hmem t i hi ht]
    exact h.entry t i hi ht
  · intro t i hi ht hr
    rw [hmem t i hi ht]
    exact h.soft t i hi ht hr
  · rw [hmem _ _ (by decide) (by rw [h.root]; decide), h.window]
  · rw [hmem _ _ (by decide) (by rw [h.pdpt]; decide)]
    exact h.first
  · intro i hi
    rw [hmem _ _ hi (by rw [h.pd]; decide)]
    exact h.kernel i hi

theorem walk_congr (h : Tables pgd own mem level) {mem' : Mem}
    (hmem : ∀ t i, i < 512 → level t ≠ 0 → mem' (slot t i) = mem (slot t i)) (v : ℕ) :
    walk mem' pgd v = walk mem pgd v := by
  cases hw : walk mem pgd v with
  | some p => exact h.keeps (fun t i hi ht _ => hmem t i hi ht) hw
  | none =>
    cases hw' : walk mem' pgd v with
    | none => rfl
    | some p =>
      rw [(h.congr hmem).keeps (fun t i hi ht _ => (hmem t i hi ht).symm) hw'] at hw
      exact absurd hw (Option.some_ne_none p)

theorem mono (h : Tables pgd own mem level) {own' : ℕ → Prop} (hmono : ∀ t, own t → own' t)
    (hpage : ∀ t, own' t → 4096 ∣ t) : Tables pgd own' mem level where
  root := h.root
  pdpt := h.pdpt
  pd := h.pd
  owned := fun t ht => hmono t (h.owned t ht)
  page := hpage
  entry := fun t i hi ht => (h.entry t i hi ht).imp id (And.imp id (Or.imp id (And.imp id (hmono _))))
  soft := h.soft
  window := h.window
  first := h.first
  kernel := h.kernel

theorem descend (h : Tables pgd own mem level) {l v p : ℕ} (ht : level t = l + 1)
    (hsoft : Soft pgd (mem (slot t (v / 2 ^ (12 + 9 * l) % 512)))) (hw : walkFrom mem (l + 1) t v = some p) :
    mem (slot t (v / 2 ^ (12 + 9 * l) % 512)) ≠ 0 ∧
      large (mem (slot t (v / 2 ^ (12 + 9 * l) % 512))) = false ∧
      level (clearLow 12 (mem (slot t (v / 2 ^ (12 + 9 * l) % 512)))) = l ∧
      own (clearLow 12 (mem (slot t (v / 2 ^ (12 + 9 * l) % 512)))) ∧
      ¬ Rigid pgd (clearLow 12 (mem (slot t (v / 2 ^ (12 + 9 * l) % 512)))) ∧
      walkFrom mem l (clearLow 12 (mem (slot t (v / 2 ^ (12 + 9 * l) % 512)))) v = some p := by
  have hne : mem (slot t (v / 2 ^ (12 + 9 * l) % 512)) ≠ 0 := by
    intro h0
    rw [walkFrom_empty h0] at hw
    exact absurd hw (Option.some_ne_none _).symm
  obtain ⟨hp, hlarge, hlev, hown, hr⟩ := h.child (by omega) (Nat.mod_lt _ (by decide)) hne hsoft
  rw [walkFrom_child hp hlarge] at hw
  exact ⟨hne, hlarge, by omega, hown, hr, hw⟩

theorem walkFrom_frame (h : Tables pgd own mem level) {l v p : ℕ} (ht : level t = l) (hown : own t)
    (hrigid : ¬ Rigid pgd t) (hw : walkFrom mem l t v = some p) :
    ∃ f, own f ∧ level f = 0 ∧ ¬ Rigid pgd f ∧ p = f + v % 2 ^ 12 := by
  induction l generalizing t with
  | zero => exact ⟨t, hown, ht, hrigid, (Option.some.inj hw).symm⟩
  | succ l ih =>
    have hsoft : Soft pgd (mem (slot t (v / 2 ^ (12 + 9 * l) % 512))) :=
      h.soft t _ (Nat.mod_lt _ (by decide)) (by omega) (.inl hrigid)
    obtain ⟨-, -, hlev, hchild, hr, hw⟩ := h.descend ht hsoft hw
    exact ih hlev hchild hr hw

end Tables
end Azalea
