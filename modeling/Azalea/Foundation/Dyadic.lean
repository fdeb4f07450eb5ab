import Mathlib.Tactic
import Mathlib.Data.Nat.Size

namespace Dyadic

structure Block where
  level : ℕ
  offset : ℕ
deriving DecidableEq, Repr

namespace Block

def first (b : Block) : ℕ := b.offset * 2 ^ b.level

def stop (b : Block) : ℕ := (b.offset + 1) * 2 ^ b.level

def Has (b : Block) (p : ℕ) : Prop := p / 2 ^ b.level = b.offset

theorem has_iff (b : Block) (p : ℕ) : b.Has p ↔ b.first ≤ p ∧ p < b.stop := by
  have hpos : 0 < 2 ^ b.level := Nat.two_pow_pos _
  rw [Has, Nat.div_eq_iff hpos, first, stop, Nat.add_mul]
  omega

theorem has_first (b : Block) : b.Has b.first :=
  Nat.mul_div_cancel _ (Nat.two_pow_pos _)

theorem first_lt_stop (b : Block) : b.first < b.stop :=
  ((b.has_iff _).mp b.has_first).2

theorem stop_eq (b : Block) : b.stop = b.first + 2 ^ b.level := by
  rw [stop, first, Nat.add_mul, Nat.one_mul]

theorem stop_le_iff (b : Block) (n : ℕ) : b.stop ≤ n ↔ b.offset < n / 2 ^ b.level := by
  rw [stop, Nat.lt_iff_add_one_le, Nat.le_div_iff_mul_le (Nat.two_pow_pos _)]

theorem pow_level_le {b : Block} {n : ℕ} (h : b.stop ≤ n) : 2 ^ b.level ≤ n := by
  have := b.stop_eq
  omega

end Block

theorem half_iff (l p k : ℕ) :
    p / 2 ^ (l + 1) = k ↔ p / 2 ^ l = 2 * k ∨ p / 2 ^ l = 2 * k + 1 := by
  rw [pow_succ, ← Nat.div_div_eq_div_mul]
  omega

theorem has_children (l k p : ℕ) :
    (Block.mk (l + 1) k).Has p ↔ (Block.mk l (2 * k)).Has p ∨ (Block.mk l (2 * k + 1)).Has p :=
  half_iff l p k

structure Tiling (S : Set Block) (n : ℕ) : Prop where
  inside : ∀ b ∈ S, b.stop ≤ n
  cover : ∀ p < n, ∃ b ∈ S, b.Has p
  unique : ∀ b ∈ S, ∀ c ∈ S, ∀ p, b.Has p → c.Has p → b = c

namespace Tiling
variable {S T : Set Block} {n : ℕ}

theorem congr (h : Tiling S n) (e : ∀ b, b ∈ T ↔ b ∈ S) : Tiling T n := by
  have : T = S := Set.ext e
  rwa [this]

theorem disjoint (h : Tiling S n) {b c : Block} (hb : b ∈ S) (hc : c ∈ S) (hne : b ≠ c) :
    b.stop ≤ c.first ∨ c.stop ≤ b.first := by
  by_contra hcon
  have hlt := b.first_lt_stop
  have hlt' := c.first_lt_stop
  obtain ⟨p, hbp, hcp⟩ : ∃ p, b.Has p ∧ c.Has p := by
    refine ⟨max b.first c.first, ?_, ?_⟩ <;> rw [Block.has_iff] <;> omega
  exact hne (h.unique b hb c hc p hbp hcp)

theorem child_notMem (h : Tiling S n) {l k : ℕ} (hb : (⟨l + 1, k⟩ : Block) ∈ S) (r : ℕ)
    (hr : r < 2) : (⟨l, 2 * k + r⟩ : Block) ∉ S := by
  intro hc
  have hp := (Block.mk l (2 * k + r)).has_first
  have hq : (Block.mk (l + 1) k).Has (Block.mk l (2 * k + r)).first := by
    rw [has_children]
    interval_cases r
    · exact Or.inl hp
    · exact Or.inr hp
  have := congrArg Block.level (h.unique _ hb _ hc _ hq hp)
  simp at this

theorem split (h : Tiling S n) {l k : ℕ} (hb : (⟨l + 1, k⟩ : Block) ∈ S)
    (e : ∀ b, b ∈ T ↔ (b ∈ S ∧ b ≠ ⟨l + 1, k⟩) ∨ b = ⟨l, 2 * k⟩ ∨ b = ⟨l, 2 * k + 1⟩) :
    Tiling T n := by
  have parent : ∀ c ∈ T, ∀ p, c.Has p → ∃ d ∈ S, d.Has p ∧
      (d ≠ ⟨l + 1, k⟩ → c = d) ∧ (d = ⟨l + 1, k⟩ → c.level = l) := by
    intro c hc p hp
    rcases (e c).mp hc with ⟨hcS, hne⟩ | rfl | rfl
    · exact ⟨c, hcS, hp, fun _ => rfl, fun he => absurd he hne⟩
    · exact ⟨_, hb, (has_children l k p).mpr (Or.inl hp), fun hn => absurd rfl hn, fun _ => rfl⟩
    · exact ⟨_, hb, (has_children l k p).mpr (Or.inr hp), fun hn => absurd rfl hn, fun _ => rfl⟩
  refine ⟨?_, ?_, ?_⟩
  · intro c hc
    have hin := h.inside _ hb
    simp only [Block.stop] at hin
    have hpow : 2 ^ (l + 1) = 2 * 2 ^ l := by rw [pow_succ, Nat.mul_comm]
    rcases (e c).mp hc with ⟨hcS, -⟩ | rfl | rfl
    · exact h.inside c hcS
    · simp only [Block.stop]; rw [hpow] at hin; nlinarith [Nat.two_pow_pos l]
    · simp only [Block.stop]; rw [hpow] at hin; nlinarith [Nat.two_pow_pos l]
  · intro p hp
    obtain ⟨b, hbS, hbp⟩ := h.cover p hp
    by_cases hbe : b = ⟨l + 1, k⟩
    · subst hbe
      rcases (has_children l k p).mp hbp with hl | hr
      · exact ⟨_, (e _).mpr (Or.inr (Or.inl rfl)), hl⟩
      · exact ⟨_, (e _).mpr (Or.inr (Or.inr rfl)), hr⟩
    · exact ⟨b, (e b).mpr (Or.inl ⟨hbS, hbe⟩), hbp⟩
  · intro b hbT c hcT p hbp hcp
    obtain ⟨d, hdS, hdp, hd1, hd2⟩ := parent b hbT p hbp
    obtain ⟨d', hdS', hdp', hd1', hd2'⟩ := parent c hcT p hcp
    obtain rfl := h.unique d hdS d' hdS' p hdp hdp'
    by_cases hde : d = ⟨l + 1, k⟩
    · have hl : b.level = c.level := (hd2 hde).trans (hd2' hde).symm
      have ho : b.offset = c.offset := by
        rw [← hbp, ← hcp, hl]
      cases b; cases c; simp_all
    · exact (hd1 hde).trans (hd1' hde).symm

theorem merge (h : Tiling S n) {l k : ℕ} (hl : (⟨l, 2 * k⟩ : Block) ∈ S)
    (hr : (⟨l, 2 * k + 1⟩ : Block) ∈ S)
    (e : ∀ b, b ∈ T ↔ (b ∈ S ∧ b ≠ ⟨l, 2 * k⟩ ∧ b ≠ ⟨l, 2 * k + 1⟩) ∨ b = ⟨l + 1, k⟩) :
    Tiling T n := by
  have child : ∀ c ∈ S, ∀ p, c.Has p → (Block.mk (l + 1) k).Has p →
      c = ⟨l, 2 * k⟩ ∨ c = ⟨l, 2 * k + 1⟩ := by
    intro c hc p hcp hp
    rcases (has_children l k p).mp hp with h1 | h2
    · exact Or.inl (h.unique c hc _ hl p hcp h1)
    · exact Or.inr (h.unique c hc _ hr p hcp h2)
  refine ⟨?_, ?_, ?_⟩
  · intro c hc
    have hin := h.inside _ hr
    simp only [Block.stop] at hin
    have hpow : 2 ^ (l + 1) = 2 * 2 ^ l := by rw [pow_succ, Nat.mul_comm]
    rcases (e c).mp hc with ⟨hcS, -⟩ | rfl
    · exact h.inside c hcS
    · simp only [Block.stop]
      rw [hpow]
      nlinarith
  · intro p hp
    obtain ⟨b, hbS, hbp⟩ := h.cover p hp
    by_cases hb1 : b = ⟨l, 2 * k⟩
    · subst hb1
      exact ⟨_, (e _).mpr (Or.inr rfl), (has_children l k p).mpr (Or.inl hbp)⟩
    · by_cases hb2 : b = ⟨l, 2 * k + 1⟩
      · subst hb2
        exact ⟨_, (e _).mpr (Or.inr rfl), (has_children l k p).mpr (Or.inr hbp)⟩
      · exact ⟨b, (e b).mpr (Or.inl ⟨hbS, hb1, hb2⟩), hbp⟩
  · intro b hb c hc p hbp hcp
    rcases (e b).mp hb with ⟨hbS, hb1, hb2⟩ | rfl <;>
      rcases (e c).mp hc with ⟨hcS, hc1, hc2⟩ | rfl
    · exact h.unique b hbS c hcS p hbp hcp
    · rcases child b hbS p hbp hcp with he | he
      · exact absurd he hb1
      · exact absurd he hb2
    · rcases child c hcS p hcp hbp with he | he
      · exact absurd he hc1
      · exact absurd he hc2
    · rfl

theorem sum_le (h : Tiling S n) {l : List Block} (hl : ∀ b ∈ l, b ∈ S) (hn : l.Nodup) :
    (l.map fun b => 2 ^ b.level).sum ≤ n := by
  let pages : Block → Finset ℕ := fun b => Finset.Ico b.first b.stop
  have hdisj : ∀ b ∈ l.toFinset, ∀ c ∈ l.toFinset, b ≠ c → Disjoint (pages b) (pages c) := by
    intro b hb c hc hne
    rw [List.mem_toFinset] at hb hc
    rw [Finset.disjoint_left]
    intro p hp hq
    rw [Finset.mem_Ico, ← Block.has_iff] at hp hq
    exact hne (h.unique b (hl b hb) c (hl c hc) p hp hq)
  have hcard : ∀ b, (pages b).card = 2 ^ b.level := by
    intro b
    rw [Nat.card_Ico, b.stop_eq, Nat.add_sub_cancel_left]
  have hsub : l.toFinset.biUnion pages ⊆ Finset.range n := by
    intro p hp
    simp only [Finset.mem_biUnion, List.mem_toFinset, pages, Finset.mem_Ico] at hp
    obtain ⟨b, hb, -, hlt⟩ := hp
    exact Finset.mem_range.mpr (hlt.trans_le (h.inside b (hl b hb)))
  calc (l.map fun b => 2 ^ b.level).sum
      = ∑ b ∈ l.toFinset, (pages b).card := by
        simp only [hcard]
        exact (List.sum_toFinset _ hn).symm
    _ = (l.toFinset.biUnion pages).card := (Finset.card_biUnion hdisj).symm
    _ ≤ n := by simpa using Finset.card_le_card hsub

theorem exists_notMem (h : Tiling S n) {l : List Block} (hn : l.Nodup)
    (hlt : (l.map fun b => 2 ^ b.level).sum < n) : ∃ b ∈ S, b ∉ l := by
  by_contra hall
  push Not at hall
  let pages : Block → Finset ℕ := fun b => Finset.Ico b.first b.stop
  have hsub : Finset.range n ⊆ l.toFinset.biUnion pages := by
    intro p hp
    obtain ⟨b, hb, hbp⟩ := h.cover p (Finset.mem_range.mp hp)
    rw [Block.has_iff] at hbp
    exact Finset.mem_biUnion.mpr ⟨b, List.mem_toFinset.mpr (hall b hb), Finset.mem_Ico.mpr hbp⟩
  have hle : n ≤ (l.map fun b => 2 ^ b.level).sum := by
    calc n = (Finset.range n).card := (Finset.card_range n).symm
      _ ≤ (l.toFinset.biUnion pages).card := Finset.card_le_card hsub
      _ ≤ ∑ b ∈ l.toFinset, (pages b).card := Finset.card_biUnion_le
      _ = (l.map fun b => 2 ^ b.level).sum := by
        rw [← List.sum_toFinset _ hn]
        refine Finset.sum_congr rfl fun b _ => ?_
        rw [Nat.card_Ico, b.stop_eq, Nat.add_sub_cancel_left]
  omega

end Tiling

def tail (n : ℕ) : Set Block :=
  {b | b.offset + 1 = n / 2 ^ b.level ∧ n / 2 ^ b.level % 2 = 1}

theorem div_pow_eq_of_le {p n l m : ℕ} (hlm : l ≤ m) (h : p / 2 ^ l = n / 2 ^ l) :
    p / 2 ^ m = n / 2 ^ m := by
  obtain ⟨d, rfl⟩ := Nat.exists_eq_add_of_le hlm
  rw [pow_add, ← Nat.div_div_eq_div_mul, ← Nat.div_div_eq_div_mul, h]

theorem tail_above {n p l : ℕ} (h : p / 2 ^ l + 1 = n / 2 ^ l) (ho : n / 2 ^ l % 2 = 1) :
    p / 2 ^ (l + 1) = n / 2 ^ (l + 1) := by
  rw [pow_succ, ← Nat.div_div_eq_div_mul, ← Nat.div_div_eq_div_mul]
  omega

theorem tiling_tail (n : ℕ) : Tiling (tail n) n := by
  refine ⟨?_, ?_, ?_⟩
  · rintro b ⟨hb, -⟩
    rw [Block.stop, hb]
    exact Nat.div_mul_le_self n _
  · intro p hp
    -- the owner of p is its block at the last level where p and n still differ
    have hex : ∃ m, ¬ p / 2 ^ m < n / 2 ^ m := by
      refine ⟨n, ?_⟩
      rw [Nat.div_eq_of_lt (Nat.lt_two_pow_self), Nat.not_lt]
      exact Nat.zero_le _
    classical
    have hmin : ∀ j < Nat.find hex, p / 2 ^ j < n / 2 ^ j := fun j hj =>
      not_not.mp (Nat.find_min hex hj)
    have hspec := Nat.find_spec hex
    generalize Nat.find hex = m at hmin hspec
    cases m with
    | zero => simp at hspec; omega
    | succ l =>
      have hlt := hmin l (Nat.lt_succ_self l)
      have hle : p / 2 ^ (l + 1) ≤ n / 2 ^ (l + 1) := Nat.div_le_div_right (by omega)
      have heq : p / 2 ^ (l + 1) = n / 2 ^ (l + 1) := by omega
      rw [pow_succ, ← Nat.div_div_eq_div_mul, ← Nat.div_div_eq_div_mul] at heq
      refine ⟨⟨l, p / 2 ^ l⟩, ⟨?_, ?_⟩, rfl⟩ <;> dsimp only <;> omega
  · intro b hb c hc p hbp hcp
    obtain ⟨l, k⟩ := b
    obtain ⟨m, j⟩ := c
    simp only [Block.Has] at hbp hcp
    simp only [tail, Set.mem_ofPred_eq] at hb hc
    subst hbp hcp
    rcases Nat.lt_trichotomy l m with hlt | rfl | hlt
    · have := div_pow_eq_of_le hlt (tail_above hb.1 hb.2)
      omega
    · rfl
    · have := div_pow_eq_of_le hlt (tail_above hc.1 hc.2)
      omega

def Merged (S : Set Block) : Prop := ∀ l k, (⟨l, 2 * k⟩ : Block) ∈ S → (⟨l, 2 * k + 1⟩ : Block) ∉ S

theorem Merged.mono {S T : Set Block} (h : Merged T) (hST : S ⊆ T) : Merged S :=
  fun l k hl hr => h l k (hST hl) (hST hr)

theorem merged_tail (n : ℕ) : Merged (tail n) := by
  rintro l k ⟨hl, -⟩ ⟨hr, -⟩
  dsimp only at hl hr
  omega

namespace Tiling

variable {F G U : Set Block} {n : ℕ}

theorem lt_of_has {S : Set Block} (h : Tiling S n) {b : Block} (hb : b ∈ S) {p : ℕ} (hp : b.Has p) : p < n :=
  ((b.has_iff p).mp hp).2.trans_le (h.inside b hb)

theorem not_finer (hF : Tiling (F ∪ U) n) (hG : Tiling (G ∪ U) n) (hU : ∀ b ∈ F, b ∉ U) (hM : Merged G)
    {b : Block} (hb : b ∈ F) {m k p : ℕ} (hd : (⟨m, k⟩ : Block) ∈ G) (hbp : b.Has p) (hdp : (Block.mk m k).Has p) :
    b.level ≤ m := by
  induction m using Nat.strong_induction_on generalizing k p with
  | h m ih =>
    by_contra hlt
    have hlt : m < b.level := Nat.lt_of_not_le hlt
    obtain ⟨j, hj, hne⟩ : ∃ j, j / 2 = k / 2 ∧ j ≠ k :=
      ⟨if k % 2 = 0 then k + 1 else k - 1, by split_ifs <;> omega, by split_ifs <;> omega⟩
    obtain ⟨q, hjq⟩ : ∃ q, (Block.mk m j).Has q := ⟨_, Block.has_first _⟩
    have hpq : q / 2 ^ (m + 1) = p / 2 ^ (m + 1) := by
      simp only [Block.Has] at hjq hdp
      rw [pow_succ, ← Nat.div_div_eq_div_mul, ← Nat.div_div_eq_div_mul, hjq, hdp, hj]
    have hbq : b.Has q := (div_pow_eq_of_le hlt hpq).trans hbp
    obtain ⟨⟨l, o⟩, he, heq⟩ := hG.cover q (hF.lt_of_has (.inl hb) hbq)
    have he : (⟨l, o⟩ : Block) ∈ G := by
      refine he.resolve_right fun heU => ?_
      exact hU b hb (hF.unique b (.inl hb) _ (.inr heU) q hbq heq ▸ heU)
    rcases Nat.lt_trichotomy l m with hlm | rfl | hml
    · exact absurd (ih l hlm he hbq heq) (Nat.not_le_of_lt (hlm.trans hlt))
    · obtain rfl : j = o := hjq.symm.trans heq
      rcases Nat.even_or_odd' k with ⟨i, rfl | rfl⟩
      · obtain rfl : j = 2 * i + 1 := by omega
        exact hM l i hd he
      · obtain rfl : j = 2 * i := by omega
        exact hM l i he hd
    · have hep : (Block.mk l o).Has p := (div_pow_eq_of_le hml hpq.symm).trans heq
      have hlevel := congrArg Block.level (hG.unique _ (.inl he) _ (.inl hd) p hep hdp)
      exact absurd hlevel (Nat.ne_of_gt hml)

theorem subset_of_merged (hF : Tiling (F ∪ U) n) (hG : Tiling (G ∪ U) n) (hU : ∀ b ∈ F, b ∉ U) (hV : ∀ b ∈ G, b ∉ U)
    (hM : Merged F) (hN : Merged G) : F ⊆ G := by
  intro b hb
  have hp := b.has_first
  obtain ⟨c, hc, hcp⟩ := hG.cover _ (hF.lt_of_has (.inl hb) hp)
  have hc : c ∈ G := by
    refine hc.resolve_right fun hcU => ?_
    exact hU b hb (hF.unique b (.inl hb) c (.inr hcU) _ hp hcp ▸ hcU)
  have hlevel : b.level = c.level :=
    le_antisymm (hF.not_finer hG hU hN hb hc hp hcp) (hG.not_finer hF hV hM hc hb hcp hp)
  have hoffset : b.offset = c.offset := by
    rw [← hp, ← hcp, hlevel]
  have hbc : b = c := by
    cases b
    cases c
    simp_all
  exact hbc ▸ hc

theorem eq_of_merged (hF : Tiling (F ∪ U) n) (hG : Tiling (G ∪ U) n) (hU : ∀ b ∈ F, b ∉ U) (hV : ∀ b ∈ G, b ∉ U)
    (hM : Merged F) (hN : Merged G) : F = G :=
  Set.Subset.antisymm (hF.subset_of_merged hG hU hV hM hN) (hG.subset_of_merged hF hV hU hN hM)

end Tiling

end Dyadic
