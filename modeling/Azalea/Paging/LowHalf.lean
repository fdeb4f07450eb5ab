import Azalea.Foundation.Trie
import Azalea.Paging.Demand

namespace Azalea
open Word Trie

def KernelTable (pgd t : ℕ) : Prop := t = pgd + 0x1000 ∨ t = pgd + 0x2000 ∨ t = pgd + 0x3000

def indices : ℕ → ℕ → List ℕ
  | 0, _ => []
  | l + 1, v => v / 2 ^ (12 + 9 * l) % 512 :: indices l v

theorem length_indices (l v : ℕ) : (indices l v).length = l := by
  induction l with
  | zero => rfl
  | succ l ih => rw [indices, List.length_cons, ih]

def upper (v : ℕ) : List ℕ := [v / 2 ^ 39 % 512, v / 2 ^ 30 % 512, v / 2 ^ 21 % 512]

theorem indices_four (v : ℕ) : indices 4 v = upper v ++ [v / 2 ^ 12 % 512] := rfl

theorem upper_eq_iff {v w : ℕ} (hv : v < 2 ^ 47) (hw : w < 2 ^ 47) :
    upper w = upper v ∧ w / 2 ^ 12 % 512 = v / 2 ^ 12 % 512 ↔ w / 4096 = v / 4096 := by
  simp only [upper, List.cons.injEq, and_true]
  omega

namespace Space
variable {s s' s'' : Space} {node node' node'' : ℕ → ℕ → Prop} {d t u i j n v w : ℕ}

def child (s : Space) (t i : ℕ) : Option ℕ :=
  if 512 ≤ i ∨ t = s.pgd ∧ 256 ≤ i then none
  else if s.mem (slot t i) = 0 then none else some (clearLow 12 (s.mem (slot t i)))

theorem child_eq (hi : i < 512) (hroot : t = s.pgd → i < 256) :
    s.child t i = if s.mem (slot t i) = 0 then none else some (clearLow 12 (s.mem (slot t i))) := by
  refine if_neg ?_
  rintro (h | ⟨rfl, h⟩)
  · omega
  · exact absurd (hroot rfl) (by omega)

structure Window (s : Space) : Prop where
  root : ∀ {i}, 256 ≤ i → i < 512 → present (s.mem (slot s.pgd i)) = true →
    KernelTable s.pgd (clearLow 12 (s.mem (slot s.pgd i)))
  table : ∀ {t i}, KernelTable s.pgd t → i < 512 → present (s.mem (slot t i)) = true →
    large (s.mem (slot t i)) = true ∨ KernelTable s.pgd (clearLow 12 (s.mem (slot t i)))

structure Low (s : Space) (node : ℕ → ℕ → Prop) : Prop where
  pool : s.Pool
  window : s.Window
  shape : Shape s.child node
  root : node 4 s.pgd
  owned : ∀ {d t}, node d t → t = s.pgd ∨ ∃ x ∈ s.heap.handed, t = pa s.gMemoryStart x.address
  bits : ∀ {d t i}, node d t → i < 512 → (t = s.pgd → i < 256) → s.mem (slot t i) ≠ 0 →
    present (s.mem (slot t i)) = true ∧ large (s.mem (slot t i)) = false ∧ s.mem (slot t i) < wordSize

theorem Pool.pgd_page (h : s.Pool) : 4096 ∣ s.pgd := by
  have := h.start
  rw [pgd, configKernelPagetableAddress]
  omega

namespace Low

theorem page (h : s.Low node) (ht : node d t) : 4096 ∣ t := by
  rcases h.owned ht with rfl | ⟨x, hx, rfl⟩
  · exact h.pool.pgd_page
  · exact (h.pool.page hx).1

theorem ne_root (h : s.Low node) (ht : node d t) (hd : d ≠ 4) : t ≠ s.pgd := by
  rintro rfl
  exact hd (h.shape.level ht h.root)

theorem isOwned (h : s.Low node) (ht : node d t) : s.Owned t := by
  refine ⟨h.page ht, ?_⟩
  rcases h.owned ht with rfl | hx
  · exact .inl ⟨le_rfl, by omega⟩
  · exact .inr hx

theorem slot_outside (h : s.Low node) (ht : node d t) (hroot : t = s.pgd → i < 256) :
    slot t i < s.pgd + 0x800 ∨ s.pgd + 0x4000 ≤ slot t i := by
  rcases h.owned ht with rfl | ⟨x, hx, rfl⟩
  · have := hroot rfl
    unfold slot
    omega
  · have := (h.pool.page hx).2.1
    refine .inr ?_
    rw [slot, pgd, configKernelPagetableAddress]
    omega

theorem walkFrom_step (h : s.Low node) {l : ℕ} (ht : node (l + 1) t)
    (hroot : t = s.pgd → v / 2 ^ (12 + 9 * l) % 512 < 256) :
    walkFrom s.mem (l + 1) t v =
      (s.child t (v / 2 ^ (12 + 9 * l) % 512)).bind fun u => walkFrom s.mem l u v := by
  have hi : v / 2 ^ (12 + 9 * l) % 512 < 512 := Nat.mod_lt _ (by decide)
  rw [child_eq hi hroot]
  by_cases h0 : s.mem (slot t (v / 2 ^ (12 + 9 * l) % 512)) = 0
  · rw [if_pos h0, Tables.walkFrom_empty h0]
    rfl
  · obtain ⟨hp, hl, -⟩ := h.bits ht hi hroot h0
    rw [if_neg h0, Tables.walkFrom_child hp hl]
    rfl

theorem index_lt (h : s.Low node) (hv : v < 2 ^ 47) {l : ℕ} (ht : node (l + 1) t) :
    t = s.pgd → v / 2 ^ (12 + 9 * l) % 512 < 256 := by
  rintro rfl
  obtain rfl : l = 3 := by simpa using h.shape.level ht h.root
  omega

theorem walkFrom_lookup (h : s.Low node) (hv : v < 2 ^ 47) {l : ℕ} (ht : l ≠ 0 → node l t) :
    walkFrom s.mem l t v = (lookup s.child t (indices l v)).map (· + v % 2 ^ 12) := by
  induction l generalizing t with
  | zero => rfl
  | succ l ih =>
    have ht' := ht (Nat.succ_ne_zero l)
    rw [h.walkFrom_step ht' (h.index_lt hv ht'), indices, lookup]
    cases hu : s.child t (v / 2 ^ (12 + 9 * l) % 512) with
    | none => rfl
    | some u =>
      cases l with
      | zero => exact ih fun hl => absurd rfl hl
      | succ l => exact ih fun _ => h.shape.below ht' hu

theorem walk_lookup (h : s.Low node) (hv : v < 2 ^ 47) :
    walk s.mem s.pgd v = (lookup s.child s.pgd (indices 4 v)).map (· + v % 2 ^ 12) := by
  rw [walk_eq_walkFrom]
  exact h.walkFrom_lookup hv fun _ => h.root

end Low

namespace Window

theorem walkFrom_congr (h : s.Window) {mem : Mem}
    (hmem : ∀ a, s.pgd + 0x800 ≤ a → a < s.pgd + 0x4000 → mem a = s.mem a) {l : ℕ} (hl : l ≤ 3)
    (ht : l ≠ 0 → KernelTable s.pgd t) : walkFrom mem l t v = walkFrom s.mem l t v := by
  induction l generalizing t with
  | zero => rfl
  | succ l ih =>
    have ht' := ht (Nat.succ_ne_zero l)
    have hi : v / 2 ^ (12 + 9 * l) % 512 < 512 := Nat.mod_lt _ (by decide)
    have he : mem (slot t (v / 2 ^ (12 + 9 * l) % 512)) = s.mem (slot t (v / 2 ^ (12 + 9 * l) % 512)) := by
      unfold KernelTable at ht'
      apply hmem <;> unfold slot <;> omega
    rw [walkFrom, walkFrom, he]
    by_cases hp : present (s.mem (slot t (v / 2 ^ (12 + 9 * l) % 512))) = false
    · rw [if_pos hp, if_pos hp]
    · rw [if_neg hp, if_neg hp]
      split
      · rfl
      · next hlarge =>
        refine ih (by omega) fun hl0 => ?_
        refine (h.table ht' hi (Bool.eq_true_of_not_eq_false hp)).resolve_left fun hlarge' => ?_
        exact hlarge ⟨by omega, hlarge'⟩

theorem walk_congr (h : s.Window) {mem : Mem}
    (hmem : ∀ a, s.pgd + 0x800 ≤ a → a < s.pgd + 0x4000 → mem a = s.mem a) (hv : 256 ≤ v / 2 ^ 39 % 512) :
    walk mem s.pgd v = walk s.mem s.pgd v := by
  have hi : v / 2 ^ 39 % 512 < 512 := Nat.mod_lt _ (by decide)
  have he : mem (slot s.pgd (v / 2 ^ 39 % 512)) = s.mem (slot s.pgd (v / 2 ^ 39 % 512)) := by
    apply hmem <;> unfold slot <;> omega
  have hpdpt : ∀ mem : Mem, ∀ t, walkPdpt mem t v = walkFrom mem 3 t v := fun mem t => by
    simp [walkPdpt, walkPd, walkPt, walkFrom]
  simp only [walk, he, hpdpt]
  split
  · rfl
  · next hp => exact h.walkFrom_congr hmem le_rfl fun _ => h.root hv hi (Bool.eq_true_of_not_eq_false hp)

theorem congr (h : s.Window) (hstart : s'.gMemoryStart = s.gMemoryStart)
    (hmem : ∀ a, s.pgd + 0x800 ≤ a → a < s.pgd + 0x4000 → s'.mem a = s.mem a) : s'.Window := by
  have hpgd : s'.pgd = s.pgd := by rw [pgd, pgd, hstart]
  constructor
  · intro i hlo hi
    rw [hpgd, hmem (slot s.pgd i) (by unfold slot; omega) (by unfold slot; omega)]
    exact h.root hlo hi
  · intro t i ht hi
    rw [hpgd] at ht ⊢
    rw [hmem (slot t i) (by unfold slot; unfold KernelTable at ht; omega)
      (by unfold slot; unfold KernelTable at ht; omega)]
    exact h.table ht hi

end Window
structure Extends (s : Space) (node : ℕ → ℕ → Prop) (s' : Space) (node' : ℕ → ℕ → Prop) : Prop where
  start : s'.gMemoryStart = s.gMemoryStart
  handed : ∀ x ∈ s.heap.handed, x ∈ s'.heap.handed
  high : ∀ a, s.pgd + 0x800 ≤ a → a < s.pgd + 0x4000 → s'.mem a = s.mem a
  nodes : ∀ {d t}, node d t → node' d t
  links : ∀ {d t i u}, node d t → s.child t i = some u → s'.child t i = some u
  values : ∀ v, lookup s'.child s.pgd (indices 4 v) = lookup s.child s.pgd (indices 4 v)

namespace Extends

theorem refl (s : Space) (node : ℕ → ℕ → Prop) : s.Extends node s node :=
  ⟨rfl, fun _ hx => hx, fun _ _ _ => rfl, fun h => h, fun _ h => h, fun _ => rfl⟩

theorem pgd_eq (h : s.Extends node s' node') : s'.pgd = s.pgd := by rw [pgd, pgd, h.start]

theorem trans (h : s.Extends node s' node') (h' : s'.Extends node' s'' node'') : s.Extends node s'' node'' where
  start := h'.start.trans h.start
  handed x hx := h'.handed x (h.handed x hx)
  high a hlo hhi := (h'.high a (h.pgd_eq ▸ hlo) (h.pgd_eq ▸ hhi)).trans (h.high a hlo hhi)
  nodes ht := h'.nodes (h.nodes ht)
  links ht hu := h'.links (h.nodes ht) (h.links ht hu)
  values v := by
    have := h'.values v
    rw [h.pgd_eq] at this
    exact this.trans (h.values v)

end Extends

namespace Low

theorem child_update {e : ℕ} (hi : i < 512) (ht : 4096 ∣ t) (hu : 4096 ∣ u) (he : ¬ (u = t ∧ j = i)) :
    ({ s with mem := Function.update s.mem (slot t i) e } : Space).child u j = s.child u j := by
  have hsame : j < 512 → Function.update s.mem (slot t i) e (slot u j) = s.mem (slot u j) := fun hj =>
    Function.update_of_ne (fun hs => he (slot_page hu ht hj hi hs)) _ _
  change (if 512 ≤ j ∨ u = s.pgd ∧ 256 ≤ j then none else if Function.update s.mem (slot t i) e (slot u j) = 0 then none
    else some (clearLow 12 (Function.update s.mem (slot t i) e (slot u j)))) = s.child u j
  rw [child]
  split
  · rfl
  · rw [hsame (by omega)]

theorem update_high (h : s.Low node) {e : ℕ} (ht : node d t) (hroot : t = s.pgd → i < 256) {a : ℕ}
    (hlo : s.pgd + 0x800 ≤ a) (hhi : a < s.pgd + 0x4000) : Function.update s.mem (slot t i) e a = s.mem a := by
  have hout := h.slot_outside ht hroot
  exact Function.update_of_ne (by omega) _ _

theorem update_bits (h : s.Low node) {e : ℕ}
    (he : e ≠ 0 → present e = true ∧ large e = false ∧ e < wordSize) {c : ℕ} (hu : node c u) (hj : j < 512)
    (hroot : u = s.pgd → j < 256) (hne : Function.update s.mem (slot t i) e (slot u j) ≠ 0) :
    present (Function.update s.mem (slot t i) e (slot u j)) = true ∧
      large (Function.update s.mem (slot t i) e (slot u j)) = false ∧
      Function.update s.mem (slot t i) e (slot u j) < wordSize := by
  by_cases heq : slot u j = slot t i
  · rw [heq, Function.update_self] at hne ⊢
    exact he hne
  · rw [Function.update_of_ne heq] at hne ⊢
    exact h.bits hu hj hroot hne

theorem alloc (h : s.Low node) {mm : MM} {x : Handed} (hx : x ∉ s.heap.handed)
    (hp : Pool { s with heap := ⟨mm, x :: s.heap.handed⟩ }) :
    ({ s with
        heap := ⟨mm, x :: s.heap.handed⟩
        mem := zeroFill s.mem (pa s.gMemoryStart x.address) 4096 } : Space).Low node ∧
      s.Extends node { s with
        heap := ⟨mm, x :: s.heap.handed⟩
        mem := zeroFill s.mem (pa s.gMemoryStart x.address) 4096 } node ∧
      (∀ e, ¬ node e (pa s.gMemoryStart x.address)) ∧
      ∀ {e u j}, node e u → j < 512 →
        zeroFill s.mem (pa s.gMemoryStart x.address) 4096 (slot u j) = s.mem (slot u j) := by
  have hmem : x ∈ x :: s.heap.handed := List.mem_cons_self
  have hpage : 4096 ∣ pa s.gMemoryStart x.address := (hp.page hmem).1
  have hlow : s.gMemoryStart + 2 ^ 30 ≤ pa s.gMemoryStart x.address := (hp.page hmem).2.1
  have hown := Pool.new_not_owned hp hx
  set n := pa s.gMemoryStart x.address with hn
  have hfresh : ∀ e, ¬ node e n := fun e he => hown (h.isOwned he)
  have hslot : ∀ {e u j}, node e u → j < 512 → zeroFill s.mem n 4096 (slot u j) = s.mem (slot u j) := by
    intro e u j hu hj
    rw [zeroFill_slot hpage (h.page hu) hj, if_neg fun hun : u = n => hfresh e (hun ▸ hu)]
  have hchild : ∀ {e u j}, node e u →
      ({ s with heap := ⟨mm, x :: s.heap.handed⟩, mem := zeroFill s.mem n 4096 } : Space).child u j = s.child u j := by
    intro e u j hu
    change (if 512 ≤ j ∨ u = s.pgd ∧ 256 ≤ j then none else if zeroFill s.mem n 4096 (slot u j) = 0 then none
      else some (clearLow 12 (zeroFill s.mem n 4096 (slot u j)))) = s.child u j
    rw [child]
    split
    · rfl
    · rw [hslot hu (by omega)]
  have hhigh : ∀ a, s.pgd + 0x800 ≤ a → a < s.pgd + 0x4000 → zeroFill s.mem n 4096 a = s.mem a := by
    intro a _ hhi
    have hpgd : s.pgd = 0x200000 + s.gMemoryStart := rfl
    exact if_neg (by omega)
  refine ⟨⟨⟨hp.heap, hp.start, hp.top, hp.low, hp.aligned, hp.high, hp.fits⟩, h.window.congr rfl hhigh,
    h.shape.congr hchild, h.root, ?_, ?_⟩, ⟨rfl, fun y hy => List.mem_cons_of_mem _ hy, hhigh, fun hu => hu, ?_,
    fun v => ?_⟩, hfresh, hslot⟩
  · intro e u hu
    exact (h.owned hu).imp id fun ⟨y, hy, he⟩ => ⟨y, List.mem_cons_of_mem _ hy, he⟩
  · intro e u j hu hj hroot
    change zeroFill s.mem n 4096 (slot u j) ≠ 0 → present (zeroFill s.mem n 4096 (slot u j)) = true ∧
      large (zeroFill s.mem n 4096 (slot u j)) = false ∧ zeroFill s.mem n 4096 (slot u j) < wordSize
    rw [hslot hu hj]
    exact h.bits hu hj hroot
  · intro e u j w hu hw
    rw [hchild hu, hw]
  · refine h.shape.lookup_congr hchild ?_
    rw [length_indices]
    exact h.root

theorem link (h : s.Low node) (ht : node (d + 2) t) (hi : i < 512) (hroot : t = s.pgd → i < 256)
    (h0 : s.mem (slot t i) = 0) {x : Handed} (hx : x ∈ s.heap.handed) (hn : n = pa s.gMemoryStart x.address)
    (hfresh : ∀ e, ¬ node e n) (hzero : ∀ j < 512, s.mem (slot n j) = 0) :
    ∃ node', ({ s with mem := Function.update s.mem (slot t i) (n ||| 7) } : Space).Low node' ∧
      s.Extends node { s with mem := Function.update s.mem (slot t i) (n ||| 7) } node' ∧
      ({ s with mem := Function.update s.mem (slot t i) (n ||| 7) } : Space).child t i = some n ∧ node' (d + 1) n := by
  have hpage : 4096 ∣ n := hn ▸ (h.pool.page hx).1
  have hword : n + 4096 ≤ 2 ^ 64 := hn ▸ (h.pool.page hx).2.2
  have hentry : n ||| 7 ≠ 0 → present (n ||| 7) = true ∧ large (n ||| 7) = false ∧ n ||| 7 < wordSize := fun _ =>
    ⟨present_or (by decide), not_large_or hpage (by decide), Nat.or_lt_two_pow (by omega) (by decide)⟩
  set s' : Space := { s with mem := Function.update s.mem (slot t i) (n ||| 7) } with hs'
  have hsame : ∀ {e u j}, node e u → ¬ (u = t ∧ j = i) → s'.child u j = s.child u j :=
    fun hu he => child_update hi (h.page ht) (h.page hu) he
  have hnew : s'.child t i = some n := by
    have hval : s'.mem (slot t i) = n ||| 7 := Function.update_self _ _ _
    rw [child_eq hi fun he : t = s'.pgd => hroot he, hval, if_neg (present_ne_zero (present_or (by decide))),
      clearLow_entry hpage (by decide)]
  have hempty : ∀ j, s'.child n j = none := by
    intro j
    rw [child_update hi (h.page ht) hpage fun he => hfresh _ (he.1 ▸ ht), child]
    split
    · rfl
    · exact if_pos (hzero j (by omega))
  have hfree : s.child t i = none := by rw [child_eq hi hroot, if_pos h0]
  have hhigh : ∀ a, s.pgd + 0x800 ≤ a → a < s.pgd + 0x4000 → s'.mem a = s.mem a :=
    fun a hlo hhi => h.update_high ht hroot hlo hhi
  refine ⟨_, ⟨⟨h.pool.heap, h.pool.start, h.pool.top, h.pool.low, h.pool.aligned, h.pool.high, h.pool.fits⟩,
    h.window.congr rfl hhigh, h.shape.graft ht hfresh hnew hempty hsame, .inl h.root, ?_, ?_⟩,
    ⟨rfl, fun y hy => hy, hhigh, .inl, ?_, fun v => ?_⟩, hnew, .inr ⟨rfl, rfl⟩⟩
  · rintro e u (hu | ⟨rfl, -⟩)
    · exact h.owned hu
    · exact .inr ⟨x, hx, hn⟩
  · rintro e u j (hu | ⟨rfl, -⟩) hj huroot hne
    · exact h.update_bits hentry hu hj huroot hne
    · refine absurd ((Function.update_of_ne (fun hs => ?_) _ _).trans (hzero j hj)) hne
      exact hfresh _ ((slot_page hpage (h.page ht) hj hi hs).1 ▸ ht)
  · intro e u j w hu hw
    by_cases he : u = t ∧ j = i
    · rw [he.1, he.2, hfree] at hw
      contradiction
    · rw [hsame hu he, hw]
  · refine h.shape.graft_lookup ht hfree hnew hempty hsame ?_
    rw [length_indices]
    exact h.root

theorem grow (h : s.Low node) (ht : node (d + 2) t) (hi : i < 512) (hroot : t = s.pgd → i < 256)
    (h0 : s.mem (slot t i) = 0) {mm : MM} {x : Handed} (hx : x ∉ s.heap.handed)
    (hp : Pool { s with heap := ⟨mm, x :: s.heap.handed⟩ }) :
    ∃ node', (s.withTable ⟨mm, x :: s.heap.handed⟩ (pa s.gMemoryStart x.address) (slot t i)).Low node' ∧
      s.Extends node (s.withTable ⟨mm, x :: s.heap.handed⟩ (pa s.gMemoryStart x.address) (slot t i)) node' ∧
      (s.withTable ⟨mm, x :: s.heap.handed⟩ (pa s.gMemoryStart x.address) (slot t i)).child t i =
        some (pa s.gMemoryStart x.address) ∧ node' (d + 1) (pa s.gMemoryStart x.address) := by
  obtain ⟨hlow, hext, hfresh, hslot⟩ := h.alloc hx hp
  have hpage := (hp.page List.mem_cons_self).1
  obtain ⟨node', hlow', hext', hlink⟩ := hlow.link ht hi hroot ((hslot ht hi).trans h0) List.mem_cons_self rfl hfresh
    fun j hj => (zeroFill_slot hpage hpage hj).trans (if_pos rfl)
  exact ⟨node', hlow', hext.trans hext', hlink⟩

end Low

inductive Stepped (s : Space) (node : ℕ → ℕ → Prop) (d t i : ℕ) : Space × Option ℕ → Prop
  | refused : Stepped s node d t i (s, none)
  | reached (s' : Space) (node' : ℕ → ℕ → Prop) (n : ℕ) : s'.Low node' → s.Extends node s' node' →
      s'.child t i = some n → node' (d + 1) n → Stepped s node d t i (s', some n)

theorem Low.nextTable (h : s.Low node) (ht : node (d + 2) t) (hi : i < 512) (hroot : t = s.pgd → i < 256) :
    Stepped s node d t i (s.nextTable (slot t i)) := by
  have hfetched := h.pool.nextTable (slot t i)
  generalize s.nextTable (slot t i) = r at hfetched
  cases hfetched with
  | refused _ _ => exact .refused
  | grown mm x h0 hx hp _ _ =>
    obtain ⟨node', hlow, hext, hlink, hnode⟩ := h.grow ht hi hroot h0 hx hp
    exact .reached _ _ _ hlow hext hlink hnode
  | found h0 =>
    have hlink : s.child t i = some (clearLow 12 (s.mem (slot t i))) := by rw [child_eq hi hroot, if_neg h0]
    exact .reached _ _ _ h (.refl s node) hlink (h.shape.below ht hlink)

inductive Descended (s : Space) (node : ℕ → ℕ → Prop) (is : List ℕ) : Space × Option ℕ → Prop
  | refused (s' : Space) (node' : ℕ → ℕ → Prop) : s'.Low node' → s.Extends node s' node' →
      Descended s node is (s', none)
  | reached (s' : Space) (node' : ℕ → ℕ → Prop) (t : ℕ) : s'.Low node' → s.Extends node s' node' →
      lookup s'.child s'.pgd is = some t → Descended s node is (s', some t)

theorem Low.descend (h : s'.Low node') (hext : s.Extends node s' node') {is : List ℕ}
    (hl : lookup s'.child s'.pgd is = some t) (d : ℕ) (hd : is.length + (d + 2) = 4) (hi : i < 512) (hroot : is = [] → i < 256) :
    Descended s node (is ++ [i]) (s'.nextTable (slot t i)) := by
  have hlen : node' (is.length + (d + 1 + 1)) s'.pgd := by
    rw [hd]
    exact h.root
  have ht := h.shape.lookup_node hlen hl
  have hstep := h.nextTable ht hi fun he => hroot ?_
  · generalize s'.nextTable (slot t i) = r at hstep
    cases hstep with
    | refused => exact .refused s' node' h hext
    | reached s'' node'' n hlow hext' hlink _ =>
      refine .reached s'' node'' n hlow (hext.trans hext') ?_
      rw [lookup_concat, hext'.pgd_eq, h.shape.lookup_mono (fun hu hw => hext'.links hu hw) hlen hl]
      exact hlink
  · have := h.shape.level (he ▸ ht) h.root
    exact List.length_eq_zero_iff.mp (by omega)

def directory (s : Space) (v : ℕ) : Space × Option ℕ :=
  match s.nextTable (slot s.pgd (v / 2 ^ 39 % 512)) with
  | (s, none) => (s, none)
  | (s, some pdpt) => s.nextTable (slot pdpt (v / 2 ^ 30 % 512))

def pageTable (s : Space) (v : ℕ) : Space × Option ℕ :=
  match s.directory v with
  | (s, none) => (s, none)
  | (s, some pd) => s.nextTable (slot pd (v / 2 ^ 21 % 512))

theorem Low.directory (h : s.Low node) (hv : v < 2 ^ 47) :
    Descended s node [v / 2 ^ 39 % 512, v / 2 ^ 30 % 512] (s.directory v) := by
  have hi : ∀ k, v / 2 ^ k % 512 < 512 := fun k => Nat.mod_lt _ (by decide)
  have hroot : lookup s.child s.pgd [] = some s.pgd := rfl
  have h3 := h.descend (.refl s node) hroot 2 rfl (hi 39) fun _ => by omega
  unfold Space.directory
  generalize s.nextTable (slot s.pgd (v / 2 ^ 39 % 512)) = r3 at h3 ⊢
  cases h3 with
  | refused s' node' hlow hext => exact .refused s' node' hlow hext
  | reached s' node' pdpt hlow hext hl => exact hlow.descend hext hl 1 rfl (hi 30) (by simp)

theorem Low.pageTable (h : s.Low node) (hv : v < 2 ^ 47) : Descended s node (upper v) (s.pageTable v) := by
  have h2 := h.directory hv
  unfold Space.pageTable
  generalize s.directory v = r2 at h2 ⊢
  cases h2 with
  | refused s' node' hlow hext => exact .refused s' node' hlow hext
  | reached s' node' pd hlow hext hl => exact hlow.descend hext hl 0 rfl (Nat.mod_lt _ (by decide)) (by simp)

section Assign
variable {pt e : ℕ}

theorem Low.assign (h : s.Low node) (hv : v < 2 ^ 47) (hl : lookup s.child s.pgd (upper v) = some pt)
    (he : e ≠ 0 → present e = true ∧ large e = false ∧ e < wordSize) :
    ({ s with mem := Function.update s.mem (slot pt (v / 2 ^ 12 % 512)) e } : Space).Low node ∧
      (∀ a, s.pgd + 0x800 ≤ a → a < s.pgd + 0x4000 →
        Function.update s.mem (slot pt (v / 2 ^ 12 % 512)) e a = s.mem a) ∧
      ∀ w < 2 ^ 47, lookup ({ s with mem := Function.update s.mem (slot pt (v / 2 ^ 12 % 512)) e } : Space).child s.pgd
        (indices 4 w) = if w / 4096 = v / 4096 then if e = 0 then none else some (clearLow 12 e)
          else lookup s.child s.pgd (indices 4 w) := by
  have hi : v / 2 ^ 12 % 512 < 512 := Nat.mod_lt _ (by decide)
  have htop : node ((upper v).length + 1) s.pgd := h.root
  have hpt : node 1 pt := h.shape.lookup_node htop hl
  have hroot : pt ≠ s.pgd := h.ne_root hpt (by decide)
  set s' : Space := { s with mem := Function.update s.mem (slot pt (v / 2 ^ 12 % 512)) e } with hs'
  have hsame : ∀ {d u j}, node d u → ¬ (u = pt ∧ j = v / 2 ^ 12 % 512) → s'.child u j = s.child u j :=
    fun hu hne => child_update hi (h.page hpt) (h.page hu) hne
  have hself : s'.child pt (v / 2 ^ 12 % 512) = if e = 0 then none else some (clearLow 12 e) := by
    have hval : s'.mem (slot pt (v / 2 ^ 12 % 512)) = e := Function.update_self _ _ _
    rw [child_eq hi fun he : pt = s'.pgd => absurd he hroot, hval]
  have hhigh : ∀ a, s.pgd + 0x800 ≤ a → a < s.pgd + 0x4000 → s'.mem a = s.mem a :=
    fun a hlo hhi => h.update_high hpt (fun he => absurd he hroot) hlo hhi
  refine ⟨⟨⟨h.pool.heap, h.pool.start, h.pool.top, h.pool.low, h.pool.aligned, h.pool.high, h.pool.fits⟩,
    h.window.congr rfl hhigh, h.shape.assign hpt hsame, h.root, h.owned, ?_⟩, hhigh, ?_⟩
  · intro d u j hu hj huroot hne
    exact h.update_bits he hu hj huroot hne
  · intro w hw
    rw [indices_four]
    by_cases heq : w / 4096 = v / 4096
    · obtain ⟨hup, hlast⟩ := (upper_eq_iff hv hw).mpr heq
      rw [if_pos heq, hup, hlast, h.shape.assign_self htop hl hsame, hself]
    · rw [if_neg heq]
      exact h.shape.assign_lookup htop hl hsame rfl fun hsame' => heq ((upper_eq_iff hv hw).mp hsame')

end Assign
end Space
end Azalea
