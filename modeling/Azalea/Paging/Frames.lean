import Azalea.Paging.LowHalf

namespace Azalea
open Word Trie

instance (v : ℕ) : Decidable (Canonical v) := inferInstanceAs (Decidable (_ ∨ _))

theorem walkFrom_page (mem : Mem) (l t v : ℕ) :
    walkFrom mem l t v = (walkFrom mem l t (4096 * (v / 4096))).map (· + v % 4096) := by
  induction l generalizing t with
  | zero =>
    have h0 : 4096 * (v / 4096) % 2 ^ 12 = 0 := by omega
    rw [walkFrom, walkFrom, h0]
    rfl
  | succ l ih =>
    have hdiv : 4096 * (v / 4096) / 2 ^ (12 + 9 * l) = v / 2 ^ (12 + 9 * l) := by
      rw [pow_add, ← Nat.div_div_eq_div_mul, ← Nat.div_div_eq_div_mul, show (2 : ℕ) ^ 12 = 4096 by decide,
        Nat.mul_div_cancel_left _ (by decide)]
    have hmod : v % 2 ^ (12 + 9 * l) = 4096 * (v / 4096) % 2 ^ (12 + 9 * l) + v % 4096 := by
      have h1 := Nat.div_add_mod v (2 ^ (12 + 9 * l))
      have h2 := Nat.div_add_mod (4096 * (v / 4096)) (2 ^ (12 + 9 * l))
      rw [hdiv] at h2
      omega
    rw [walkFrom, walkFrom, hdiv]
    by_cases hp : present (mem (slot t (v / 2 ^ (12 + 9 * l) % 512))) = false
    · rw [if_pos hp, if_pos hp]
      rfl
    rw [if_neg hp, if_neg hp]
    split
    · rw [Option.map_some, hmod, Nat.add_assoc]
    · exact ih _

namespace Space
variable {s s' : Space} {node node' : ℕ → ℕ → Prop} {n v p : ℕ}

def frames (s : Space) (n : ℕ) : Option ℕ :=
  if Canonical (4096 * n) then walk s.mem s.pgd (4096 * n) else none

theorem walk_frames (hv : Canonical v) : walk s.mem s.pgd v = (s.frames (v / 4096)).map (· + v % 4096) := by
  have hpage : Canonical (4096 * (v / 4096)) := by
    unfold Canonical at hv ⊢
    simp only [configHighHalfLimit, wordSize] at hv ⊢
    omega
  rw [frames, if_pos hpage, walk_eq_walkFrom, walk_eq_walkFrom]
  exact walkFrom_page s.mem 4 s.pgd v

theorem Low.frames_low (h : s.Low node) (hn : 4096 * n < 2 ^ 47) :
    s.frames n = lookup s.child s.pgd (indices 4 (4096 * n)) := by
  have h0 : 4096 * n % 2 ^ 12 = 0 := by omega
  rw [frames, if_pos (.inl hn), h.walk_lookup hn, h0]
  simp

theorem Low.frames_high (h : s.Low node) (hstart : s'.gMemoryStart = s.gMemoryStart)
    (hmem : ∀ a, s.pgd + 0x800 ≤ a → a < s.pgd + 0x4000 → s'.mem a = s.mem a) (hn : ¬ 4096 * n < 2 ^ 47) :
    s'.frames n = s.frames n := by
  rw [frames, frames]
  by_cases hc : Canonical (4096 * n)
  · have hhigh := hc.resolve_left hn
    have hpgd : s'.pgd = s.pgd := by rw [pgd, pgd, hstart]
    rw [if_pos hc, if_pos hc, hpgd]
    refine h.window.walk_congr hmem ?_
    simp only [configHighHalfLimit, wordSize] at hhigh
    omega
  · rw [if_neg hc, if_neg hc]

theorem Extends.frames (h : s.Low node) (h' : s'.Low node') (hext : s.Extends node s' node') : s'.frames = s.frames := by
  funext n
  by_cases hn : 4096 * n < 2 ^ 47
  · rw [h.frames_low hn, h'.frames_low hn, hext.pgd_eq, hext.values]
  · exact h.frames_high hext.start hext.high hn

theorem Low.assign_frames (h : s.Low node) (hv : v < 2 ^ 47) {pt e : ℕ}
    (hl : lookup s.child s.pgd (upper v) = some pt)
    (he : e ≠ 0 → present e = true ∧ large e = false ∧ e < wordSize) :
    ({ s with mem := Function.update s.mem (slot pt (v / 2 ^ 12 % 512)) e } : Space).Low node ∧
      ({ s with mem := Function.update s.mem (slot pt (v / 2 ^ 12 % 512)) e } : Space).frames =
        Function.update s.frames (v / 4096) (if e = 0 then none else some (clearLow 12 e)) := by
  obtain ⟨hlow, hhigh, hvalues⟩ := h.assign hv hl he
  refine ⟨hlow, funext fun n => ?_⟩
  by_cases hn : 4096 * n < 2 ^ 47
  · have hdiv : 4096 * n / 4096 = n := Nat.mul_div_cancel_left n (by decide)
    have hvalue := hvalues (4096 * n) hn
    rw [hdiv] at hvalue
    rw [hlow.frames_low hn]
    refine hvalue.trans ?_
    by_cases heq : n = v / 4096
    · rw [if_pos heq, heq, Function.update_self]
    · rw [if_neg heq, Function.update_of_ne heq, h.frames_low hn]
  · rw [Function.update_of_ne (by omega)]
    exact h.frames_high rfl hhigh hn

theorem lkMap_eq (s : Space) (v p cache : ℕ) : s.lkMap v p pageSize4K cache =
    match s.pageTable v with
    | (s, none) => (s, false)
    | (s, some pt) => (s.setEntry (slot pt (v / 2 ^ 12 % 512)) p
        ((if cache = 0 then pageFlagsDefault else pageFlagsNocache) ||| pageFlagsUS), true) := by
  unfold lkMap pageTable directory
  rw [pml4Index_eq, pdptIndex_eq, pdeIndex_eq, pteIndex_eq]
  generalize s.nextTable (slot s.pgd (v / 2 ^ 39 % 512)) = r3
  obtain ⟨s3, _ | pdpt⟩ := r3
  · rfl
  dsimp only
  generalize s3.nextTable (slot pdpt (v / 2 ^ 30 % 512)) = r2
  obtain ⟨s2, _ | pd⟩ := r2
  · rfl
  dsimp only
  generalize s2.nextTable (slot pd (v / 2 ^ 21 % 512)) = r1
  obtain ⟨s1, _ | pt⟩ := r1
  · rfl
  · dsimp only
    rw [if_pos rfl]

theorem Low.lkMap_frames (h : s.Low node) (hv : v < 2 ^ 47) (hp : 4096 ∣ p) (hw : p < wordSize) (cache : ℕ) :
    ∃ node', (s.lkMap v p pageSize4K cache).1.Low node' ∧ (s.lkMap v p pageSize4K cache).1.frames =
      if (s.lkMap v p pageSize4K cache).2 = true then Function.update s.frames (v / 4096) (some p) else s.frames := by
  have hpath := h.pageTable hv
  rw [lkMap_eq]
  generalize s.pageTable v = r at hpath
  cases hpath with
  | refused s' node' hlow hext => exact ⟨node', hlow, (hext.frames h hlow).trans (if_neg Bool.false_ne_true).symm⟩
  | reached s' node' pt hlow hext hl =>
    have hflags : ∀ f, f = pageFlagsDefault ∨ f = pageFlagsNocache → f ||| pageFlagsUS < 2 ^ 12 ∧
        (f ||| pageFlagsUS).testBit 0 = true ∧ (f ||| pageFlagsUS).testBit 7 = false := by
      rintro f (rfl | rfl) <;> decide
    obtain ⟨hf, h0, h7⟩ := hflags (if cache = 0 then pageFlagsDefault else pageFlagsNocache) (by split <;> simp)
    generalize (if cache = 0 then pageFlagsDefault else pageFlagsNocache) ||| pageFlagsUS = f at hf h0 h7 ⊢
    have hpresent : present (p ||| f) = true := present_or h0
    have hentry : p ||| f ≠ 0 → present (p ||| f) = true ∧ large (p ||| f) = false ∧ p ||| f < wordSize := fun _ =>
      ⟨hpresent, not_large_or hp h7, Nat.or_lt_two_pow hw (hf.trans (by decide))⟩
    obtain ⟨hlow', hframes⟩ := hlow.assign_frames hv hl hentry
    refine ⟨node', hlow', ?_⟩
    dsimp only
    rw [if_pos rfl, ← hext.frames h hlow]
    refine hframes.trans ?_
    rw [if_neg (present_ne_zero hpresent), clearLow_entry hp hf]

theorem Low.lookup_of_frames (h : s.Low node) (hv : v < 2 ^ 47) : s.frames (v / 4096) =
    (lookup s.child s.pgd (upper v)).bind fun pt => s.child pt (v / 2 ^ 12 % 512) := by
  have hlow : 4096 * (v / 4096) < 2 ^ 47 := by omega
  have hsame := (upper_eq_iff hv hlow).mpr (Nat.mul_div_cancel_left _ (by decide))
  rw [h.frames_low hlow, indices_four, hsame.1, hsame.2, lookup_concat]

structure Path (s : Space) (node : ℕ → ℕ → Prop) (v pdpt pd pt : ℕ) : Prop where
  link3 : s.mem (slot s.pgd (v / 2 ^ 39 % 512)) ≠ 0 ∧ clearLow 12 (s.mem (slot s.pgd (v / 2 ^ 39 % 512))) = pdpt
  link2 : s.mem (slot pdpt (v / 2 ^ 30 % 512)) ≠ 0 ∧ clearLow 12 (s.mem (slot pdpt (v / 2 ^ 30 % 512))) = pd
  link1 : s.mem (slot pd (v / 2 ^ 21 % 512)) ≠ 0 ∧ clearLow 12 (s.mem (slot pd (v / 2 ^ 21 % 512))) = pt
  small : large (s.mem (slot pd (v / 2 ^ 21 % 512))) = false
  node : node 1 pt

theorem child_some {t i u : ℕ} (h : s.child t i = some u) :
    s.mem (slot t i) ≠ 0 ∧ clearLow 12 (s.mem (slot t i)) = u := by
  rw [child] at h
  split at h
  · contradiction
  · split at h
    · contradiction
    · next hne => exact ⟨hne, Option.some.inj h⟩

theorem Low.path (h : s.Low node) {pt : ℕ} (hl : lookup s.child s.pgd (upper v) = some pt) :
    ∃ pdpt pd, s.Path node v pdpt pd pt := by
  have hi : ∀ k, v / 2 ^ k % 512 < 512 := fun k => Nat.mod_lt _ (by decide)
  have htop : node ((upper v).length + 1) s.pgd := h.root
  have hpt : node 1 pt := h.shape.lookup_node htop hl
  obtain ⟨pdpt, h3, hl⟩ := lookup_cons.mp hl
  obtain ⟨pd, h2, hl⟩ := lookup_cons.mp hl
  obtain ⟨pt', h1, hl⟩ := lookup_cons.mp hl
  cases hl
  have hnode3 := h.shape.below h.root h3
  have hnode2 := h.shape.below hnode3 h2
  have hlink1 := child_some h1
  refine ⟨pdpt, pd, child_some h3, child_some h2, hlink1, ?_, hpt⟩
  exact (h.bits hnode2 (hi 21) (fun he => absurd he (h.ne_root hnode2 (by decide))) hlink1.1).2.1

theorem Low.lkUnmap_frames (h : s.Low node) (hv : v < 2 ^ 47) (hm : s.frames (v / 4096) ≠ none) :
    (s.lkUnmap v).1.Low node ∧ (s.lkUnmap v).1.frames = Function.update s.frames (v / 4096) none ∧
      (s.lkUnmap v).2 = true := by
  rw [h.lookup_of_frames hv] at hm
  obtain ⟨pt, hl⟩ : ∃ pt, lookup s.child s.pgd (upper v) = some pt := by
    cases hl : lookup s.child s.pgd (upper v) with
    | none => exact absurd (by rw [hl]; rfl) hm
    | some pt => exact ⟨pt, rfl⟩
  obtain ⟨pdpt, pd, hpath⟩ := h.path hl
  have he : s.lkUnmap v = ({ s with mem := Function.update s.mem (slot pt (v / 2 ^ 12 % 512)) 0 }, true) := by
    unfold lkUnmap
    rw [pml4Index_eq, pdptIndex_eq, pdeIndex_eq, pteIndex_eq]
    dsimp only
    rw [hpath.link3.2, hpath.link2.2, hpath.small, hpath.link1.2]
    rfl
  obtain ⟨hlow, hframes⟩ := h.assign_frames hv hl (fun hz : (0 : ℕ) ≠ 0 => absurd rfl hz)
  rw [he]
  exact ⟨hlow, hframes, rfl⟩

theorem Low.getPa_eq (h : s.Low node) (h0 : v ≠ 0) (hv : v < 2 ^ 47) : s.getPa v =
    match s.pageTable v with
    | (s, none) => (s, 0)
    | (s, some pt) =>
      match s.nextTable (slot pt (v / 2 ^ 12 % 512)) with
      | (s, none) => (s, 0)
      | (s, some page) => (s, (page + v % 2 ^ 12) % wordSize) := by
  have hdir := h.directory hv
  have hlow : ¬ configHighHalfLimit < v := by
    simp only [configHighHalfLimit]
    omega
  unfold getPa Space.pageTable
  rw [if_neg h0, if_neg hlow, pml4Index_eq, pdptIndex_eq, pdeIndex_eq, pteIndex_eq]
  unfold Space.directory at hdir ⊢
  generalize s.nextTable (slot s.pgd (v / 2 ^ 39 % 512)) = r3 at hdir ⊢
  obtain ⟨s3, _ | pdpt⟩ := r3
  · rfl
  dsimp only at hdir ⊢
  generalize s3.nextTable (slot pdpt (v / 2 ^ 30 % 512)) = r2 at hdir ⊢
  cases hdir with
  | refused => rfl
  | reached s2 node2 pd hlow2 _ hl =>
    have htop : node2 ([v / 2 ^ 39 % 512, v / 2 ^ 30 % 512].length + (1 + 1)) s2.pgd := hlow2.root
    have hpd : node2 2 pd := hlow2.shape.lookup_node htop hl
    have hsmall : ¬ (s2.mem (slot pd (v / 2 ^ 21 % 512)) ≠ 0 ∧ large (s2.mem (slot pd (v / 2 ^ 21 % 512))) = true) := by
      rintro ⟨hne, hlarge⟩
      have hbits := hlow2.bits hpd (Nat.mod_lt _ (by decide)) (fun he => absurd he (hlow2.ne_root hpd (by decide))) hne
      exact absurd (hbits.2.1.symm.trans hlarge) (by decide)
    dsimp only
    refine (if_neg hsmall).trans ?_
    generalize s2.nextTable (slot pd (v / 2 ^ 21 % 512)) = r1
    obtain ⟨s1, _ | pt⟩ := r1 <;> rfl

theorem pageTable_filled {pdpt pd pt : ℕ} (h : s.Path node v pdpt pd pt) : s.pageTable v = (s, some pt) := by
  unfold pageTable directory
  rw [nextTable_filled h.link3.1, h.link3.2]
  dsimp only
  rw [nextTable_filled h.link2.1, h.link2.2]
  dsimp only
  rw [nextTable_filled h.link1.1, h.link1.2]

theorem Low.getPa_frames (h : s.Low node) (h0 : v ≠ 0) (hv : v < 2 ^ 47) (hm : s.frames (v / 4096) = some p) :
    s.getPa v = (s, p + v % 4096) := by
  rw [h.lookup_of_frames hv] at hm
  obtain ⟨pt, hl, hc⟩ := Option.bind_eq_some_iff.mp hm
  obtain ⟨pdpt, pd, hpath⟩ := h.path hl
  obtain ⟨hne, rfl⟩ := child_some hc
  have hroot := h.ne_root hpath.node (by decide)
  have hword := (h.bits hpath.node (Nat.mod_lt _ (by decide)) (fun he => absurd he hroot) hne).2.2
  rw [h.getPa_eq h0 hv, pageTable_filled hpath]
  dsimp only
  rw [nextTable_filled hne]
  dsimp only
  have hdvd := clearLow_dvd 12 (s.mem (slot pt (v / 2 ^ 12 % 512)))
  have hle := clearLow_le 12 (s.mem (slot pt (v / 2 ^ 12 % 512)))
  simp only [wordSize] at hword ⊢
  rw [Nat.mod_eq_of_lt (by omega)]
  rfl

theorem Low.fill (h : s.Low node) (hv : v < 2 ^ 47) {pt : ℕ} (hl : lookup s.child s.pgd (upper v) = some pt)
    {mm : MM} {x : Handed} (hx : x ∉ s.heap.handed) (hp : Pool { s with heap := ⟨mm, x :: s.heap.handed⟩ })
    (hf : pa s.gMemoryStart x.address = p) :
    (s.withTable ⟨mm, x :: s.heap.handed⟩ p (slot pt (v / 2 ^ 12 % 512))).Low node ∧
      (s.withTable ⟨mm, x :: s.heap.handed⟩ p (slot pt (v / 2 ^ 12 % 512))).frames =
        Function.update s.frames (v / 4096) (some p) ∧
      ∀ a, p ≤ a → a < p + 4096 →
        (s.withTable ⟨mm, x :: s.heap.handed⟩ p (slot pt (v / 2 ^ 12 % 512))).mem a = 0 := by
  subst hf
  obtain ⟨hlow, hext, hfresh, -⟩ := h.alloc hx hp
  obtain ⟨hpage, -, hword⟩ := hp.page List.mem_cons_self
  have htop : node ((upper v).length + 1) s.pgd := h.root
  have hpt : node 1 pt := h.shape.lookup_node htop hl
  have hl' := h.shape.lookup_mono (fun hu hw => hext.links hu hw) htop hl
  have hpresent : present (pa s.gMemoryStart x.address ||| 7) = true := present_or (by decide)
  have hframes := hlow.assign_frames hv hl' fun _ => ⟨hpresent, not_large_or hpage (by decide),
    Nat.or_lt_two_pow (by simp only [wordSize] at hword; omega) (by decide)⟩
  refine ⟨hframes.1, hframes.2.trans ?_, fun a hlo hhi => ?_⟩
  · rw [if_neg (present_ne_zero hpresent), clearLow_entry hpage (by decide), hext.frames h hlow]
  · have hne : a ≠ slot pt (v / 2 ^ 12 % 512) := by
      have hptp := h.page hpt
      have hi : v / 2 ^ 12 % 512 < 512 := Nat.mod_lt _ (by decide)
      change 4096 ∣ pa s.gMemoryStart x.address at hpage
      intro he
      refine hfresh 1 ((?_ : pt = pa s.gMemoryStart x.address) ▸ hpt)
      unfold slot at he
      omega
    exact (Function.update_of_ne hne _ _).trans (if_pos ⟨hlo, hhi⟩)

inductive Backed (s : Space) (v : ℕ) : Space × ℕ → Prop
  | refused (s' : Space) : s'.frames = s.frames → Backed s v (s', 0)
  | filled (s' : Space) (x : Handed) (f : ℕ) : x ∉ s.heap.handed → x ∈ s'.heap.handed →
      f = pa s.gMemoryStart x.address → s'.frames = Function.update s.frames (v / 4096) (some f) →
      (∀ a, f ≤ a → a < f + 4096 → s'.mem a = 0) → Backed s v (s', f + v % 4096)

theorem Low.getPa_unmapped (h : s.Low node) (h0 : v ≠ 0) (hv : v < 2 ^ 47) (hm : s.frames (v / 4096) = none) :
    (∃ node', (s.getPa v).1.Low node') ∧ Backed s v (s.getPa v) := by
  have hpath := h.pageTable hv
  rw [h.getPa_eq h0 hv]
  generalize s.pageTable v = r at hpath
  cases hpath with
  | refused s' node' hlow hext => exact ⟨⟨node', hlow⟩, .refused s' (hext.frames h hlow)⟩
  | reached s' node' pt hlow hext hl =>
    have hi : v / 2 ^ 12 % 512 < 512 := Nat.mod_lt _ (by decide)
    have htop : node' ((upper v).length + 1) s'.pgd := hlow.root
    have hroot := hlow.ne_root (hlow.shape.lookup_node htop hl) (by decide)
    have hframes := hext.frames h hlow
    have hempty : s'.mem (slot pt (v / 2 ^ 12 % 512)) = 0 := by
      rw [← hframes, hlow.lookup_of_frames hv, hl] at hm
      by_contra hne
      have hc : s'.child pt (v / 2 ^ 12 % 512) = none := hm
      rw [child_eq hi (fun he => absurd he hroot), if_neg hne] at hc
      contradiction
    have halloc := azAlloc_page hlow.pool
    dsimp only
    rw [Space.nextTable, if_pos hempty]
    generalize s'.azAlloc pageSize4K = r at halloc
    cases halloc with
    | refused _ => exact ⟨⟨node', hlow⟩, .refused s' hframes⟩
    | granted mm x hne hx hp _ _ =>
      obtain ⟨hpage, -, hword⟩ := hp.page List.mem_cons_self
      obtain ⟨hlow', hframes', hzero⟩ := hlow.fill hv hl hx hp rfl
      change 4096 ∣ pa s'.gMemoryStart x.address at hpage
      change pa s'.gMemoryStart x.address + 4096 ≤ wordSize at hword
      have hvalue : (clearLow 12 (newTable s'.mem (pa s'.gMemoryStart x.address) (slot pt (v / 2 ^ 12 % 512))
          (slot pt (v / 2 ^ 12 % 512))) + v % 2 ^ 12) % wordSize = pa s'.gMemoryStart x.address + v % 4096 := by
        rw [newTable, Function.update_self, clearLow_entry hpage (by decide)]
        exact Nat.mod_eq_of_lt (by omega)
      dsimp only
      rw [if_neg hne]
      refine ⟨⟨node', hlow'⟩, ?_⟩
      change Backed s v (_, (clearLow 12 (newTable s'.mem (pa s'.gMemoryStart x.address) (slot pt (v / 2 ^ 12 % 512))
          (slot pt (v / 2 ^ 12 % 512))) + v % 2 ^ 12) % wordSize)
      rw [hvalue]
      refine .filled _ x _ (fun hin => hx (hext.handed x hin)) List.mem_cons_self ?_ ?_ hzero
      · rw [hext.start]
      · exact hframes'.trans (by rw [hframes])

inductive PageCall where
  | map (v p cache : ℕ)
  | unmap (v : ℕ)
  | getPa (v : ℕ)
deriving DecidableEq, Repr

def pageCall (s : Space) : PageCall → Space
  | .map v p cache => (s.lkMap v p pageSize4K cache).1
  | .unmap v => (s.lkUnmap v).1
  | .getPa v => (s.getPa v).1

def PageLegal (s : Space) : PageCall → Prop
  | .map v p _ => 0 < v ∧ v < 2 ^ 47 ∧ 4096 ∣ p ∧ p < wordSize
  | .unmap v => 0 < v ∧ v < 2 ^ 47 ∧ walk s.mem s.pgd v ≠ none
  | .getPa v => 0 < v ∧ v < 2 ^ 47

def PageStep (s s' : Space) : Prop := ∃ c, s.PageLegal c ∧ s' = s.pageCall c

theorem frames_ne_none (hv : v < 2 ^ 47) (hw : walk s.mem s.pgd v ≠ none) : s.frames (v / 4096) ≠ none := by
  rw [walk_frames (.inl hv)] at hw
  intro hn
  exact hw (by rw [hn]; rfl)

theorem Low.step {c : PageCall} (h : s.Low node) (hl : s.PageLegal c) : ∃ node', (s.pageCall c).Low node' := by
  cases c with
  | map v p cache =>
    obtain ⟨-, hv, hp, hw⟩ := hl
    obtain ⟨node', hlow, -⟩ := h.lkMap_frames hv hp hw cache
    exact ⟨node', hlow⟩
  | unmap v =>
    obtain ⟨-, hv, hm⟩ := hl
    exact ⟨node, (h.lkUnmap_frames hv (frames_ne_none hv hm)).1⟩
  | getPa v =>
    obtain ⟨h0, hv⟩ := hl
    cases hm : s.frames (v / 4096) with
    | none => exact (h.getPa_unmapped (by omega) hv hm).1
    | some p =>
      refine ⟨node, ?_⟩
      rw [pageCall, h.getPa_frames (by omega) hv hm]
      exact h

theorem Low.azAlloc (h : s.Low node) : (s.azAlloc pageSize4K).1.Low node := by
  have halloc := azAlloc_page h.pool
  generalize s.azAlloc pageSize4K = r at halloc
  cases halloc with
  | refused => exact h
  | granted mm x _ hx hp _ _ => exact (h.alloc hx hp).1

def SameMemory (s s' : Space) : Prop := s'.gMemoryStart = s.gMemoryStart ∧ s'.gSharedMemory = s.gSharedMemory

theorem SameMemory.trans {s'' : Space} (h : s.SameMemory s') (h' : s'.SameMemory s'') : s.SameMemory s'' :=
  ⟨h'.1.trans h.1, h'.2.trans h.2⟩

theorem nextTable_sameMemory (s : Space) (entry : ℕ) : s.SameMemory (s.nextTable entry).1 := by
  unfold nextTable
  split
  · dsimp only
    split <;> exact ⟨rfl, rfl⟩
  · exact ⟨rfl, rfl⟩

theorem pageTable_sameMemory (s : Space) (v : ℕ) : s.SameMemory (s.pageTable v).1 := by
  unfold pageTable directory
  have h3 := s.nextTable_sameMemory (slot s.pgd (v / 2 ^ 39 % 512))
  generalize s.nextTable (slot s.pgd (v / 2 ^ 39 % 512)) = r3 at h3
  obtain ⟨s3, _ | pdpt⟩ := r3
  · exact h3
  have h2 := s3.nextTable_sameMemory (slot pdpt (v / 2 ^ 30 % 512))
  dsimp only
  generalize s3.nextTable (slot pdpt (v / 2 ^ 30 % 512)) = r2 at h2
  obtain ⟨s2, _ | pd⟩ := r2
  · exact h3.trans h2
  · exact (h3.trans h2).trans (s2.nextTable_sameMemory _)

theorem Low.pageCall_sameMemory {c : PageCall} (h : s.Low node) (hl : s.PageLegal c) : s.SameMemory (s.pageCall c) := by
  cases c with
  | map v p cache =>
    have hpath := s.pageTable_sameMemory v
    rw [pageCall, lkMap_eq]
    generalize s.pageTable v = r at hpath
    obtain ⟨s', _ | pt⟩ := r <;> exact hpath
  | unmap v =>
    rw [pageCall, lkUnmap]
    dsimp only
    split <;> exact ⟨rfl, rfl⟩
  | getPa v =>
    have hpath := s.pageTable_sameMemory v
    rw [pageCall, h.getPa_eq (Nat.pos_iff_ne_zero.mp hl.1) hl.2]
    generalize s.pageTable v = r at hpath
    obtain ⟨s', _ | pt⟩ := r
    · exact hpath
    have hlast := s'.nextTable_sameMemory (slot pt (v / 2 ^ 12 % 512))
    dsimp only
    generalize s'.nextTable (slot pt (v / 2 ^ 12 % 512)) = r at hlast
    obtain ⟨s'', _ | page⟩ := r <;> exact hpath.trans hlast

structure FrameMap (s : Space) : Prop where
  walk : ∀ v, Canonical v → walk s.mem s.pgd v = (s.frames (v / 4096)).map (· + v % 4096)
  map : ∀ v p cache, s.PageLegal (.map v p cache) → (s.lkMap v p pageSize4K cache).1.frames =
    if (s.lkMap v p pageSize4K cache).2 = true then Function.update s.frames (v / 4096) (some p) else s.frames
  unmap : ∀ v, s.PageLegal (.unmap v) → (s.lkUnmap v).1.frames = Function.update s.frames (v / 4096) none
  mapped : ∀ v, s.PageLegal (.getPa v) → ∀ f, s.frames (v / 4096) = some f →
    (s.getPa v).2 = f + v % 4096 ∧ (s.getPa v).1.frames = s.frames
  unmapped : ∀ v, s.PageLegal (.getPa v) → s.frames (v / 4096) = none → s.Backed v (s.getPa v)

theorem Low.frameMap (h : s.Low node) : s.FrameMap where
  walk _ hv := walk_frames hv
  map v p cache hl := by
    obtain ⟨-, hv, hp, hw⟩ := hl
    obtain ⟨-, -, hframes⟩ := h.lkMap_frames hv hp hw cache
    exact hframes
  unmap v hl := (h.lkUnmap_frames hl.2.1 (frames_ne_none hl.2.1 hl.2.2)).2.1
  mapped v hl f hm := by
    rw [h.getPa_frames (Nat.pos_iff_ne_zero.mp hl.1) hl.2 hm]
    exact ⟨rfl, rfl⟩
  unmapped v hl hm := (h.getPa_unmapped (Nat.pos_iff_ne_zero.mp hl.1) hl.2 hm).2

section Boot
variable {prior : ℕ → BITMAP} {priorIndex : ℤ → BYTE} {mem : Mem} {gMemoryStart gMemoryEnd gSharedMemory : ℕ}
  (hs : 2 ^ 30 ∣ gMemoryStart) (he : 2 ^ 30 ∣ gMemoryEnd) (hlt : gMemoryStart < gMemoryEnd)
  (hend : gMemoryEnd < wordSize) (hG : gMemoryEnd - gMemoryStart ≤ 508 * pageSize1G)
include hs he hlt hend hG

theorem boot_window {b : Space} (hstart : b.gMemoryStart = gMemoryStart)
    (hmem : b.mem = bootTables mem gMemoryStart gMemoryEnd gSharedMemory) : b.Window := by
  have hT : Tables (configKernelPagetableAddress gMemoryStart) (fun t => 4096 ∣ t)
      (bootTables mem gMemoryStart gMemoryEnd gSharedMemory)
      (Machine.bootLevel (configKernelPagetableAddress gMemoryStart)) :=
    Machine.bootTables_tables hs he hlt hend hG (fun _ h => h) fun k _ => pagetableAddress_dvd hs k
  have hpgd : b.pgd = configKernelPagetableAddress gMemoryStart := by rw [pgd, hstart]
  constructor
  · intro i _ hi hp
    rw [hmem, hpgd, Machine.bootTables_root hi] at hp
    rw [hmem, hpgd, Machine.bootTables_root hi]
    split at hp
    · next h256 =>
      rw [if_pos h256, clearLow_entry (pagetableAddress_dvd hs 1) (by decide)]
      exact .inl rfl
    · exact absurd hp (by decide)
  · intro t i ht hi hp
    rw [hpgd] at ht
    rw [hmem] at hp
    rw [hmem, hpgd]
    generalize configKernelPagetableAddress gMemoryStart = root at hT ht
    have hlevel : Machine.bootLevel root t = 3 ∨ Machine.bootLevel root t = 2 := by
      rcases ht with rfl | rfl | rfl
      · exact .inl (Machine.bootLevel_pdpt root)
      · exact .inr (Machine.bootLevel_pd (k := 2) (.inl rfl))
      · exact .inr (Machine.bootLevel_pd (k := 3) (.inr rfl))
    rcases hT.entry t i hi (by omega) with h0 | ⟨-, ⟨hl, -⟩ | ⟨hchild, -⟩⟩
    · exact absurd h0 (present_ne_zero hp)
    · exact .inl hl
    · refine .inr ((Machine.bootLevel_cases (by omega)).resolve_left fun hroot => ?_)
      rw [hroot, Machine.bootLevel_root] at hchild
      omega

theorem low_of_boot {b : Space} (hpool : b.Pool) (hstart : b.gMemoryStart = gMemoryStart)
    (hmem : b.mem = bootTables mem gMemoryStart gMemoryEnd gSharedMemory) : ∃ node, b.Low node := by
  have hzero : ∀ {i}, i < 256 → b.mem (slot b.pgd i) = 0 := by
    intro i hi
    rw [hmem, pgd, hstart, Machine.bootTables_root (by omega), if_neg (by omega)]
  have hempty : ∀ {i u}, b.child b.pgd i ≠ some u := by
    intro i u hc
    obtain ⟨hne, -⟩ := child_some hc
    rw [child] at hc
    split at hc
    · contradiction
    · exact hne (hzero (by omega))
  refine ⟨fun d t => d = 4 ∧ t = b.pgd, hpool, boot_window hs he hlt hend hG hstart hmem, ⟨?_, ?_, ?_⟩, ⟨rfl, rfl⟩, ?_, ?_⟩
  · rintro d e t ⟨rfl, -⟩ ⟨rfl, -⟩
    rfl
  · rintro d t i u ⟨-, rfl⟩ hc
    exact absurd hc hempty
  · rintro d e t t' i i' u ⟨-, rfl⟩ - hc
    exact absurd hc hempty
  · rintro d t ⟨-, rfl⟩
    exact .inl rfl
  · rintro d t i ⟨-, rfl⟩ - hroot hne
    exact absurd (hzero (hroot rfl)) hne

theorem boot_low : ∃ node, (Machine.boot prior priorIndex mem gMemoryStart gMemoryEnd gSharedMemory).space.Low node := by
  obtain ⟨level, hvalid, -⟩ : (Machine.boot prior priorIndex mem gMemoryStart gMemoryEnd gSharedMemory).Valid :=
    Machine.boot_valid hs he hlt hend hG
  exact low_of_boot hs he hlt hend hG hvalid.pool rfl rfl

theorem boot_run_frameMap (hr : Relation.ReflTransGen PageStep
    (Machine.boot prior priorIndex mem gMemoryStart gMemoryEnd gSharedMemory).space s) : s.FrameMap := by
  have hrun : ∃ node, s.Low node := by
    refine @Run.invariant Space PageStep (fun s => ∃ node, s.Low node) _ _ ?_ (boot_low hs he hlt hend hG) hr
    rintro a _ ⟨node, hlow⟩ ⟨c, hl, rfl⟩
    exact hlow.step hl
  obtain ⟨node, hlow⟩ := hrun
  exact hlow.frameMap

end Boot
theorem knl_map_getPa_frameMap :
    ((Machine.knl.space.pageCall (.map 0x40000000 0x5000 0)).pageCall (.getPa 0x40001234)).FrameMap :=
  boot_run_frameMap (Nat.dvd_mul_left _ _) (Nat.dvd_mul_left _ _) (by decide) (by decide) (by decide)
    ((Relation.ReflTransGen.single ⟨.map 0x40000000 0x5000 0, by unfold PageLegal; decide, rfl⟩).tail
      ⟨.getPa 0x40001234, by unfold PageLegal; decide, rfl⟩)

end Space
end Azalea
