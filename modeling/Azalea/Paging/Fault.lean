import Azalea.Paging.Demand

namespace Azalea
open Word

namespace Space

-- lk_map answers TRUE or FALSE, and the handler halts on -1
def pagefaultHandler (s : Space) (faultAddress : ℕ) : Option Space :=
  match s.azAlloc pageSize4K with
  | (s, newPage) =>
    if newPage = 0 then none
    else
      let r := s.lkMap faultAddress (pa s.gMemoryStart newPage) pageSize4K 0
      let ret : ℤ := if r.2 then 1 else 0
      if ret = -1 then none else some r.1

theorem pagefaultHandler_eq (s : Space) (v : ℕ) :
    s.pagefaultHandler v =
      if (s.azAlloc pageSize4K).2 = 0 then none
      else some ((s.azAlloc pageSize4K).1.lkMap v
        (pa (s.azAlloc pageSize4K).1.gMemoryStart (s.azAlloc pageSize4K).2) pageSize4K 0).1 := by
  unfold pagefaultHandler
  generalize s.azAlloc pageSize4K = r
  obtain ⟨s, newPage⟩ := r
  dsimp only
  split
  · rfl
  · refine if_neg ?_
    split <;> decide

inductive Reachable (mem : Mem) (pgd : ℕ) : ℕ → ℕ → Prop
  | root : Reachable mem pgd 4 pgd
  | next {v l t n : ℕ} : Reachable mem pgd (l + 1) t → Link mem v l t n → Reachable mem pgd l n

def Served (s : Space) (v : ℕ) (s' : Space) : Prop :=
  walk s'.mem s'.pgd v ≠ none ∧ ∀ x ∈ s'.heap.handed, x ∉ s.heap.handed →
    ∃ l, Reachable s'.mem s'.pgd l (pa s'.gMemoryStart x.address)

def missing (mem : Mem) (v : ℕ) : ℕ → ℕ → ℕ
  | 0, _ => 0
  | l + 1, t =>
    if mem (slot t (v / 2 ^ (12 + 9 * (l + 1)) % 512)) = 0 then l + 1
    else missing mem v l (clearLow 12 (mem (slot t (v / 2 ^ (12 + 9 * (l + 1)) % 512))))

def descend (v : ℕ) : ℕ → Space → ℕ → Space × Option ℕ
  | 0, s, t => (s, some t)
  | l + 1, s, t =>
    match s.nextTable (slot t (v / 2 ^ (12 + 9 * (l + 1)) % 512)) with
    | (s, none) => (s, none)
    | (s, some n) => descend v l s n

theorem lkMap_eq_descend (s : Space) (v f : ℕ) :
    s.lkMap v f pageSize4K 0 =
      match descend v 3 s s.pgd with
      | (s, none) => (s, false)
      | (s, some pt) => (s.setEntry (slot pt (v / 2 ^ 12 % 512)) f 7, true) := by
  unfold lkMap
  simp only [pml4Index_eq, pdptIndex_eq, pdeIndex_eq, pteIndex_eq, descend, Nat.reduceMul, Nat.reduceAdd]
  rcases s.nextTable (slot s.pgd (v / 2 ^ 39 % 512)) with ⟨s3, _ | pdpt⟩
  · rfl
  dsimp only
  rcases s3.nextTable (slot pdpt (v / 2 ^ 30 % 512)) with ⟨s2, _ | pd⟩
  · rfl
  dsimp only
  rcases s2.nextTable (slot pd (v / 2 ^ 21 % 512)) with ⟨s1, _ | pt⟩
  · rfl
  · rfl

section Descent
variable {s s' : Space} {level level' : ℕ → ℕ} {v l t n : ℕ}

theorem missing_empty {mem : Mem} (h : ∀ j < 512, mem (slot n j) = 0) (l : ℕ) : missing mem v l n = l := by
  cases l with
  | zero => rfl
  | succ l => exact if_pos (h _ (Nat.mod_lt _ (by decide)))

theorem Reachable.level_eq (h : s.Valid level) (hr : Reachable s.mem s.pgd l t) : level t = l := by
  induction hr with
  | root => exact h.tables.root
  | @next v l t n _ hlink ih =>
    obtain ⟨hp, hlarge, rfl⟩ := hlink
    have hty := h.tables.entry t (v / 2 ^ (12 + 9 * l) % 512) (Nat.mod_lt _ (by decide)) (by omega)
    rcases hty with h0 | ⟨-, ⟨hl, h23⟩ | ⟨hlev, -⟩⟩
    · exact absurd h0 (present_ne_zero hp)
    · rw [hlarge (by omega)] at hl
      exact absurd hl (by decide)
    · omega

theorem Reachable.grows (h : s.Valid level) (hg : s.Grows level s' level') (hr : Reachable s.mem s.pgd l t)
    (hl : 1 ≤ l) : Reachable s'.mem s'.pgd l t := by
  have hpgd : s'.pgd = s.pgd := by rw [pgd, pgd, hg.start]
  rw [hpgd]
  induction hr with
  | root => exact .root
  | @next v l t n ht hlink ih =>
    have hlev := ht.level_eq h
    exact .next (ih (by omega)) (hg.link (by omega) hlink)

inductive Traversed (s : Space) (level : ℕ → ℕ) (v l t : ℕ) : Space × Option ℕ → Prop
  | stopped (s' : Space) (level' : ℕ → ℕ) : s'.Valid level' → s.Grows level s' level' →
      walkFrom s'.mem (l + 1) t v = none →
      4096 * s.heap.mm.smallestBlock < s.heap.mm.usedSize + 4096 * missing s.mem v l t →
      Traversed s level v l t (s', none)
  | arrived (s' : Space) (level' : ℕ → ℕ) (n : ℕ) : s'.Valid level' → s.Grows level s' level' →
      Reachable s'.mem s'.pgd 1 n →
      s.heap.mm.usedSize + 4096 * missing s.mem v l t ≤ 4096 * s.heap.mm.smallestBlock →
      (∀ x ∈ s'.heap.handed, x ∈ s.heap.handed ∨
        ∃ k, 1 ≤ k ∧ Reachable s'.mem s'.pgd k (pa s'.gMemoryStart x.address)) →
      Traversed s level v l t (s', some n)

theorem Traversed.enter (h : s.Valid level) (ht : level t = l + 2)
    (hn : s.Reached level v (l + 1) t s' level' n) (hr : Reachable s'.mem s'.pgd (l + 1) n)
    (hused : s'.heap.mm.usedSize + 4096 * missing s'.mem v l n =
      s.heap.mm.usedSize + 4096 * missing s.mem v (l + 1) t)
    (hnew : ∀ x ∈ s'.heap.handed, x ∈ s.heap.handed ∨ pa s.gMemoryStart x.address = n)
    {r : Space × Option ℕ} (hd : s'.Traversed level' v l n r) : s.Traversed level v (l + 1) t r := by
  have hN := hn.grows.pages
  cases hd with
  | stopped s'' level'' hv hg hw hlt =>
    have htl : level' t = l + 2 := (hn.grows.same t (h.tables.owned t (by omega))).trans ht
    refine .stopped s'' level'' hv (hn.grows.trans h hg) ?_ (by omega)
    exact (hg.link (by omega) hn.link).walk.trans hw
  | arrived s'' level'' pt hv hg hpt hle hx =>
    refine .arrived s'' level'' pt hv (hn.grows.trans h hg) hpt (by omega) fun x hx' => ?_
    rcases hx x hx' with hs' | hreach
    · rcases hnew x hs' with hs | he
      · exact .inl hs
      · refine .inr ⟨l + 1, by omega, ?_⟩
        rw [hg.start, hn.grows.start, he]
        exact hr.grows hn.valid hg (by omega)
    · exact .inr hreach

theorem descend_spec (h : s.Valid level) (hr : Reachable s.mem s.pgd (l + 1) t)
    (hsoft : Soft s.pgd (s.mem (slot t (v / 2 ^ (12 + 9 * l) % 512)))) :
    s.Traversed level v l t (descend v l s t) := by
  induction l generalizing s level t with
  | zero =>
    exact .arrived s level t h (Grows.refl s level) hr h.pool.heap.used_le fun x hx => .inl hx
  | succ l ih =>
    have ht := hr.level_eq h
    have hn := nextTable_entered h ht hsoft
    rw [descend]
    generalize s.nextTable (slot t (v / 2 ^ (12 + 9 * (l + 1)) % 512)) = r at hn
    cases hn with
    | refused h0 hfull =>
      refine .stopped s level h (Grows.refl s level) (Tables.walkFrom_empty h0) ?_
      rw [missing, if_pos h0]
      omega
    | grown s' level' x h0 hn hx hu hempty =>
      have hr' := Reachable.next (hr.grows h hn.grows (by omega)) hn.link
      refine .enter h ht hn hr' ?_ ?_ (ih hn.valid hr' (hn.next l rfl))
      · rw [missing_empty hempty, missing, if_pos h0]
        omega
      · rw [hx]
        intro y hy
        rcases List.mem_cons.mp hy with rfl | hy
        · exact .inr rfl
        · exact .inl hy
    | found hne hn =>
      have hr' := Reachable.next hr hn.link
      refine .enter h ht hn hr' ?_ (fun x hx => .inl hx) (ih hn.valid hr' (hn.next l rfl))
      rw [missing, if_neg hne]

theorem missing_congr (h : s.Valid level) {mem : Mem}
    (hmem : ∀ t i, i < 512 → level t ≠ 0 → mem (slot t i) = s.mem (slot t i)) (ht : level t = l + 1)
    (hsoft : Soft s.pgd (s.mem (slot t (v / 2 ^ (12 + 9 * l) % 512)))) :
    missing mem v l t = missing s.mem v l t := by
  induction l generalizing t with
  | zero => rfl
  | succ l ih =>
    rw [missing, missing, hmem t _ (Nat.mod_lt _ (by decide)) (by omega)]
    split
    · rfl
    · rename_i hne
      have hn := h.found ht hne hsoft
      exact ih hn.child (hn.next l rfl)

theorem Valid.root_soft (h : s.Valid level) (hv : v < 2 ^ 47) :
    Soft s.pgd (s.mem (slot s.pgd (v / 2 ^ (12 + 9 * 3) % 512))) := by
  refine h.tables.soft _ _ (Nat.mod_lt _ (by decide)) (by rw [h.tables.root]; decide) (.inr ⟨rfl, ?_⟩)
  omega

theorem Reachable.setLeaf (h : s.Valid level) {x : Handed} {pt : ℕ} (hx : x ∈ s.heap.handed)
    (hlev : level (pa s.gMemoryStart x.address) = 0) (hv : s'.Valid level') (hg : s.Grows level s' level')
    (hpt : Reachable s'.mem s'.pgd 1 pt) :
    let s'' := s'.setEntry (slot pt (v / 2 ^ 12 % 512)) (pa s.gMemoryStart x.address) 7
    Reachable s''.mem s''.pgd 0 (pa s''.gMemoryStart x.address) ∧
      ∀ k t, 1 ≤ k → Reachable s'.mem s'.pgd k t → Reachable s''.mem s''.pgd k t := by
  have hpage := (h.pool.page hx).1
  have hown : s.Owned (pa s.gMemoryStart x.address) := ⟨hpage, .inr ⟨x, hx, rfl⟩⟩
  have hr : ¬ Rigid s'.pgd (pa s.gMemoryStart x.address) := by
    rw [pgd, hg.start]
    exact h.pool.not_rigid hx
  obtain ⟨-, hgrow⟩ := hv.setLeaf (hpt.level_eq hv) (Nat.mod_lt (v / 2 ^ 12) (by decide)) (hg.owned hown)
    ((hg.same _ hown).trans hlev) hr
  have hkeep : ∀ k t, 1 ≤ k → Reachable s'.mem s'.pgd k t → _ := fun k t hk ht => ht.grows hv hgrow hk
  refine ⟨?_, hkeep⟩
  have hleaf := Reachable.next (hkeep 1 pt le_rfl hpt) (setLeaf_link s' v pt hpage)
  have hstart : (s'.setEntry (slot pt (v / 2 ^ 12 % 512)) (pa s.gMemoryStart x.address) 7).gMemoryStart =
      s.gMemoryStart := hg.start
  rw [hstart]
  exact hleaf

inductive MapOutcome (s : Space) (v : ℕ) (x : Handed) : Space × Bool → Prop
  | failed (s' : Space) : walk s'.mem s'.pgd v = none →
      4096 * s.heap.mm.smallestBlock < s.heap.mm.usedSize + 4096 * missing s.mem v 3 s.pgd →
      MapOutcome s v x (s', false)
  | done (s' : Space) : walk s'.mem s'.pgd v ≠ none →
      s.heap.mm.usedSize + 4096 * missing s.mem v 3 s.pgd ≤ 4096 * s.heap.mm.smallestBlock →
      (∀ y ∈ s'.heap.handed, y ∈ s.heap.handed ∧ y ≠ x ∨
        ∃ l, Reachable s'.mem s'.pgd l (pa s'.gMemoryStart y.address)) →
      MapOutcome s v x (s', true)

theorem Valid.lkMap_outcome (h : s.Valid level) (hv : v < 2 ^ 47) {x : Handed} (hx : x ∈ s.heap.handed)
    (hlev : level (pa s.gMemoryStart x.address) = 0) :
    s.MapOutcome v x (s.lkMap v (pa s.gMemoryStart x.address) pageSize4K 0) := by
  have hmap := lkMap_spec h (demand_of_low hv) ⟨(h.pool.page hx).1, .inr ⟨x, hx, rfl⟩⟩ hlev (h.pool.not_rigid hx)
  have hdesc := descend_spec h .root (h.root_soft hv)
  rw [lkMap_eq_descend] at hmap ⊢
  generalize descend v 3 s s.pgd = r at hdesc hmap ⊢
  cases hdesc with
  | stopped s' level' hv' hg hw hlt =>
    have hpgd : s'.pgd = s.pgd := by rw [pgd, pgd, hg.start]
    refine .failed s' ?_ hlt
    rw [hpgd, walk_eq_walkFrom]
    exact hw
  | arrived s' level' pt hv' hg hpt hroom hnew =>
    obtain ⟨hframe, hkeep⟩ := Reachable.setLeaf (v := v) h hx hlev hv' hg hpt
    refine .done _ ?_ hroom fun y hy => ?_
    · cases hmap with
      | mapped _ _ _ _ _ hw _ _ => exact hw ▸ Option.some_ne_none _
    · rcases eq_or_ne y x with rfl | hne
      · exact .inr ⟨0, hframe⟩
      · rcases hnew y hy with hold | ⟨k, hk, hreach⟩
        · exact .inl ⟨hold, hne⟩
        · exact .inr ⟨k, hkeep k _ hk hreach⟩

theorem pagefaultHandler_served_iff (h : s.Valid level) (hv : v < 2 ^ 47) :
    (∀ s', s.pagefaultHandler v = some s' → s.Served v s') ↔
      4096 * s.heap.mm.smallestBlock ≤ s.heap.mm.usedSize ∨
      s.heap.mm.usedSize + 4096 * (missing s.mem v 3 s.pgd + 1) ≤ 4096 * s.heap.mm.smallestBlock := by
  have halloc := azAlloc_page h.pool
  rw [pagefaultHandler_eq]
  generalize s.azAlloc pageSize4K = r at halloc
  cases halloc with
  | refused hfull =>
    rw [if_pos rfl]
    exact ⟨fun _ => .inl hfull, fun _ s' hs' => absurd hs' (Option.some_ne_none s').symm⟩
  | granted mm x hne hx hp hu hN =>
    obtain ⟨hvalid, -, -, hlev⟩ := h.alloc hx hp hN rfl
    have hmiss : missing (zeroFill s.mem (pa s.gMemoryStart x.address) 4096) v 3 s.pgd = missing s.mem v 3 s.pgd :=
      missing_congr h (h.alloc_slot hx hp) h.tables.root (h.root_soft hv)
    have hle := hvalid.pool.heap.used_le
    have hmap := hvalid.lkMap_outcome hv List.mem_cons_self hlev
    rw [if_neg hne]
    dsimp only at hle hmap ⊢
    generalize lkMap _ v (pa s.gMemoryStart x.address) pageSize4K 0 = r at hmap ⊢
    cases hmap with
    | failed s' hw hlt =>
      change 4096 * mm.smallestBlock < mm.usedSize + 4096 * missing _ v 3 s.pgd at hlt
      rw [hmiss] at hlt
      refine ⟨fun hs => absurd hw (hs s' rfl).1, fun hroom => ?_⟩
      omega
    | done s' hw hroom hnew =>
      change mm.usedSize + 4096 * missing _ v 3 s.pgd ≤ 4096 * mm.smallestBlock at hroom
      rw [hmiss] at hroom
      refine ⟨fun _ => .inr (by omega), fun _ s'' hs'' => ?_⟩
      obtain rfl := Option.some.inj hs''
      refine ⟨hw, fun y hy hold => (hnew y hy).resolve_left ?_⟩
      rintro ⟨hmem, hyx⟩
      exact hold ((List.mem_cons.mp hmem).resolve_left hyx)

end Descent

theorem knl_fault_served : ∃ s', Machine.knl.space.pagefaultHandler 0x40000000 = some s' ∧
    Machine.knl.space.Served 0x40000000 s' := by
  obtain ⟨level, h, -⟩ := Machine.knl_valid
  have hused : Machine.knl.space.heap.mm.usedSize = 0 := rfl
  have hserved := (pagefaultHandler_served_iff h (show 0x40000000 < 2 ^ 47 by decide)).mpr (.inr (by
    have hmiss : missing Machine.knl.space.mem 0x40000000 3 Machine.knl.space.pgd = 3 := by decide +kernel
    rw [hmiss, hused]
    exact (show 0 + 4096 * (3 + 1) ≤ 8 * 4096 by decide).trans Machine.knl_room))
  have hgranted : (Machine.knl.space.azAlloc pageSize4K).2 ≠ 0 := by
    have halloc := azAlloc_page h.pool
    generalize Machine.knl.space.azAlloc pageSize4K = r at halloc
    cases halloc with
    | refused hfull =>
      rw [hused] at hfull
      exact absurd (Machine.knl_room.trans hfull) (by decide)
    | granted mm x hne _ _ _ _ => exact hne
  have hreturns := pagefaultHandler_eq Machine.knl.space 0x40000000
  rw [if_neg hgranted] at hreturns
  exact ⟨_, hreturns, hserved _ hreturns⟩

def onePage : Space where
  gMemoryStart := 128 * 2 ^ 30
  gSharedMemory := 125 * 2 ^ 30
  heap := ⟨MM.initPool (fun _ => ⟨fun _ => 0#8, 0⟩) (fun _ => 0#8) 1 (configPageOffset + 2 ^ 30)
    (configPageOffset + 2 ^ 30 + 4096), []⟩
  mem := bootTables (fun _ => 0) (128 * 2 ^ 30) (130 * 2 ^ 30) (125 * 2 ^ 30)

theorem onePage_valid : onePage.Valid (Machine.bootLevel onePage.pgd) where
  pool := ⟨MM.initPool_valid _ _ (by decide) (by decide) (by decide) (by decide), by decide, by decide, by decide,
    by decide, by decide, by decide⟩
  tables := Machine.bootTables_tables (Nat.dvd_mul_left _ _) (Nat.dvd_mul_left _ _) (by decide) (by decide) (by decide)
    (fun t ht => ht.1) fun k hk => ⟨pagetableAddress_dvd (Nat.dvd_mul_left _ _) k, .inl (by
      change configKernelPagetableAddress (128 * 2 ^ 30) ≤ _ ∧ _ < configKernelPagetableAddress (128 * 2 ^ 30) + 0x4000
      omega)⟩

theorem onePage_returns_unmapped : (∃ level, onePage.Valid level) ∧ ∃ s',
    onePage.pagefaultHandler 0x40000000 = some s' ∧ walk s'.mem s'.pgd 0x40000000 = none ∧
      s'.heap.handed ≠ onePage.heap.handed := by
  refine ⟨⟨_, onePage_valid⟩, ?_⟩
  have hrun : (onePage.pagefaultHandler 0x40000000).map
      (fun s' => (walk s'.mem s'.pgd 0x40000000, s'.heap.handed.length)) = some (none, 1) := by decide +kernel
  obtain ⟨s', hs', he⟩ := Option.map_eq_some_iff.mp hrun
  obtain ⟨hw, hlen⟩ := Prod.mk.inj he
  refine ⟨s', hs', hw, fun hh => ?_⟩
  rw [hh] at hlen
  exact absurd hlen (by decide)

end Space

namespace Machine

theorem pagefaultHandler_steps {m : Machine} {c v : ℕ} (hc : m.core c = .faulted v) :
    (m.space.pagefaultHandler v).elim ((m.step (.alloc c)).core c = .halted) fun s' =>
      ((m.step (.alloc c)).step (.map c)).space = s' ∧ ((m.step (.alloc c)).step (.map c)).core c = .idle := by
  rw [Space.pagefaultHandler_eq]
  simp only [step, hc, Function.update_self]
  by_cases h0 : (m.space.azAlloc pageSize4K).2 = 0
  · rw [if_pos h0, if_pos h0]
    rfl
  · rw [if_neg h0, if_neg h0]
    exact ⟨rfl, Function.update_self _ _ _⟩

end Machine
end Azalea
