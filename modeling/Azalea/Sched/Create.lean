import Azalea.Memory.Grant
import Azalea.Sched.Runs

namespace Azalea

def gdtKernelCodeSegment : ℕ := 0x08

def gdtKernelDataSegment : ℕ := 0x10

def threadFlagsIf : ℕ := 0x200

def threadFlagsIopl : ℕ := 0x3000

def threadNumGpRegister : ℕ := 14

structure Symbols where
  threadExit : ℕ
  returnFromSetupThread : ℕ
  elfLoadEntry : ℕ

structure Threads where
  sched : Sched
  heap : Heap
  gThreadCnt : BitVec 32
  stack : ℕ → ℕ
  mem : ℕ → ℕ

namespace Threads

def slot (kstack n : ℕ) : ℕ := (kstack + (wordSize - 8 * n)) % wordSize

def stackTop (stackAddress : ℕ) : ℕ := (stackAddress + configStackSize) % wordSize

def frame (y : Symbols) (kstack entrypoint stackAddress threadParam : ℕ) : List (ℕ × ℕ) :=
  let rsp := (stackTop stackAddress + (wordSize - 8)) % wordSize
  [(rsp, y.threadExit), (slot kstack 1, gdtKernelDataSegment), (slot kstack 2, rsp),
    (slot kstack 3, threadFlagsIopl ||| threadFlagsIf), (slot kstack 4, gdtKernelCodeSegment),
    (slot kstack 5, entrypoint), (slot kstack 11, threadParam), (slot kstack 12, threadParam),
    (slot kstack 6, stackTop stackAddress)] ++
  (List.range 4).map (fun i => (slot kstack (threadNumGpRegister + 7 + i), gdtKernelDataSegment)) ++
  (slot kstack (threadNumGpRegister + 11), y.returnFromSetupThread) ::
  (List.range 6).map (fun i => (slot kstack (threadNumGpRegister + 12 + i), 0))

def setupThread (y : Symbols) (t entrypoint stackAddress threadParam : ℕ) (k : Threads) : Threads :=
  { k with
    mem := (frame y (k.stack t) entrypoint stackAddress threadParam).foldl (fun mem w => Function.update mem w.1 w.2) k.mem
    stack := Function.update k.stack t (slot (k.stack t) (threadNumGpRegister + 17)) }

-- none: the kernel does not come back
def createThread (y : Symbols) (env : Env) (c ip argv : ℕ) (coreMask : ℤ) (k : Threads) : Option (ℤ × Threads) :=
  let stackAddress := (k.heap.mm.azAlloc configStackSize).2
  match k.sched.createThread env c coreMask stackAddress with
  | none => none
  | some (t, sched) =>
    let k := { k with
      sched
      heap := k.heap.call (.alloc configStackSize)
      mem := k.heap.clear configStackSize k.mem }
    let k := k.setupThread y t (if ip = 0 then y.elfLoadEntry else ip) stackAddress argv
    some (t, { k with gThreadCnt := k.gThreadCnt + 1 })

structure Owns (k k' : Threads) (t : ℕ) (x : Handed) : Prop where
  handed : x ∈ k'.heap.handed
  size : configStackSize ≤ x.size
  base : (k'.sched.tcb t).stackBase = x.address + configStackSize
  new : x ∉ k.heap.handed
  alone : ∀ y ∈ k'.heap.handed, y ≠ x → x.address + x.size ≤ y.address ∨ y.address + y.size ≤ x.address

structure Created (k k' : Threads) (ret : ℤ) (t : ℕ) : Prop where
  ret : ret = t
  migrating : t ∈ k'.sched.tcbList .migrating
  ready : (k'.sched.tcb t).state = .ready
  stack : ∃ x, Owns k k' t x

structure Refused (k k' : Threads) (ret : ℤ) : Prop where
  ret : ret = -1
  tcbList : k'.sched.tcbList = k.sched.tcbList
  count : k'.sched.count = k.sched.count
  gThreadCnt : k'.gThreadCnt = k.gThreadCnt
  heap : k'.heap = k.heap

def AllOrNothing (y : Symbols) (env : Env) (c ip argv : ℕ) (coreMask : ℤ) (k : Threads) : Prop :=
  ∃ ret k', k.createThread y env c ip argv coreMask = some (ret, k') ∧ ((∃ t, Created k k' ret t) ∨ Refused k k' ret)

end Threads

namespace Sched
variable {s s' : Sched} {env : Env} {r : ℕ → ℕ} {c t stack : ℕ} {core : ℤ}

inductive HasTcb (s : Sched) (c : ℕ) : Prop
  | ofLocal (t : ℕ) (rest : List ℕ) : s.count (.localTcb c) ≠ 0 → s.tcbList (.localTcb c) = t :: rest →
      (s.tcb t).refc ≤ 0 → HasTcb s c
  | ofGlobal (t : ℕ) (rest : List ℕ) : s.count (.localTcb c) = 0 → s.tcbList .globalTcb = t :: rest → HasTcb s c

theorem allocTcb_isSome : (s.allocTcb c).isSome ↔ s.HasTcb c := by
  constructor
  · intro hsome
    unfold allocTcb at hsome
    split at hsome
    · next hcount =>
      split at hsome
      · cases hsome
      · next t rest hl =>
        dsimp only at hsome
        split at hsome
        · cases hsome
        · next href => exact .ofLocal t rest hcount hl (not_lt.mp href)
    · next hcount =>
      split at hsome
      · cases hsome
      · next t rest hl => exact .ofGlobal t rest (not_not.mp hcount) hl
  · rintro (⟨t, rest, hcount, hl, href⟩ | ⟨t, rest, hcount, hl⟩)
    · rw [allocTcb, if_pos hcount, hl]
      dsimp only
      rw [countDec_tcb, dlListDel_tcb, if_neg (not_lt.mpr href)]
      rfl
    · rw [allocTcb, if_neg (not_not.mpr hcount), hl]
      rfl

theorem setCore_isSome : (TCB.setCore core).isSome ↔ -1 ≤ core ∧ core < 256 := by
  rw [TCB.setCore]
  split_ifs with h1 h2
  · exact iff_of_true rfl (by omega)
  · exact iff_of_true rfl (by omega)
  · exact iff_of_false (by simp) (by omega)

theorem createThread_isSome (h : Placed r s) :
    (s.createThread env c core stack).isSome ↔ s.HasTcb c ∧ -1 ≤ core ∧ core < 256 := by
  rw [← allocTcb_isSome, ← setCore_isSome]
  constructor
  · intro hsome
    obtain ⟨⟨t, s'⟩, he⟩ := Option.isSome_iff_exists.mp hsome
    obtain ⟨p, mask, hp, ht, hmask, -⟩ := createThread_eq h he
    obtain ⟨x, hx, -⟩ := Option.bind_eq_some_iff.mp he
    exact ⟨Option.isSome_of_eq_some hx, Option.isSome_of_eq_some hmask⟩
  · rintro ⟨halloc, hcore⟩
    obtain ⟨⟨t, s₁⟩, he⟩ := Option.isSome_iff_exists.mp halloc
    obtain ⟨mask, hmask⟩ := Option.isSome_iff_exists.mp hcore
    obtain ⟨p, hp, ht, rfl⟩ := allocTcb_eq he
    have hlt : t < 33055 := (h.thread ht).2
    simp [createThread, he, hmask, getTcb, Nat.not_le.mpr hlt, initTcbAlloc, initTcbCreate, putTcb, modify, countInc, dlListAddTail]

theorem createThread_published (h : Placed r s) (he : s.createThread env c core stack = some (t, s')) :
    t ∈ s'.tcbList .migrating ∧ (s'.tcb t).state = .ready ∧
      (s'.tcb t).stackBase = (stack + configStackSize) % wordSize := by
  obtain ⟨p, mask, hp, ht, -, rfl⟩ := createThread_eq h he
  have htcb : ((s.modify t fun _ => createdTcb core stack mask s.gMigratingListAddr).transfer t p .migrating).tcb t =
      createdTcb core stack mask s.gMigratingListAddr := Function.update_self ..
  have hmem : t ∈ Shelf.move s.tcbList t .migrating .migrating := h.exclusive.mem_move_self.mpr rfl
  refine ⟨hmem, congrArg TCB.state htcb, (congrArg TCB.stackBase htcb).trans ?_⟩
  rw [createdTcb]

end Sched

namespace Threads
variable {y : Symbols} {env : Env} {c ip argv : ℕ} {coreMask : ℤ} {k : Threads} {r : ℕ → ℕ}

theorem createThread_some {t : ℕ} {s : Sched}
    (he : k.sched.createThread env c coreMask (k.heap.mm.azAlloc configStackSize).2 = some (t, s)) :
    ∃ k', k.createThread y env c ip argv coreMask = some ((t : ℤ), k') ∧ k'.sched = s ∧
      k'.heap = k.heap.call (.alloc configStackSize) := by
  rw [createThread, he]
  exact ⟨_, rfl, rfl, rfl⟩

theorem createThread_none (he : k.sched.createThread env c coreMask (k.heap.mm.azAlloc configStackSize).2 = none) :
    k.createThread y env c ip argv coreMask = none := by
  rw [createThread, he]

theorem created_of_granted {t : ℕ} {s : Sched} (h : Sched.Placed r k.sched) (hv : k.heap.Valid)
    (hstack : (k.heap.mm.azAlloc configStackSize).2 ≠ 0)
    (he : k.sched.createThread env c coreMask (k.heap.mm.azAlloc configStackSize).2 = some (t, s)) {k' : Threads}
    (hs : k'.sched = s) (hh : k'.heap = k.heap.call (.alloc configStackSize)) : Created k k' t t := by
  obtain ⟨x, hx⟩ : ∃ x, k.heap.Grants configStackSize x := ⟨_, hv.call_granted (by decide) hstack⟩
  have hv' : (k.heap.call (.alloc configStackSize)).Valid := hv.alloc (.inr (by decide))
  obtain ⟨hmigrating, hready, hbase⟩ := Sched.createThread_published h he
  rw [← hs] at hmigrating hready hbase
  have hmem : x ∈ k'.heap.handed := by
    rw [hh, hx.handed]
    exact List.mem_cons_self
  have hstop := hv'.stop_lt (hh ▸ hmem)
  have henough := hx.enough
  refine ⟨rfl, hmigrating, hready, x, hmem, henough, ?_, fun hold => ?_, fun z hz hne => ?_⟩
  · rw [hbase, hx.address]
    exact Nat.mod_eq_of_lt (by rw [← hx.address]; omega)
  · have hself := hx.fresh x hold
    simp only [configStackSize] at henough
    omega
  · rw [hh, hx.handed] at hz
    exact hx.fresh z ((List.mem_cons.mp hz).resolve_left hne)

theorem not_allOrNothing {t : ℕ} {s : Sched} (h : Sched.Placed r k.sched) (hv : k.heap.Valid)
    (hstack : (k.heap.mm.azAlloc configStackSize).2 = 0)
    (he : k.sched.createThread env c coreMask (k.heap.mm.azAlloc configStackSize).2 = some (t, s)) :
    ¬ AllOrNothing y env c ip argv coreMask k := by
  obtain ⟨k₁, hk₁, hs, hh⟩ := @createThread_some y env c ip argv coreMask k t s he
  rintro ⟨ret, k', hk', hcase⟩
  cases hk₁.symm.trans hk'
  rcases hcase with ⟨u, hcreated⟩ | hrefused
  · obtain ⟨x, hx⟩ := hcreated.stack
    obtain rfl : t = u := Int.ofNat_inj.mp hcreated.ret
    have hmem := hx.handed
    rw [hh, hv.call_refused (by decide) hstack] at hmem
    have hbase := (Sched.createThread_published h he).2.2
    rw [← hs, hx.base, hstack] at hbase
    simp only [configStackSize, wordSize] at hbase
    exact hv.address_pos hmem (by omega)
  · have hret := hrefused.ret
    omega

theorem createThread_allOrNothing_iff (h : Sched.Placed r k.sched) (hv : k.heap.Valid) (y : Symbols) (env : Env) (c ip argv : ℕ)
    (coreMask : ℤ) : AllOrNothing y env c ip argv coreMask k ↔
      k.sched.HasTcb c ∧ (-1 ≤ coreMask ∧ coreMask < 256) ∧ (k.heap.mm.azAlloc configStackSize).2 ≠ 0 := by
  rw [← and_assoc, ← @Sched.createThread_isSome _ env r c (k.heap.mm.azAlloc configStackSize).2 coreMask h]
  cases he : k.sched.createThread env c coreMask (k.heap.mm.azAlloc configStackSize).2 with
  | none =>
    refine iff_of_false ?_ (by simp)
    rintro ⟨ret, k', hk', -⟩
    rw [createThread_none he] at hk'
    cases hk'
  | some x =>
    obtain ⟨t, s⟩ := x
    by_cases hstack : (k.heap.mm.azAlloc configStackSize).2 = 0
    · exact iff_of_false (not_allOrNothing h hv hstack he) fun hc => hc.2 hstack
    · obtain ⟨k', hk', hs, hh⟩ := @createThread_some y env c ip argv coreMask k t s he
      exact iff_of_true ⟨t, k', hk', .inl ⟨t, created_of_granted h hv hstack he hs hh⟩⟩ ⟨rfl, hstack⟩

def booted (h : Heap) : Threads := ⟨Sched.threadInit ⟨0, 0, 0, 0⟩, h, 0, fun _ => 0, fun _ => 0⟩

def quiet : Env := ⟨0, 0, fun _ _ => false, false, fun _ => false⟩

theorem booted_placed (h : Heap) : Sched.Placed (fun _ => 0) (booted h).sched :=
  (Sched.threadInit_steady true ⟨0, 0, 0, 0⟩).inv.placed

theorem booted_hasTcb (h : Heap) : (booted h).sched.HasTcb 0 := .ofGlobal 288 _ rfl rfl

theorem tiny_thread_created : AllOrNothing ⟨0, 0, 0x400000⟩ quiet 0 0 0 (-1) (booted Heap.tiny) :=
  (createThread_allOrNothing_iff (booted_placed _) Heap.tiny_valid _ _ _ _ _ _).mpr
    ⟨booted_hasTcb _, by decide, by decide +kernel⟩

theorem no_stack_no_error : ((booted (Heap.tiny.call (.alloc (2 ^ 21)))).sched.HasTcb 0 ∧
    (booted (Heap.tiny.call (.alloc (2 ^ 21)))).heap.Valid) ∧
    ¬ AllOrNothing ⟨0, 0, 0x400000⟩ quiet 0 0 0 (-1) (booted (Heap.tiny.call (.alloc (2 ^ 21)))) := by
  have hv : (Heap.tiny.call (.alloc (2 ^ 21))).Valid := Heap.tiny_valid.alloc (.inr (by decide))
  have hfull : ((Heap.tiny.call (.alloc (2 ^ 21))).mm.azAlloc configStackSize).2 = 0 := by decide +kernel
  generalize Heap.tiny.call (.alloc (2 ^ 21)) = h at hv hfull ⊢
  refine ⟨⟨booted_hasTcb h, hv⟩, ?_⟩
  obtain ⟨x, hx⟩ := Option.isSome_iff_exists.mp ((@Sched.createThread_isSome _ quiet _ 0 (h.mm.azAlloc configStackSize).2
    (-1) (booted_placed h)).mpr ⟨booted_hasTcb h, by decide⟩)
  exact not_allOrNothing (booted_placed h) hv hfull hx

end Threads

end Azalea
