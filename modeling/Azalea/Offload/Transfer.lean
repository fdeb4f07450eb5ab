import Azalea.Memory.Pages
import Azalea.Offload.Packet
import Azalea.Paging.Lookup

namespace Azalea

inductive FileOp where
  | read
  | write
deriving DecidableEq, Repr

def FileOp.syscall : FileOp → ℕ
  | .read => 507
  | .write => 508

def Space.sysOffIo (op : FileOp) (s : Space) (gUkid tid fd : ℤ) (buf count : ℕ) (slot : IoPacket) :
    Option (Space × IoPacket) :=
  if count = 0 then none
  else
    match s.getPa buf with
    | (s, pa) => some (s, slot.request gUkid tid op.syscall (intToQword fd) pa count 0 0 0)

theorem Space.sysOffIo_eq (s : Space) (op : FileOp) (gUkid tid fd : ℤ) (buf : ℕ) (slot : IoPacket) {count : ℕ}
    (h : 0 < count) : s.sysOffIo op gUkid tid fd buf count slot = some ((s.getPa buf).1,
      slot.request gUkid tid op.syscall (intToQword fd) (s.getPa buf).2 count 0 0 0) :=
  if_neg h.ne'

def Space.sysOffRead := Space.sysOffIo .read

def Space.sysOffWrite := Space.sysOffIo .write

structure HostCall where
  op : FileOp
  fd : ℤ
  buf : ℕ
  count : ℕ
deriving DecidableEq, Repr

structure Proxy where
  unikernelsMemBasePa : ℕ
  gKernelsMemBasePa : ℕ
  gMmapUnikernelsMemBaseVa : ℕ
  gChannelMemBasePa : ℕ
  gMmapChannelMemBaseVa : ℕ
  phys : ℕ → Option ℕ

namespace Proxy

def getVa (x : Proxy) (pa : ℕ) : ℕ :=
  if pa = 0 then 0
  else if x.unikernelsMemBasePa ≤ pa then
    (x.gMmapUnikernelsMemBaseVa + (pa + (wordSize - x.gKernelsMemBasePa))) % wordSize
  else (x.gMmapChannelMemBaseVa + (pa + (wordSize - x.gChannelMemBasePa))) % wordSize

def sysOffIo (op : FileOp) (x : Proxy) (pkt : IoPacket) : HostCall :=
  ⟨op, toInt pkt.param1, x.getVa pkt.param2, intToQword (toInt pkt.param3)⟩

def sysOffRead := sysOffIo .read

def sysOffWrite := sysOffIo .write

def offloadLocalProxy (x : Proxy) (pkt : IoPacket) : Option HostCall :=
  if pkt.ioFunctionType = FileOp.read.syscall then some (x.sysOffRead pkt)
  else if pkt.ioFunctionType = FileOp.write.syscall then some (x.sysOffWrite pkt)
  else none

def touched (x : Proxy) (call : HostCall) : List (Option ℕ) :=
  (List.range call.count).map fun i => x.phys (call.buf + i)

structure Linear (x : Proxy) (pa count : ℕ) : Prop where
  null : x.phys 0 = none
  bytes : pa ≠ 0 → ∀ i < count, x.phys (x.getVa pa + i) = some (pa + i)

end Proxy

namespace Machine

def bytes (m : Machine) (buf count : ℕ) : List (Option ℕ) :=
  (List.range count).map fun i => m.translate (buf + i)

def Contiguous (m : Machine) (buf count : ℕ) : Prop :=
  ∀ i, i + 1 < count → 4096 ∣ buf + i + 1 →
    ∃ p, m.translate (buf + i) = some p ∧ m.translate (buf + i + 1) = some (p + 1)

def StartAgrees (m : Machine) (buf : ℕ) : Prop :=
  buf ≠ 0 ∧ (configHighHalfLimit < buf →
    getPaHighHalf m.space.gMemoryStart m.space.gSharedMemory buf ≠ 0 ∧
      m.translate buf = some (getPaHighHalf m.space.gMemoryStart m.space.gSharedMemory buf))

section Transfer
variable {m : Machine} {x : Proxy} {buf count pa : ℕ}

theorem offloadLocalProxy_request (x : Proxy) (op : FileOp) (slot : IoPacket) (gUkid tid fd : ℤ) (pa : ℕ)
    (hlt : count < 2 ^ 31) :
    x.offloadLocalProxy (slot.request gUkid tid op.syscall (intToQword fd) pa count 0 0 0) =
      some ⟨op, toInt (intToQword fd), x.getVa pa, count⟩ := by
  have htype : intToQword (op.syscall : ℤ) = op.syscall := intToQword_of_nat (by cases op <;> decide)
  have hcount := intToQword_toInt_of_lt hlt
  rw [Proxy.offloadLocalProxy, IoPacket.request, htype]
  cases op with
  | read => rw [if_pos rfl, Proxy.sysOffRead, Proxy.sysOffIo, hcount]
  | write => rw [if_neg (show FileOp.write.syscall ≠ FileOp.read.syscall by decide), if_pos rfl, Proxy.sysOffWrite, Proxy.sysOffIo, hcount]

theorem touched_eq_iff (hx : x.Linear pa count) (hpos : 0 < count)
    (hmap : ∀ i < count, m.translate (buf + i) ≠ none) (op : FileOp) (fd : ℤ) :
    x.touched ⟨op, fd, x.getVa pa, count⟩ = m.bytes buf count ↔
      pa ≠ 0 ∧ ∀ i < count, m.translate (buf + i) = some (pa + i) := by
  have hlist : x.touched ⟨op, fd, x.getVa pa, count⟩ = m.bytes buf count ↔
      ∀ i < count, x.phys (x.getVa pa + i) = m.translate (buf + i) := by
    rw [Proxy.touched, bytes, List.map_inj_left]
    exact forall_congr' fun i => by rw [List.mem_range]
  rw [hlist]
  constructor
  · intro h
    have hpa : pa ≠ 0 := by
      rintro rfl
      refine hmap 0 hpos ?_
      rw [← h 0 hpos, Proxy.getVa, if_pos rfl]
      exact hx.null
    exact ⟨hpa, fun i hi => by rw [← h i hi, hx.bytes hpa i hi]⟩
  · rintro ⟨hpa, h⟩ i hi
    rw [h i hi, hx.bytes hpa i hi]

theorem translate_linear_iff (hpos : 0 < count) :
    (∀ i < count, m.translate (buf + i) = some (pa + i)) ↔
      m.translate buf = some pa ∧ m.Contiguous buf count := by
  constructor
  · intro h
    refine ⟨h 0 hpos, fun i hi _ => ⟨pa + i, h i (by omega), h (i + 1) hi⟩⟩
  · rintro ⟨h0, hc⟩ i
    induction i with
    | zero => exact fun _ => h0
    | succ i ih =>
      intro hi
      have hprev := ih (by omega)
      by_cases hd : 4096 ∣ buf + i + 1
      · obtain ⟨p, hp, hp'⟩ := hc i hi hd
        rw [hprev, Option.some.injEq] at hp
        rw [← Nat.add_assoc, hp', ← hp, Nat.add_assoc]
      · exact walk_succ hd hprev

theorem getPa_start_iff (hv : m.Valid) (hcan : Canonical buf) (hmap : m.translate buf ≠ none) :
    (m.space.getPa buf).2 ≠ 0 ∧ m.translate buf = some (m.space.getPa buf).2 ↔ m.StartAgrees buf := by
  by_cases h0 : buf = 0
  · rw [Space.getPa, if_pos h0]
    exact ⟨fun h => absurd rfl h.1, fun h => absurd h0 h.1⟩
  by_cases hhigh : configHighHalfLimit < buf
  · rw [Space.getPa, if_neg h0, if_pos hhigh]
    exact ⟨fun h => ⟨h0, fun _ => h⟩, fun h => h.2 hhigh⟩
  obtain ⟨level, hs, -⟩ := hv
  obtain ⟨p, hw⟩ := Option.ne_none_iff_exists'.mp hmap
  have hd : m.space.Demand buf := by
    rcases hcan with hlow | ⟨hlimit, -⟩
    · exact Space.demand_of_low hlow
    · rw [show buf = configHighHalfLimit by omega]
      exact hs.demand_limit
  rw [hs.getPa_mapped hd h0 (Nat.not_lt.mp hhigh) hw]
  exact ⟨fun _ => ⟨h0, fun h => absurd h hhigh⟩, fun _ => ⟨(hs.mapped_bounds hd hw).1.ne', hw⟩⟩

theorem Valid.sysOffIo_touches_iff (hv : m.Valid) (op : FileOp) (gUkid tid fd : ℤ) (slot : IoPacket)
    (hpos : 0 < count) (hlt : count < 2 ^ 31)
    (hmap : ∀ i < count, Canonical (buf + i) ∧ m.translate (buf + i) ≠ none) :
    ∃ s pkt, m.space.sysOffIo op gUkid tid fd buf count slot = some (s, pkt) ∧
      ∀ x : Proxy, x.Linear pkt.param2 count →
        ((x.offloadLocalProxy pkt).map x.touched = some (m.bytes buf count) ↔
          m.StartAgrees buf ∧ m.Contiguous buf count) := by
  have hfirst : Canonical buf ∧ m.translate buf ≠ none := hmap 0 hpos
  refine ⟨_, _, Space.sysOffIo_eq m.space op gUkid tid fd buf slot hpos, fun x hx => ?_⟩
  change x.Linear (m.space.getPa buf).2 count at hx
  rw [offloadLocalProxy_request x op slot gUkid tid fd _ hlt, Option.map_some, Option.some.injEq,
    touched_eq_iff hx hpos (fun i hi => (hmap i hi).2), translate_linear_iff hpos, ← and_assoc,
    getPa_start_iff hv hfirst.1 hfirst.2]

end Transfer

theorem offloadIo_touches_buffer_iff {prior : ℕ → BITMAP} {priorIndex : ℤ → BYTE} {mem : Mem}
    {gMemoryStart gMemoryEnd gSharedMemory : ℕ} (hs : 2 ^ 30 ∣ gMemoryStart) (he : 2 ^ 30 ∣ gMemoryEnd)
    (hse : gMemoryStart < gMemoryEnd) (hend : gMemoryEnd < wordSize)
    (hG : gMemoryEnd - gMemoryStart ≤ 508 * pageSize1G) {m : Machine}
    (hr : Relation.ReflTransGen Step (boot prior priorIndex mem gMemoryStart gMemoryEnd gSharedMemory) m)
    (op : FileOp) (gUkid tid fd : ℤ) (slot : IoPacket) {buf count : ℕ} (hpos : 0 < count)
    (hlt : count < 2 ^ 31) (hmap : ∀ i < count, Canonical (buf + i) ∧ m.translate (buf + i) ≠ none) :
    ∃ s pkt, m.space.sysOffIo op gUkid tid fd buf count slot = some (s, pkt) ∧
      ∀ x : Proxy, x.Linear pkt.param2 count →
        ((x.offloadLocalProxy pkt).map x.touched = some (m.bytes buf count) ↔
          m.StartAgrees buf ∧ m.Contiguous buf count) :=
  ((boot_valid hs he hse hend hG).run hr).sysOffIo_touches_iff op gUkid tid fd slot hpos hlt hmap

section Swapped
variable {m : Machine} {c v : ℕ}

theorem alloc_address (hc : m.core c = .faulted v) :
    (m.step (.alloc c)).space.heap.mm = (m.space.heap.mm.azAlloc 4096).1 ∧
      (m.step (.alloc c)).core c =
        if (m.space.heap.mm.azAlloc 4096).2 = 0 then .halted
        else .holding v (m.space.heap.mm.azAlloc 4096).2 := by
  simp only [Machine.step, hc, Function.update_self]
  exact ⟨rfl, rfl⟩

theorem Valid.map_sibling (h : m.Valid) {page w p : ℕ} (hc : m.core c = .holding v page)
    (hsame : w / 2 ^ 21 = v / 2 ^ 21) (hne : w / 2 ^ 12 % 512 ≠ v / 2 ^ 12 % 512)
    (hw : m.translate w = some p) : (m.step (.map c)).translate w = some p := by
  obtain ⟨level, hs, hh⟩ := h
  have hmap := Held.mapped hs (hc ▸ hh c)
  simp only [Machine.step, hc, translate]
  generalize m.space.lkMap v (pa m.space.gMemoryStart page) pageSize4K 0 = r at hmap
  cases hmap with
  | refused s' hfill _ => exact hfill.keeps w p hw
  | mapped s' level' _ _ _ _ _ hsib => exact hsib w p hsame hne hw

theorem Valid.swapped (h : m.Valid) (h0 : m.core 0 = .idle) (h1 : m.core 1 = .idle) (hlow : v + 4096 < 2 ^ 47)
    (hv : 2 ^ 21 ∣ v) (hnone : m.translate v = none) (hnone' : m.translate (v + 4096) = none)
    (hroom : m.space.heap.mm.usedSize + 8 * 4096 ≤ 4096 * m.space.heap.mm.smallestBlock)
    (hend : m.space.heap.mm.startAddr + 4096 * m.space.heap.mm.smallestBlock ≤ m.space.heap.mm.endAddr)
    (hword : m.space.heap.mm.endAddr < wordSize) (hfree : m.space.heap.mm.findFreeBlock 0 = none) :
    ∃ m' p, Relation.ReflTransGen Step m m' ∧ m'.translate v = some (p + 4096) ∧
      m'.translate (v + 4096) = some p := by
  set a := m.step (.fault 1 (v + 4096)) with ha
  set b := a.step (.fault 0 v) with hb
  have hb0 : b.core 0 = .faulted v := by
    rw [hb, Machine.step, ha, Machine.step]
    rfl
  have hb1 : b.core 1 = .faulted (v + 4096) := by
    rw [hb, Machine.step, ha, Machine.step]
    rfl
  have hbv : b.Valid := (h.fault hnone').fault hnone
  have hbm : b.space = m.space := rfl
  obtain ⟨x, hxc, -, hxs, hxh, -, hxu, hxN⟩ := hbv.alloc_holds hb1 (by rw [hbm]; omega)
  obtain ⟨hcm, hcx⟩ := alloc_address hb1
  set c := b.step (.alloc 1) with hc
  have hcv : c.Valid := (hbv.alloc hb1).1
  have hc0 : c.core 0 = .faulted v := by rw [hxc, Function.update_of_ne (by decide), hb0]
  have hc1 : c.core 1 = .holding (v + 4096) x.address := by rw [hxc, Function.update_self]
  rw [hbm] at hxu hxN hcm hcx
  obtain ⟨y, hyc, -, hys, hyh, -, hyu, hyN⟩ := hcv.alloc_holds hc0 (by omega)
  obtain ⟨-, hdy⟩ := alloc_address hc0
  set d := c.step (.alloc 0) with hd
  have hdv : d.Valid := (hcv.alloc hc0).1
  have hd0 : d.core 0 = .holding v y.address := by rw [hyc, Function.update_self]
  have hd1 : d.core 1 = .holding (v + 4096) x.address := by rw [hyc, Function.update_of_ne (by decide), hc1]
  have hx : x.address = (m.space.heap.mm.azAlloc 4096).2 ∧ (m.space.heap.mm.azAlloc 4096).2 ≠ 0 := by
    rw [hc1] at hcx
    split_ifs at hcx with hz
    exact ⟨(Handler.holding.injEq .. ▸ hcx).2, hz⟩
  have hy : y.address = x.address + 4096 := by
    obtain ⟨level, hs, -⟩ := h
    have hfits : ∀ used, used + 4096 ≤ 4096 * m.space.heap.mm.smallestBlock →
        (m.space.heap.mm.startAddr + used + 4096) % wordSize ≤ m.space.heap.mm.endAddr := by
      intro used hu
      rw [Nat.mod_eq_of_lt (by omega)]
      omega
    have htwice := MM.azAlloc_page_twice hs.pool.heap.coherent hfree (by omega) (hfits _ (by omega))
      (hfits _ (by rw [← hcm, hxu]; omega)) hx.2
    rw [hd0, hcm, htwice, if_neg (Nat.succ_ne_zero _), ← hx.1] at hdy
    exact (Handler.holding.injEq .. ▸ hdy).2
  obtain ⟨hw1, hec, hes, heu, heN⟩ := hdv.map_translate hd1 (by omega)
  have hev : (d.step (.map 1)).Valid := (hdv.map hd1).1
  set e := d.step (.map 1) with he
  have he0 : e.core 0 = .holding v y.address := by rw [hec, Function.update_of_ne (by decide), hd0]
  obtain ⟨hw0, -⟩ := hev.map_translate he0 (by omega)
  have hsib : (e.step (.map 0)).translate (v + 4096) = some (pa d.space.gMemoryStart x.address + (v + 4096) % 2 ^ 12) :=
    hev.map_sibling he0 (by omega) (by omega) hw1
  have hfault : a.Legal (.fault 0 v) := by
    refine ⟨?_, .inl (by omega), hnone⟩
    rw [ha, Machine.step]
    exact h0
  refine ⟨e.step (.map 0), pa d.space.gMemoryStart x.address, ?_, ?_, ?_⟩
  · exact (((((Relation.ReflTransGen.single ⟨.fault 1 (v + 4096), ⟨h1, .inl hlow, hnone'⟩, rfl⟩).tail
      ⟨.fault 0 v, hfault, rfl⟩).tail ⟨.alloc 1, ⟨_, hb1⟩, rfl⟩).tail ⟨.alloc 0, ⟨_, hc0⟩, rfl⟩).tail
      ⟨.map 1, ⟨_, _, hd1⟩, rfl⟩).tail ⟨.map 0, ⟨_, _, he0⟩, rfl⟩
  · obtain ⟨level, hs, -⟩ := hdv
    have hpx := hs.pool.pa_eq (x := x) (hyh ▸ List.mem_cons_of_mem _ (hxh ▸ List.mem_cons_self))
    have hpy := hs.pool.pa_eq (x := y) (hyh ▸ List.mem_cons_self)
    rw [hw0, hes, Option.some.injEq, hpx.2, hpy.2, hy]
    have hcanon := hpx.1
    generalize configPageOffset = offset at *
    omega
  · rw [hsib, Option.some.injEq]
    omega

end Swapped

def host : Proxy := ⟨0, 0, 0, 0, 0, fun a => if a = 0 then none else some a⟩

theorem host_linear {pa : ℕ} (h : pa < wordSize) (count : ℕ) : host.Linear pa count where
  null := rfl
  bytes := by
    intro hne i _
    have hva : host.getVa pa = pa := by
      rw [Proxy.getVa, if_neg hne, if_pos (show host.unikernelsMemBasePa ≤ pa from Nat.zero_le pa)]
      change (0 + (pa + (wordSize - 0))) % wordSize = pa
      rw [Nat.zero_add, Nat.sub_zero, Nat.add_mod_right, Nat.mod_eq_of_lt h]
    rw [hva]
    exact if_neg (by omega)

def emptySlot : IoPacket := ⟨0, 0, 0, 0, 0, 0, 0, 0, 0, 0⟩

theorem knl_shared_contiguous : knl.Contiguous 0xFFFF800040000F00 8192 := by
  intro i hi hd
  obtain rfl | rfl : i = 255 ∨ i = 4351 := by omega
  · exact ⟨135291473919, by decide +kernel, by decide +kernel⟩
  · exact ⟨135291478015, by decide +kernel, by decide +kernel⟩

theorem knl_shared_start : knl.StartAgrees 0xFFFF800040000F00 :=
  ⟨by decide, fun _ => ⟨by decide, by decide +kernel⟩⟩

theorem knl_shared_mapped : ∀ i < 8192, knl.translate (0xFFFF800040000F00 + i) = some (135291473664 + i) :=
  (translate_linear_iff (by decide)).mpr ⟨by decide +kernel, knl_shared_contiguous⟩

theorem knl_offload_shared_touched : ∃ s pkt,
    knl.space.sysOffIo .read 1 300 3 0xFFFF800040000F00 8192 emptySlot = some (s, pkt) ∧
      (host.offloadLocalProxy pkt).map host.touched = some (knl.bytes 0xFFFF800040000F00 8192) := by
  have hmap : ∀ i < 8192, Canonical (0xFFFF800040000F00 + i) ∧ knl.translate (0xFFFF800040000F00 + i) ≠ none := by
    intro i hi
    refine ⟨.inr (by simp only [configHighHalfLimit, wordSize]; omega), ?_⟩
    rw [knl_shared_mapped i hi]
    exact Option.some_ne_none _
  obtain ⟨s, pkt, hreq, h⟩ := offloadIo_touches_buffer_iff (Nat.dvd_mul_left _ _) (Nat.dvd_mul_left _ _)
    (by decide) (by decide) (by decide) (.refl : Relation.ReflTransGen Step knl knl) .read 1 300 3 emptySlot
    (by decide) (by decide) hmap
  refine ⟨s, pkt, hreq, (h host ?_).mpr ⟨knl_shared_start, knl_shared_contiguous⟩⟩
  rw [Space.sysOffIo_eq _ _ _ _ _ _ _ (by decide), Option.some.injEq, Prod.mk.injEq] at hreq
  rw [← hreq.2]
  exact host_linear (by decide) 8192

theorem knl_offload_read_misses_page : ∃ m, Relation.ReflTransGen Step knl m ∧
    (∀ i < 4097, Canonical (0x40000000 + i) ∧ m.translate (0x40000000 + i) ≠ none) ∧
    ∃ s pkt, m.space.sysOffRead 1 300 3 0x40000000 4097 emptySlot = some (s, pkt) ∧
      host.Linear pkt.param2 4097 ∧
      (host.offloadLocalProxy pkt).map host.touched ≠ some (m.bytes 0x40000000 4097) := by
  obtain ⟨m, p, hr, hw, hw'⟩ := @Valid.swapped knl 0x40000000 knl_valid rfl rfl (by decide) (by decide)
    knl_unmapped (by decide +kernel) knl_room (by decide +kernel) (by decide +kernel) (by decide +kernel)
  have hv := knl_valid.run hr
  have hpage : ∀ i < 4096, m.translate (0x40000000 + i) = some (p + 4096 + i) :=
    (translate_linear_iff (by decide)).mpr ⟨hw, fun i hi hd => by omega⟩
  have hmap : ∀ i < 4097, Canonical (0x40000000 + i) ∧ m.translate (0x40000000 + i) ≠ none := by
    intro i hi
    refine ⟨.inl (by omega), ?_⟩
    rcases Nat.lt_succ_iff_lt_or_eq.mp hi with hlt | rfl
    · rw [hpage i hlt]
      exact Option.some_ne_none _
    · rw [hw']
      exact Option.some_ne_none _
  obtain ⟨s, pkt, hreq, h⟩ := hv.sysOffIo_touches_iff .read 1 300 3 emptySlot (by decide) (by decide) hmap
  refine ⟨m, hr, hmap, s, pkt, hreq, ?_⟩
  have hlin : host.Linear pkt.param2 4097 := by
    obtain ⟨level, hs, -⟩ := hv
    have hd : m.space.Demand 0x40000000 := Space.demand_of_low (by decide)
    rw [Space.sysOffIo_eq _ _ _ _ _ _ _ (by decide), Option.some.injEq, Prod.mk.injEq] at hreq
    rw [← hreq.2]
    change host.Linear (m.space.getPa 0x40000000).2 4097
    rw [hs.getPa_mapped hd (by decide) (by decide) hw]
    exact host_linear (hs.mapped_bounds hd hw).2 4097
  refine ⟨hlin, fun htouched => ?_⟩
  obtain ⟨q, hq, hq'⟩ := ((h host hlin).mp htouched).2 4095 (by decide) (by decide)
  rw [hpage 4095 (by decide), Option.some.injEq] at hq
  change m.translate (0x40000000 + 4096) = _ at hq'
  rw [hw', Option.some.injEq] at hq'
  omega

end Machine
end Azalea
