import Azalea.Config
import Azalea.Foundation.Run
import Mathlib.Data.Fintype.Card

namespace Azalea

def maxPapicId : ℕ := 600

def idleThreadAddressVa : ℕ := 0x800000 + configPageOffset

def bootStack (rax : ℕ) : ℕ := ((rax + 1) <<< 12 + idleThreadAddressVa) % wordSize

namespace ApicId

inductive Pc where
  | before
  | locked
  | assigned
  | unlocked
  | returned (rax : ℕ)
deriving DecidableEq, Repr

end ApicId

structure ApicId (ι : Type*) where
  apicLock : Bool
  listApicId : ℕ → ℤ
  currCpu : ℕ
  pc : ι → ApicId.Pc

namespace ApicId
variable {ι : Type*}

-- static int list_apic_id[MAX_PAPIC_ID] = {-1, } sets the first element only
def start : ApicId ι := ⟨false, fun i => if i = 0 then -1 else 0, 0, fun _ => .before⟩

variable [DecidableEq ι]

inductive Step (apicid : ι → ℕ) (alone : ApicId ι → ι → Prop) (s : ApicId ι) : ApicId ι → Prop
  | lock (c : ι) : s.pc c = .before → s.apicLock = false →
      Step apicid alone s { s with apicLock := true, pc := Function.update s.pc c .locked }
  | assign (c : ι) : s.pc c = .locked → alone s c →
      Step apicid alone s { s with
        listApicId := Function.update s.listApicId (apicid c) s.currCpu
        currCpu := s.currCpu + 1
        pc := Function.update s.pc c .assigned }
  | unlock (c : ι) : s.pc c = .assigned →
      Step apicid alone s { s with apicLock := false, pc := Function.update s.pc c .unlocked }
  | read (c : ι) : s.pc c = .unlocked →
      Step apicid alone s { s with pc := Function.update s.pc c (.returned s.currCpu) }

def Alone (s : ApicId ι) (c : ι) : Prop := ∀ d, d ≠ c → s.pc d ≠ .assigned ∧ s.pc d ≠ .unlocked

def Numbered (s : ApicId ι) (c : ι) : Prop := s.pc c ≠ .before ∧ s.pc c ≠ .locked

structure Order (apicid : ι → ℕ) (s : ApicId ι) (order : List ι) : Prop where
  nodup : order.Nodup
  count : s.currCpu = order.length
  mem : ∀ {c}, c ∈ order ↔ s.Numbered c
  entry : ∀ {k : ℕ} {c}, order[k]? = some c → s.listApicId (apicid c) = k

namespace Order
variable {apicid : ι → ℕ} {alone : ApicId ι → ι → Prop} {s s' : ApicId ι} {order : List ι} {c d : ι} {p : Pc} {k : ℕ}

omit [DecidableEq ι] in
theorem start : (start : ApicId ι).Order apicid [] where
  nodup := List.nodup_nil
  count := rfl
  mem := by simp [Numbered, ApicId.start]
  entry := by simp

theorem move (h : s.Order apicid order) (b : Bool) (hp : p ≠ .before ∧ p ≠ .locked ↔ s.Numbered c) :
    Order apicid { s with apicLock := b, pc := Function.update s.pc c p } order := by
  refine ⟨h.nodup, h.count, ?_, h.entry⟩
  intro d
  rw [h.mem]
  rcases eq_or_ne d c with rfl | hd
  · simpa [Numbered] using hp.symm
  · simp [Numbered, hd]

omit [DecidableEq ι] in
theorem not_mem (h : s.Order apicid order) (hc : s.pc c = .locked) : c ∉ order := fun hm => (h.mem.mp hm).2 hc

omit [DecidableEq ι] in
theorem append_cases (h : s.Order apicid order) (hc : s.pc c = .locked) (hk : (order ++ [c])[k]? = some d) :
    (d ≠ c ∧ order[k]? = some d) ∨ (d = c ∧ k = order.length) := by
  rw [List.getElem?_append] at hk
  split at hk
  · refine .inl ⟨?_, hk⟩
    rintro rfl
    exact h.not_mem hc (List.mem_of_getElem? hk)
  · next hlen =>
    obtain ⟨hk0, hget⟩ := List.getElem?_eq_some_iff.mp hk
    rw [List.length_singleton] at hk0
    rw [List.getElem_singleton] at hget
    exact .inr ⟨hget.symm, by omega⟩

theorem assign (hid : Function.Injective apicid) (h : s.Order apicid order) (hc : s.pc c = .locked) :
    Order apicid { s with
      listApicId := Function.update s.listApicId (apicid c) s.currCpu
      currCpu := s.currCpu + 1
      pc := Function.update s.pc c .assigned } (order ++ [c]) := by
  constructor
  · exact List.nodup_append.mpr ⟨h.nodup, List.nodup_singleton c, by
      rintro a ha b hb rfl
      exact h.not_mem hc (List.mem_singleton.mp hb ▸ ha)⟩
  · rw [List.length_append, ← h.count]
    rfl
  · intro d
    rw [List.mem_append, List.mem_singleton, h.mem]
    rcases eq_or_ne d c with rfl | hd
    · simp [Numbered]
    · simp [Numbered, hd]
  · intro k d hk
    rcases h.append_cases hc hk with ⟨hd, hold⟩ | ⟨rfl, rfl⟩
    · simpa [hid.ne hd] using h.entry hold
    · simp [h.count]

theorem step (hid : Function.Injective apicid) (h : s.Order apicid order) (hs : Step apicid alone s s') :
    ∃ order', s'.Order apicid order' := by
  cases hs with
  | lock c hc _ => exact ⟨order, h.move true (by simp [Numbered, hc])⟩
  | assign c hc _ => exact ⟨order ++ [c], h.assign hid hc⟩
  | unlock c hc => exact ⟨order, h.move false (by simp [Numbered, hc])⟩
  | read c hc => exact ⟨order, h.move s.apicLock (by simp [Numbered, hc])⟩

theorem run (hid : Function.Injective apicid) (hr : Relation.ReflTransGen (Step apicid alone) ApicId.start s) :
    ∃ order, s.Order apicid order := by
  refine @Run.invariant _ _ (fun s : ApicId ι => ∃ order, s.Order apicid order) _ _ ?_ ⟨[], start⟩ hr
  rintro a b ⟨order, h⟩ hs
  exact h.step hid hs

omit [DecidableEq ι] in
theorem length_le (hid : Function.Injective apicid) (hlt : ∀ c, apicid c < maxPapicId) (h : s.Order apicid order) :
    order.length ≤ maxPapicId := by
  have hmap : (order.map apicid).Nodup := h.nodup.map hid
  have hsub : order.map apicid ⊆ List.range maxPapicId := by
    intro n hn
    obtain ⟨c, -, rfl⟩ := List.mem_map.mp hn
    exact List.mem_range.mpr (hlt c)
  simpa using (hmap.subperm hsub).length_le

omit [DecidableEq ι] in
theorem place (h : s.Order apicid order) (hc : s.Numbered c) :
    ∃ k : ℕ, k < order.length ∧ order[k]? = some c ∧ s.listApicId (apicid c) = k := by
  obtain ⟨k, hk⟩ := List.mem_iff_getElem?.mp (h.mem.mpr hc)
  exact ⟨k, (List.getElem?_eq_some_iff.mp hk).1, hk, h.entry hk⟩

omit [DecidableEq ι] in
theorem listApicId_inj (h : s.Order apicid order) (hc : s.Numbered c) (hd : s.Numbered d)
    (he : s.listApicId (apicid c) = s.listApicId (apicid d)) : c = d := by
  obtain ⟨k, -, hk, hck⟩ := h.place hc
  obtain ⟨j, -, hj, hdj⟩ := h.place hd
  obtain rfl : k = j := by exact_mod_cast hck.symm.trans (he.trans hdj)
  exact Option.some_inj.mp (hk.symm.trans hj)

end Order

structure Inv (apicid : ι → ℕ) (s : ApicId ι) (order : List ι) : Prop extends s.Order apicid order where
  last : ∀ {k c}, order[k]? = some c → s.pc c = .assigned ∨ s.pc c = .unlocked → k + 1 = order.length
  value : ∀ {k c rax}, order[k]? = some c → s.pc c = .returned rax → rax = k + 1

namespace Inv
variable {apicid : ι → ℕ} {s s' : ApicId ι} {order : List ι} {c d : ι} {p : Pc}

omit [DecidableEq ι] in
theorem start : (start : ApicId ι).Inv apicid [] := { Order.start with last := by simp, value := by simp }

theorem move (h : s.Inv apicid order) (b : Bool) (hp : p ≠ .before ∧ p ≠ .locked ↔ s.Numbered c)
    (hlast : ∀ {k}, order[k]? = some c → p = .assigned ∨ p = .unlocked → k + 1 = order.length)
    (hvalue : ∀ {k rax}, order[k]? = some c → p = .returned rax → rax = k + 1) :
    Inv apicid { s with apicLock := b, pc := Function.update s.pc c p } order := by
  refine { h.toOrder.move b hp with last := ?_, value := ?_ }
  · intro k d hk hd
    rcases eq_or_ne d c with rfl | hne
    · exact hlast hk (by simpa using hd)
    · exact h.last hk (by simpa [hne] using hd)
  · intro k d rax hk hd
    rcases eq_or_ne d c with rfl | hne
    · exact hvalue hk (by simpa using hd)
    · exact h.value hk (by simpa [hne] using hd)

theorem lock (h : s.Inv apicid order) (hc : s.pc c = .before) :
    Inv apicid { s with apicLock := true, pc := Function.update s.pc c .locked } order := by
  apply h.move
  · simp [Numbered, hc]
  · intro k _ hp
    simp at hp
  · intro k rax _ hp
    simp at hp

theorem unlock (h : s.Inv apicid order) (hc : s.pc c = .assigned) :
    Inv apicid { s with apicLock := false, pc := Function.update s.pc c .unlocked } order := by
  apply h.move
  · simp [Numbered, hc]
  · intro k hk _
    exact h.last hk (.inl hc)
  · intro k rax _ hp
    simp at hp

theorem read (h : s.Inv apicid order) (hc : s.pc c = .unlocked) :
    Inv apicid { s with pc := Function.update s.pc c (.returned s.currCpu) } order := by
  apply h.move
  · simp [Numbered, hc]
  · intro k _ hp
    simp at hp
  · intro k rax hk hp
    rw [← Pc.returned.inj hp, h.count]
    exact (h.last hk (.inr hc)).symm

theorem assign (hid : Function.Injective apicid) (h : s.Inv apicid order) (hc : s.pc c = .locked) (ha : s.Alone c) :
    Inv apicid { s with
      listApicId := Function.update s.listApicId (apicid c) s.currCpu
      currCpu := s.currCpu + 1
      pc := Function.update s.pc c .assigned } (order ++ [c]) := by
  refine { h.toOrder.assign hid hc with last := ?_, value := ?_ }
  · intro k d hk hpc
    rcases h.append_cases hc hk with ⟨hd, hold⟩ | ⟨rfl, rfl⟩
    · simp only [Function.update_of_ne hd] at hpc
      rcases hpc with hpc | hpc
      · exact absurd hpc (ha d hd).1
      · exact absurd hpc (ha d hd).2
    · rw [List.length_append]
      rfl
  · intro k d rax hk hpc
    rcases h.append_cases hc hk with ⟨hd, hold⟩ | ⟨rfl, rfl⟩
    · exact h.value hold (by simpa [hd] using hpc)
    · simp at hpc

theorem step (hid : Function.Injective apicid) (h : s.Inv apicid order) (hs : Step apicid Alone s s') :
    ∃ order', s'.Inv apicid order' := by
  cases hs with
  | lock c hc _ => exact ⟨order, h.lock hc⟩
  | assign c hc ha => exact ⟨order ++ [c], h.assign hid hc ha⟩
  | unlock c hc => exact ⟨order, h.unlock hc⟩
  | read c hc => exact ⟨order, h.read hc⟩

end Inv

structure Distinct (apicid : ι → ℕ) (s : ApicId ι) : Prop where
  logical : ∀ {c rax}, s.pc c = .returned rax → (rax : ℤ) = s.listApicId (apicid c) + 1
  values : ∀ {c d v w}, s.pc c = .returned v → s.pc d = .returned w → c ≠ d → v ≠ w
  bootStacks : ∀ {c d v w}, s.pc c = .returned v → s.pc d = .returned w → c ≠ d → bootStack v ≠ bootStack w

omit [DecidableEq ι] in
theorem Inv.distinct {apicid : ι → ℕ} {s : ApicId ι} {order : List ι} (hid : Function.Injective apicid)
    (hlt : ∀ c, apicid c < maxPapicId) (h : s.Inv apicid order) : s.Distinct apicid := by
  have hplace : ∀ {c rax}, s.pc c = .returned rax → ∃ k, order[k]? = some c ∧ rax = k + 1 ∧ k < maxPapicId := by
    intro c rax hc
    obtain ⟨k, hlen, hk, -⟩ := h.place (by simp [Numbered, hc] : s.Numbered c)
    exact ⟨k, hk, h.value hk hc, hlen.trans_le (h.length_le hid hlt)⟩
  constructor
  · intro c rax hc
    obtain ⟨k, hk, rfl, -⟩ := hplace hc
    rw [h.entry hk]
    rfl
  · intro c d v w hc hd hne
    obtain ⟨k, hk, rfl, -⟩ := hplace hc
    obtain ⟨j, hj, rfl, -⟩ := hplace hd
    intro he
    obtain rfl : k = j := Nat.succ_injective he
    exact hne (Option.some_inj.mp (hk.symm.trans hj))
  · intro c d v w hc hd hne
    obtain ⟨k, hk, rfl, hkm⟩ := hplace hc
    obtain ⟨j, hj, rfl, hjm⟩ := hplace hd
    intro he
    have hkj : k = j := by
      simp only [bootStack, Nat.shiftLeft_eq, idleThreadAddressVa, configPageOffset, wordSize, maxPapicId] at he hkm hjm
      omega
    subst hkj
    exact hne (Option.some_inj.mp (hk.symm.trans hj))

theorem run_distinct {apicid : ι → ℕ} (hid : Function.Injective apicid) (hlt : ∀ c, apicid c < maxPapicId)
    {s : ApicId ι} (hr : Relation.ReflTransGen (Step apicid Alone) start s) : s.Distinct apicid := by
  have hinv : ∃ order, s.Inv apicid order := by
    refine @Run.invariant _ _ (fun s : ApicId ι => ∃ order, s.Inv apicid order) _ _ ?_ ⟨[], Inv.start⟩ hr
    rintro a b ⟨order, h⟩ hs
    exact h.step hid hs
  obtain ⟨order, h⟩ := hinv
  exact h.distinct hid hlt

theorem exists_all_returned [Fintype ι] (apicid : ι → ℕ) : ∃ s : ApicId ι,
    Relation.ReflTransGen (Step apicid fun _ _ => True) start s ∧ ∀ c, ∃ rax, s.pc c = .returned rax := by
  have hsome : ∀ cores : Finset ι, ∃ s : ApicId ι, Relation.ReflTransGen (Step apicid fun _ _ => True) start s ∧
      s.apicLock = false ∧ (∀ c ∈ cores, ∃ rax, s.pc c = .returned rax) ∧ ∀ c ∉ cores, s.pc c = .before := by
    intro cores
    induction cores using Finset.induction_on with
    | empty => exact ⟨start, .refl, rfl, by simp, fun c _ => rfl⟩
    | insert c cores hnot ih =>
      obtain ⟨s, hrun, hlock, hin, hout⟩ := ih
      refine ⟨_, hrun.trans <| .head (.lock c (hout c hnot) hlock) <| .head (.assign c (by simp) trivial) <|
        .head (.unlock c (by simp)) <| .head (.read c (by simp)) .refl, rfl, ?_, ?_⟩
      · intro d hd
        rcases eq_or_ne d c with rfl | hne
        · simp
        · simpa [hne] using hin d (Finset.mem_of_mem_insert_of_ne hd hne)
      · intro d hd
        rw [Finset.mem_insert, not_or] at hd
        simpa [hd.1] using hout d hd.2
  obtain ⟨s, hrun, -, hall, -⟩ := hsome Finset.univ
  exact ⟨s, hrun, fun c => hall c (Finset.mem_univ c)⟩

def twoApicIds (c : Bool) : ℕ := cond c 1 0

theorem twoApicIds_injective : Function.Injective twoApicIds := by
  intro c d h
  cases c <;> cases d <;> first | rfl | cases h

theorem one_after_another_distinct : ∃ s : ApicId Bool, Relation.ReflTransGen (Step twoApicIds Alone) start s ∧
    (s.pc false = .returned 1 ∧ s.pc true = .returned 2) ∧ s.Distinct twoApicIds := by
  obtain ⟨s, hrun, hpc⟩ : ∃ s : ApicId Bool, Relation.ReflTransGen (Step twoApicIds Alone) start s ∧
      s.pc false = .returned 1 ∧ s.pc true = .returned 2 := by
    refine ⟨_, .head (.lock false rfl rfl) <| .head (.assign false rfl ?_) <| .head (.unlock false rfl) <|
      .head (.read false rfl) <| .head (.lock true rfl rfl) <| .head (.assign true rfl ?_) <|
      .head (.unlock true rfl) <| .head (.read true rfl) .refl, rfl, rfl⟩
    · intro d hd
      cases d with
      | false => exact absurd rfl hd
      | true => decide
    · intro d hd
      cases d with
      | false => decide
      | true => exact absurd rfl hd
  exact ⟨s, hrun, hpc, run_distinct twoApicIds_injective (fun c => by cases c <;> decide) hrun⟩

theorem late_read_same_stack : ∃ s : ApicId Bool,
    Relation.ReflTransGen (Step twoApicIds fun _ _ => True) start s ∧
      (s.pc false = .returned 2 ∧ s.pc true = .returned 2) ∧ s.listApicId (twoApicIds false) = 0 ∧
      ¬ s.Distinct twoApicIds := by
  refine ⟨_, .head (.lock false rfl rfl) <| .head (.assign false rfl trivial) <| .head (.unlock false rfl) <|
    .head (.lock true rfl rfl) <| .head (.assign true rfl trivial) <| .head (.unlock true rfl) <|
    .head (.read false rfl) <| .head (.read true rfl) .refl, ⟨rfl, rfl⟩, rfl, fun h => ?_⟩
  exact h.values (c := false) (d := true) rfl rfl (by decide) rfl

end ApicId

end Azalea
