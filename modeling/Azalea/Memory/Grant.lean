import Azalea.Memory.Canonical

namespace Azalea
namespace Heap
open Dyadic

def clear (h : Heap) (size : ℕ) (mem : ℕ → ℕ) : ℕ → ℕ := fun a =>
  let address := (h.mm.azAlloc size).2
  if address ≠ 0 ∧ address ≤ a ∧ a < address + h.mm.alignBuddyBlock size then 0 else mem a

structure Grants (h : Heap) (size : ℕ) (x : Handed) : Prop where
  address : x.address = (h.mm.azAlloc size).2
  request : x.request = size
  enough : size ≤ x.size
  handed : (h.call (.alloc size)).handed = x :: h.handed
  fresh : ∀ y ∈ h.handed, x.address + x.size ≤ y.address ∨ y.address + y.size ≤ x.address

namespace Valid
variable {h : Heap} {size : ℕ} (v : h.Valid)
include v

theorem address_pos {x : Handed} (hx : x ∈ h.handed) : x.address ≠ 0 := by
  have hfit := (v.fit x hx).address
  have hstart := v.start
  omega

theorem stop_lt {x : Handed} (hx : x ∈ h.handed) : x.address + x.size < wordSize := by
  have hfit := v.fit x hx
  have hinside := v.block_inside hx
  have hroom := v.room
  rw [Block.stop_eq] at hinside
  rw [hfit.address, hfit.size]
  omega

theorem call_granted (hs : size ≤ 2 ^ 30) (hne : (h.mm.azAlloc size).2 ≠ 0) :
    h.Grants size ⟨(h.mm.azAlloc size).2, h.mm.alignBuddyBlock size, size⟩ := by
  have hv : (h.call (.alloc size)).Valid := v.alloc (.inr hs)
  have hcall : (h.call (.alloc size)).handed =
      ⟨(h.mm.azAlloc size).2, h.mm.alignBuddyBlock size, size⟩ :: h.handed := if_neg hne
  refine ⟨rfl, rfl, ?_, hcall, fun y hy => ?_⟩
  · exact (hv.fit _ (by rw [hcall]; exact List.mem_cons_self)).request
  · have hdisjoint := hv.disjoint
    rw [hcall, List.pairwise_cons] at hdisjoint
    exact hdisjoint.1 y hy

theorem call_refused (hs : size ≤ 2 ^ 30) (h0 : (h.mm.azAlloc size).2 = 0) : h.call (.alloc size) = h := by
  have hspec := MM.azAlloc_spec v.coherent (.inr hs)
  rw [call]
  generalize h.mm.azAlloc size = r at hspec h0
  cases hspec with
  | refused _ => rfl
  | granted mm' b hcoh hframe =>
    have hin : b.first < mm'.smallestBlock := MM.first_lt_smallest (hcoh.inside (.inr rfl))
    rw [hframe.samePool.smallestBlock] at hin
    have hroom := v.room
    have hstart := v.start
    simp only [wordSize] at hroom h0
    omega

end Valid

theorem tiny_valid : tiny.Valid := by
  obtain ⟨hlow, hhigh⟩ := @MM.va_kernel_bounds 0x140000000 (by decide)
  exact MM.initArea_valid _ _ hlow hhigh (by decide) (by decide +kernel)

def crowded : Heap := ((tiny.call (.alloc (2 ^ 20))).call (.alloc (2 ^ 19))).call (.alloc (2 ^ 18))

theorem crowded_valid : crowded.Valid :=
  ((tiny_valid.alloc (.inr (by decide))).alloc (.inr (by decide))).alloc (.inr (by decide))

end Heap
end Azalea
