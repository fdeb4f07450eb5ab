import Azalea.Utility.Memcpy

namespace Azalea
namespace Elf

open Bytes (Within Apart move load)

@[simp] def linuxStartAddress : QWORD := 0x400000

@[simp] def sizeofPhdr : ℕ := 56

@[simp] def ptLoad : ℕ := 1

structure Ehdr where
  eIdent : ℕ → ℕ
  eType : ℕ
  eMachine : ℕ
  eEntry : ℕ
  ePhoff : ℕ
  ePhnum : ℕ

structure Phdr where
  pType : ℕ
  pOffset : ℕ
  pPaddr : ℕ
  pFilesz : ℕ
  pMemsz : ℕ
deriving DecidableEq, Repr

def field (mem : Bytes.Mem 64) (a : QWORD) (offset size : ℕ) : ℕ := load mem (a + .ofNat 64 offset) size

def ehdr (mem : Bytes.Mem 64) (a : QWORD) : Ehdr where
  eIdent i := field mem a i 1
  eType := field mem a 16 2
  eMachine := field mem a 18 2
  eEntry := field mem a 24 8
  ePhoff := field mem a 32 8
  ePhnum := field mem a 56 2

def phdr (mem : Bytes.Mem 64) (a : QWORD) : Phdr where
  pType := field mem a 0 4
  pOffset := field mem a 8 8
  pPaddr := field mem a 24 8
  pFilesz := field mem a 32 8
  pMemsz := field mem a 40 8

def Ehdr.Accepted (hdr : Ehdr) : Prop :=
  hdr.eIdent 0 = 0x7F ∧ hdr.eIdent 1 = 0x45 ∧ hdr.eIdent 2 = 0x4C ∧ hdr.eIdent 3 = 0x46 ∧ hdr.eIdent 4 = 2 ∧
    (hdr.eIdent 7 = 3 ∨ hdr.eIdent 7 = 0) ∧ hdr.eType = 2 ∧ hdr.eMachine = 62

instance (hdr : Ehdr) : Decidable hdr.Accepted := inferInstanceAs (Decidable (_ ∧ _))

structure State where
  mem : Bytes.Mem 64
  elfLoadEntry : QWORD
  elfLoadSize : QWORD

def segment (mem : Bytes.Mem 64) (phdrs : QWORD) (phI : ℕ) : Phdr := phdr mem (phdrs + .ofNat 64 (sizeofPhdr * phI))

def Phdr.paddr (p : Phdr) : QWORD := .ofNat 64 p.pPaddr

def Phdr.source (p : Phdr) (elfFilePtr : QWORD) : QWORD := elfFilePtr + .ofNat 64 p.pOffset

def Phdr.Loads (p : Phdr) : Prop := p.pType = ptLoad

instance (p : Phdr) : Decidable p.Loads := inferInstanceAs (Decidable (_ = _))

def loadSegment (elfFilePtr phdrs : QWORD) (phI : ℕ) (s : State) : State :=
  let p := segment s.mem phdrs phI
  if ¬ p.Loads then s
  else { s with
    elfLoadSize := p.paddr + .ofNat 64 p.pMemsz - linuxStartAddress
    mem := lkMemcpy s.mem p.paddr (p.source elfFilePtr) (toInt p.pFilesz) }

def loadSegments (elfFilePtr phdrs : QWORD) (s : State) : ℕ → State
  | 0 => s
  | n + 1 => loadSegment elfFilePtr phdrs n (loadSegments elfFilePtr phdrs s n)

def elfLoad (elfFilePtr : QWORD) (s : State) : State :=
  if elfFilePtr = 0 then s
  else
    let hdr := ehdr s.mem elfFilePtr
    if ¬ hdr.Accepted then s
    else loadSegments elfFilePtr (elfFilePtr + .ofNat 64 hdr.ePhoff)
      { s with elfLoadEntry := .ofNat 64 hdr.eEntry } hdr.ePhnum

structure Loadable (mem : Bytes.Mem 64) (elfFilePtr phdrs : QWORD) (n : ℕ) : Prop where
  sizes : ∀ i < n, (segment mem phdrs i).Loads →
    (segment mem phdrs i).pFilesz ≤ (segment mem phdrs i).pMemsz ∧ (segment mem phdrs i).pMemsz < 2 ^ 31
  disjoint : ∀ i < n, ∀ j < n, i ≠ j → (segment mem phdrs i).Loads → (segment mem phdrs j).Loads →
    Apart (segment mem phdrs i).paddr (segment mem phdrs i).pMemsz
      (segment mem phdrs j).paddr (segment mem phdrs j).pMemsz
  table : ∀ i < n, (segment mem phdrs i).Loads →
    Apart (segment mem phdrs i).paddr (segment mem phdrs i).pMemsz phdrs (sizeofPhdr * n)
  contents : ∀ i < n, ∀ j < n, (segment mem phdrs i).Loads → (segment mem phdrs j).Loads →
    Apart (segment mem phdrs i).paddr (segment mem phdrs i).pMemsz
      ((segment mem phdrs j).source elfFilePtr) (segment mem phdrs j).pFilesz

variable {mem mem' : Bytes.Mem 64} {elfFilePtr phdrs x : QWORD} {n N i : ℕ} {s : State}

theorem phdr_congr {a : QWORD} (h : ∀ x, Within a sizeofPhdr x → mem x = mem' x) : phdr mem a = phdr mem' a := by
  have hf (offset size : ℕ) (ho : offset + size ≤ sizeofPhdr) : field mem a offset size = field mem' a offset size :=
    Bytes.load_congr_within h ho (by decide)
  simp only [phdr, hf 0 4 (by decide), hf 8 8 (by decide), hf 24 8 (by decide), hf 32 8 (by decide),
    hf 40 8 (by decide)]

theorem segment_congr (h : ∀ x, Within phdrs (sizeofPhdr * N) x → mem x = mem' x) (hi : i < N)
    (hN : sizeofPhdr * N ≤ 2 ^ 64) : segment mem phdrs i = segment mem' phdrs i := by
  simp only [sizeofPhdr] at hN
  refine phdr_congr fun x hx => h x ?_
  obtain ⟨hlow, hhigh⟩ := (Bytes.within_add_left (by simp only [sizeofPhdr]; omega)).1 hx
  simp only [sizeofPhdr] at hlow hhigh
  rw [Within, sizeofPhdr]
  omega

structure Loaded (mem : Bytes.Mem 64) (elfFilePtr phdrs : QWORD) (n : ℕ) (mem' : Bytes.Mem 64) : Prop where
  file : ∀ i < n, (segment mem phdrs i).Loads → ∀ x,
    Within (segment mem phdrs i).paddr (segment mem phdrs i).pFilesz x →
      mem' x = mem ((segment mem phdrs i).source elfFilePtr + (x - (segment mem phdrs i).paddr))
  frame : ∀ x, (∀ i < n, (segment mem phdrs i).Loads →
    ¬ Within (segment mem phdrs i).paddr (segment mem phdrs i).pFilesz x) → mem' x = mem x

theorem Loaded.segment_eq (h : Loaded mem elfFilePtr phdrs n mem') (hl : Loadable mem elfFilePtr phdrs N) (hn : n ≤ N)
    (hi : i < N) (hN : sizeofPhdr * N ≤ 2 ^ 64) : segment mem' phdrs i = segment mem phdrs i := by
  refine (segment_congr (fun x hx => (h.frame x fun j hj ht hw => ?_).symm) hi hN).symm
  exact hl.table j (by omega) ht x (hw.mono (hl.sizes j (by omega) ht).1) hx

theorem Loaded.skip (h : Loaded mem elfFilePtr phdrs n mem') (ht : ¬ (segment mem phdrs n).Loads) :
    Loaded mem elfFilePtr phdrs (n + 1) mem' := by
  refine ⟨fun i hi hti x hx => ?_, fun x hx => h.frame x fun i hi => hx i (by omega)⟩
  have hne : i ≠ n := fun hin => ht (hin ▸ hti)
  exact h.file i (by omega) hti x hx

theorem Loaded.copy (h : Loaded mem elfFilePtr phdrs n mem') (hl : Loadable mem elfFilePtr phdrs N) (hn : n < N)
    (ht : (segment mem phdrs n).Loads) :
    Loaded mem elfFilePtr phdrs (n + 1) (move mem' (segment mem phdrs n).paddr
      ((segment mem phdrs n).source elfFilePtr) (segment mem phdrs n).pFilesz) := by
  constructor
  · intro i hi hti x hx
    rcases Nat.lt_succ_iff_lt_or_eq.1 hi with hlt | rfl
    · rw [Bytes.move_of_not_within, h.file i hlt hti x hx]
      intro hw
      exact hl.disjoint i (by omega) n hn (by omega) hti ht x (hx.mono (hl.sizes i (by omega) hti).1)
        (hw.mono (hl.sizes n hn ht).1)
    · rw [Bytes.move_of_within hx]
      refine h.frame _ fun j hj htj hw => ?_
      refine hl.contents j (by omega) i hn htj ht _ (hw.mono (hl.sizes j (by omega) htj).1) ?_
      rw [Within, add_sub_cancel_left]
      exact hx
  · intro x hx
    rw [Bytes.move_of_not_within (hx n (by omega) ht)]
    exact h.frame x fun i hi => hx i (by omega)

theorem loadSegment_skip (ht : ¬ (segment s.mem phdrs n).Loads) : loadSegment elfFilePtr phdrs n s = s :=
  if_pos ht

theorem loadSegment_copy (ht : (segment s.mem phdrs n).Loads) :
    (loadSegment elfFilePtr phdrs n s).mem = lkMemcpy s.mem (segment s.mem phdrs n).paddr
      ((segment s.mem phdrs n).source elfFilePtr) (toInt (segment s.mem phdrs n).pFilesz) := by
  simp only [loadSegment]
  rw [if_neg (not_not.2 ht)]

theorem loadSegment_mem (hl : Loadable mem elfFilePtr phdrs N) (hn : n < N) (hN : sizeofPhdr * N ≤ 2 ^ 64)
    (h : Loaded mem elfFilePtr phdrs n s.mem) :
    Loaded mem elfFilePtr phdrs (n + 1) (loadSegment elfFilePtr phdrs n s).mem := by
  have hseg := h.segment_eq hl hn.le hn hN
  by_cases ht : (segment mem phdrs n).Loads
  · obtain ⟨hle, hlt⟩ := hl.sizes n hn ht
    have happart := ((hl.contents n hn n hn ht ht).mono hle le_rfl).symm
    rw [loadSegment_copy (by rwa [hseg]), hseg, toInt_of_lt (Nat.lt_of_le_of_lt hle hlt),
      lkMemcpy_eq happart (by omega)]
    exact h.copy hl hn ht
  · rw [loadSegment_skip (by rwa [hseg])]
    exact h.skip ht

theorem loadSegments_mem (hs : s.mem = mem) (hl : Loadable mem elfFilePtr phdrs N) (hn : n ≤ N)
    (hN : sizeofPhdr * N ≤ 2 ^ 64) : Loaded mem elfFilePtr phdrs n (loadSegments elfFilePtr phdrs s n).mem := by
  induction n with
  | zero => exact ⟨fun i hi => absurd hi (Nat.not_lt_zero i), fun x _ => congrFun hs x⟩
  | succ n ih => exact loadSegment_mem hl hn hN (ih (by omega))

theorem loadSegments_entry : (loadSegments elfFilePtr phdrs s n).elfLoadEntry = s.elfLoadEntry := by
  induction n with
  | zero => rfl
  | succ n ih =>
    rw [loadSegments, loadSegment]
    split <;> exact ih

theorem loadSegments_skip (hs : s.mem = mem) (hl : Loadable mem elfFilePtr phdrs N) (hi : i < N)
    (hN : sizeofPhdr * N ≤ 2 ^ 64) (ht : ¬ (segment mem phdrs i).Loads) :
    loadSegments elfFilePtr phdrs s (i + 1) = loadSegments elfFilePtr phdrs s i := by
  have hseg := (loadSegments_mem hs hl hi.le hN).segment_eq hl hi.le hi hN
  rw [loadSegments, loadSegment_skip (by rwa [hseg])]

def Fresh (mem : Bytes.Mem 64) (phdrs : QWORD) (n : ℕ) : Prop :=
  ∀ i < n, (segment mem phdrs i).Loads → ∀ x,
    Within (segment mem phdrs i).paddr (segment mem phdrs i).pMemsz x → mem x = 0#8

theorem Loaded.bss (h : Loaded mem elfFilePtr phdrs n mem') (hl : Loadable mem elfFilePtr phdrs n)
    (hz : Fresh mem phdrs n) (hi : i < n) (ht : (segment mem phdrs i).Loads)
    (hx : Within (segment mem phdrs i).paddr (segment mem phdrs i).pMemsz x)
    (hf : ¬ Within (segment mem phdrs i).paddr (segment mem phdrs i).pFilesz x) : mem' x = 0#8 := by
  rw [h.frame x, hz i hi ht x hx]
  intro j hj htj hw
  by_cases hij : i = j
  · exact hf (hij ▸ hw)
  · exact hl.disjoint i hi j hj hij ht htj x hx (hw.mono (hl.sizes j hj htj).1)

def table (mem : Bytes.Mem 64) (elfFilePtr : QWORD) : QWORD := elfFilePtr + .ofNat 64 (ehdr mem elfFilePtr).ePhoff

def State.enter (s : State) (elfFilePtr : QWORD) : State :=
  { s with elfLoadEntry := .ofNat 64 (ehdr s.mem elfFilePtr).eEntry }

theorem State.enter_mem : (s.enter elfFilePtr).mem = s.mem := by rw [State.enter]

theorem elfLoad_accepted (hp : elfFilePtr ≠ 0) (ha : (ehdr s.mem elfFilePtr).Accepted) : elfLoad elfFilePtr s =
    loadSegments elfFilePtr (table s.mem elfFilePtr) (s.enter elfFilePtr) (ehdr s.mem elfFilePtr).ePhnum := by
  rw [elfLoad, if_neg hp]
  exact if_neg (not_not.2 ha)

def Phdr.byte (p : Phdr) (mem : Bytes.Mem 64) (elfFilePtr x : QWORD) : BYTE :=
  if Within p.paddr p.pFilesz x then mem (p.source elfFilePtr + (x - p.paddr)) else 0#8

structure Effect (s : State) (elfFilePtr phdrs : QWORD) (n : ℕ) (s' : State) : Prop where
  target : ∀ i < n, (segment s.mem phdrs i).Loads → ∀ x,
    Within (segment s.mem phdrs i).paddr (segment s.mem phdrs i).pMemsz x →
      s'.mem x = (segment s.mem phdrs i).byte s.mem elfFilePtr x
  outside : ∀ x, (∀ i < n, (segment s.mem phdrs i).Loads →
    ¬ Within (segment s.mem phdrs i).paddr (segment s.mem phdrs i).pMemsz x) → s'.mem x = s.mem x
  ignored : ∀ i < n, ¬ (segment s.mem phdrs i).Loads →
    loadSegments elfFilePtr phdrs (s.enter elfFilePtr) (i + 1) =
      loadSegments elfFilePtr phdrs (s.enter elfFilePtr) i
  entry : s'.elfLoadEntry = .ofNat 64 (ehdr s.mem elfFilePtr).eEntry

theorem loadSegments_effect (hl : Loadable s.mem elfFilePtr phdrs n) (hz : Fresh s.mem phdrs n) (hn : n < 2 ^ 16) :
    Effect s elfFilePtr phdrs n (loadSegments elfFilePtr phdrs (s.enter elfFilePtr) n) := by
  have hN : sizeofPhdr * n ≤ 2 ^ 64 := by simp only [sizeofPhdr]; omega
  have hmem : Loaded s.mem elfFilePtr phdrs n (loadSegments elfFilePtr phdrs (s.enter elfFilePtr) n).mem :=
    loadSegments_mem State.enter_mem hl le_rfl hN
  constructor
  · intro i hi ht x hx
    unfold Phdr.byte
    split
    · next hf => exact hmem.file i hi ht x hf
    · next hf => exact hmem.bss hl hz hi ht hx hf
  · exact fun x hx => hmem.frame x fun i hi ht hw => hx i hi ht (hw.mono (hl.sizes i hi ht).1)
  · exact fun i hi ht => loadSegments_skip State.enter_mem hl hi hN ht
  · rw [loadSegments_entry, State.enter]

theorem elfLoad_effect (s : State) (elfFilePtr : QWORD) (hp : elfFilePtr ≠ 0)
    (ha : (ehdr s.mem elfFilePtr).Accepted)
    (hl : Loadable s.mem elfFilePtr (table s.mem elfFilePtr) (ehdr s.mem elfFilePtr).ePhnum)
    (hz : Fresh s.mem (table s.mem elfFilePtr) (ehdr s.mem elfFilePtr).ePhnum) :
    Effect s elfFilePtr (table s.mem elfFilePtr) (ehdr s.mem elfFilePtr).ePhnum (elfLoad elfFilePtr s) := by
  have hn : (ehdr s.mem elfFilePtr).ePhnum < (2 ^ 8) ^ 2 := Bytes.load_lt ..
  rw [elfLoad_accepted hp ha]
  exact loadSegments_effect hl hz hn

def tinyElf : List BYTE :=
  [0x7F, 0x45, 0x4C, 0x46, 2, 1, 1, 0, 0, 0, 0, 0, 0, 0, 0, 0, 2, 0, 0x3E, 0, 1, 0, 0, 0, 0, 0, 0x40, 0,
    0, 0, 0, 0, 0x40, 0, 0, 0, 0, 0, 0, 0, 0, 0, 0, 0, 0, 0, 0, 0, 0, 0, 0, 0, 0x40, 0, 0x38, 0, 3, 0, 0,
    0, 0, 0, 0, 0] ++
  [1, 0, 0, 0, 5, 0, 0, 0, 0xE8, 0, 0, 0, 0, 0, 0, 0, 0, 0, 0x40, 0, 0, 0, 0, 0, 0, 0, 0x40, 0, 0, 0, 0,
    0, 3, 0, 0, 0, 0, 0, 0, 0, 8, 0, 0, 0, 0, 0, 0, 0, 0, 0x10, 0, 0, 0, 0, 0, 0] ++
  [4, 0, 0, 0, 4, 0, 0, 0, 0, 0, 0, 0, 0, 0, 0, 0, 0, 0, 0x50, 0, 0, 0, 0, 0, 0, 0, 0x50, 0, 0, 0, 0, 0,
    9, 0, 0, 0, 0, 0, 0, 0, 0x10, 0, 0, 0, 0, 0, 0, 0, 4, 0, 0, 0, 0, 0, 0, 0] ++
  [1, 0, 0, 0, 6, 0, 0, 0, 0xEB, 0, 0, 0, 0, 0, 0, 0, 0, 0, 0x60, 0, 0, 0, 0, 0, 0, 0, 0x60, 0, 0, 0, 0,
    0, 2, 0, 0, 0, 0, 0, 0, 0, 2, 0, 0, 0, 0, 0, 0, 0, 0, 0x10, 0, 0, 0, 0, 0, 0] ++
  [0x90, 0x90, 0xC3, 0x2A, 0x2B]

def tinyState : State where
  mem x := (tinyElf[(x - 0x1000).toNat]?).getD 0#8
  elfLoadEntry := 0
  elfLoadSize := 0

theorem tiny_ehdr : (ehdr tinyState.mem 0x1000).Accepted ∧ (ehdr tinyState.mem 0x1000).ePhnum = 3 ∧
    table tinyState.mem 0x1000 = 0x1040 ∧ (ehdr tinyState.mem 0x1000).eEntry = 0x400000 := by
  decide +kernel

theorem tiny_segments : segment tinyState.mem 0x1040 0 = ⟨1, 232, 0x400000, 3, 8⟩ ∧
    segment tinyState.mem 0x1040 1 = ⟨4, 0, 0x500000, 9, 16⟩ ∧
    segment tinyState.mem 0x1040 2 = ⟨1, 235, 0x600000, 2, 2⟩ := by
  decide +kernel

theorem tiny_loads {i : ℕ} (hi : i < 3) (ht : (segment tinyState.mem 0x1040 i).Loads) :
    i = 0 ∧ segment tinyState.mem 0x1040 i = ⟨1, 232, 0x400000, 3, 8⟩ ∨
      i = 2 ∧ segment tinyState.mem 0x1040 i = ⟨1, 235, 0x600000, 2, 2⟩ := by
  interval_cases i
  · exact .inl ⟨rfl, tiny_segments.1⟩
  · rw [tiny_segments.2.1] at ht
    exact absurd ht (by decide)
  · exact .inr ⟨rfl, tiny_segments.2.2⟩

theorem tiny_loadable : Loadable tinyState.mem 0x1000 0x1040 3 := by
  refine ⟨fun i hi ht => ?_, fun i hi j hj hij ht htj => ?_, fun i hi ht x hx hb => ?_,
    fun i hi j hj ht htj x hx hb => ?_⟩
  · rcases tiny_loads hi ht with ⟨-, hs⟩ | ⟨-, hs⟩ <;> rw [hs] <;> decide
  · intro x hx hb
    rcases tiny_loads hi ht with ⟨hi, hs⟩ | ⟨hi, hs⟩ <;> rcases tiny_loads hj htj with ⟨hj, hs'⟩ | ⟨hj, hs'⟩ <;>
      rw [hs] at hx <;> rw [hs'] at hb <;> simp only [Within, Phdr.paddr] at hx hb
    · exact hij (hi.trans hj.symm)
    · bv_omega
    · bv_omega
    · exact hij (hi.trans hj.symm)
  · rcases tiny_loads hi ht with ⟨-, hs⟩ | ⟨-, hs⟩ <;> rw [hs] at hx <;>
      simp only [Within, Phdr.paddr, sizeofPhdr] at hx hb <;> bv_omega
  · rcases tiny_loads hi ht with ⟨-, hs⟩ | ⟨-, hs⟩ <;> rcases tiny_loads hj htj with ⟨-, hs'⟩ | ⟨-, hs'⟩ <;>
      rw [hs] at hx <;> rw [hs'] at hb <;> simp only [Within, Phdr.paddr, Phdr.source] at hx hb <;> bv_omega

theorem tiny_fresh : Fresh tinyState.mem 0x1040 3 := by
  intro i hi ht x hx
  have hlen : tinyElf.length ≤ (x - 0x1000).toNat := by
    have : tinyElf.length = 237 := rfl
    rcases tiny_loads hi ht with ⟨-, hs⟩ | ⟨-, hs⟩ <;> rw [hs] at hx <;>
      simp only [Within, Phdr.paddr] at hx <;> bv_omega
  exact congrArg (Option.getD · 0#8) (List.getElem?_eq_none hlen)

theorem tiny_loaded : (ehdr tinyState.mem 0x1000).Accepted ∧
    (elfLoad 0x1000 tinyState).mem 0x400002 = 0xC3#8 ∧ (elfLoad 0x1000 tinyState).mem 0x400003 = 0#8 ∧
      (elfLoad 0x1000 tinyState).mem 0x600001 = 0x2B#8 ∧
        (elfLoad 0x1000 tinyState).mem 0x500000 = tinyState.mem 0x500000 ∧
          (elfLoad 0x1000 tinyState).elfLoadEntry = 0x400000 := by
  obtain ⟨ha, hn, htab, hent⟩ := tiny_ehdr
  have h := elfLoad_effect tinyState 0x1000 (by decide) ha
    (by rw [hn, htab]; exact tiny_loadable) (by rw [hn, htab]; exact tiny_fresh)
  rw [hn, htab] at h
  have htext := h.target 0 (by decide) (by rw [tiny_segments.1]; decide)
  have hdata := h.target 2 (by decide) (by rw [tiny_segments.2.2]; decide)
  rw [tiny_segments.1] at htext
  rw [tiny_segments.2.2] at hdata
  refine ⟨ha, (htext 0x400002 (by decide)).trans (by decide +kernel), (htext 0x400003 (by decide)).trans (by decide),
    (hdata 0x600001 (by decide)).trans (by decide +kernel), h.outside 0x500000 fun i hi hti hw => ?_,
    by rw [h.entry, hent]; rfl⟩
  rcases tiny_loads hi hti with ⟨-, hs⟩ | ⟨-, hs⟩ <;> rw [hs] at hw <;> exact absurd hw (by decide)

end Elf
end Azalea
