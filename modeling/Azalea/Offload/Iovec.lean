import Azalea.Paging.Lookup

namespace Azalea

def maxIovNum : ℕ := 32

structure Iovec where
  iovBase : ℕ
  iovLen : ℕ
deriving DecidableEq, Repr

namespace Iovec

def bytes (x : Iovec) : List ℕ := (List.range x.iovLen).map (x.iovBase + ·)

theorem bytes_add (base m n : ℕ) : bytes ⟨base, m + n⟩ = bytes ⟨base, m⟩ ++ bytes ⟨base + m, n⟩ := by
  simp [bytes, List.range_add, Nat.add_assoc]

structure PageScan where
  prevPageAddr : ℕ
  readPageAddr : ℕ
  readPageLen : ℕ
  scanBuf : ℕ
  scanBufLen : ℕ
  iov : List Iovec

namespace PageScan

def emit (s : PageScan) : List Iovec := s.iov ++ [⟨s.readPageAddr, s.readPageLen⟩]

def restart (getPa : ℕ → ℕ) (s : PageScan) : PageScan :=
  { s with iov := s.emit, readPageLen := 0, readPageAddr := getPa s.scanBuf }

def expand (s : PageScan) (pageAddr offsetInPage : ℕ) : PageScan :=
  let pageLen := if pageSize4K - offsetInPage > s.scanBufLen then s.scanBufLen else pageSize4K - offsetInPage
  { s with
    readPageLen := (s.readPageLen + pageLen) % wordSize
    scanBuf := (s.scanBuf + pageLen) % wordSize
    scanBufLen := s.scanBufLen - pageLen
    prevPageAddr := pageAddr }

def page (getPa : ℕ → ℕ) (s : PageScan) : PageScan :=
  let offsetInPage := s.scanBuf % pageSize4K
  let pageAddr := (getPa s.scanBuf + (wordSize - offsetInPage)) % wordSize
  if pageAddr ≠ (s.prevPageAddr + pageSize4K) % wordSize then (s.restart getPa).expand pageAddr offsetInPage
  else s.expand pageAddr offsetInPage

end PageScan

-- nr_pages is an int
def nrPages (buf count : ℕ) : ℤ :=
  let total := (count + buf % pageSize4K) % wordSize
  toInt (total / pageSize4K) + if total % pageSize4K = 0 then 0 else 1

def getIovec (getPa : ℕ → ℕ) (buf count : ℕ) : Option (List Iovec) :=
  if buf = 0 then none
  else
    let offsetInPage := buf % pageSize4K
    let pageAddr := (getPa buf + (wordSize - offsetInPage)) % wordSize
    let s := (PageScan.page getPa)^[(nrPages buf count).toNat]
      ⟨(pageAddr + (wordSize - pageSize4K)) % wordSize, (pageAddr + offsetInPage) % wordSize, 0, buf, count, []⟩
    some s.emit

def phys (frame : ℕ → ℕ) (v : ℕ) : ℕ := 4096 * frame (v / 4096) + v % 4096

def Mapped (getPa frame : ℕ → ℕ) (buf count : ℕ) : Prop :=
  ∀ v, v ≠ 0 → buf ≤ v → v ≤ buf + (count - 1) → getPa v = phys frame v ∧ 4096 * (frame (v / 4096) + 1) < wordSize

structure Covers (frame : ℕ → ℕ) (buf count : ℕ) (iov : List Iovec) : Prop where
  bytes : iov.flatMap Iovec.bytes = (List.range count).map fun i => phys frame (buf + i)
  total : (iov.map Iovec.iovLen).sum = count
  apart : iov.IsChain fun x y => x.iovBase + x.iovLen ≠ y.iovBase

section Scan
variable (frame : ℕ → ℕ) (buf count : ℕ)

def done (k : ℕ) : ℕ := min (buf % 4096 + count) (4096 * k) - buf % 4096

def inPage (k : ℕ) : ℕ := if k = 0 then buf % 4096 else 0

def expected : ℕ → ℕ
  | 0 => frame (buf / 4096)
  | k + 1 => frame (buf / 4096 + k) + 1

def Break (k : ℕ) : Prop := frame (buf / 4096 + k) ≠ expected frame buf k

instance (k : ℕ) : Decidable (Break frame buf k) := inferInstanceAs (Decidable (_ ≠ _))

structure Collected (k : ℕ) (s : PageScan) : Prop where
  left : s.scanBufLen = count - done buf count k
  bytes : s.emit.flatMap Iovec.bytes = (List.range (done buf count k)).map fun i => phys frame (buf + i)
  apart : s.emit.IsChain fun x y => x.iovBase + x.iovLen ≠ y.iovBase

structure Scanned (k : ℕ) (s : PageScan) : Prop extends Collected frame buf count k s where
  scan : s.scanBuf = (buf + done buf count k) % wordSize
  next : (s.prevPageAddr + pageSize4K) % wordSize = 4096 * expected frame buf k
  entries : s.iov.length = Nat.count (Break frame buf) k
  stop : 4096 * k < buf % 4096 + count →
    s.readPageAddr + s.readPageLen = 4096 * expected frame buf k + inPage buf k

structure Placed (k : ℕ) (s : PageScan) : Prop extends Collected frame buf count k s where
  scan : s.scanBuf = 4096 * (buf / 4096 + k) + inPage buf k
  entries : s.iov.length = Nat.count (Break frame buf) (k + 1)
  stop : s.readPageAddr + s.readPageLen = 4096 * frame (buf / 4096 + k) + inPage buf k

variable {frame buf count} {getPa : ℕ → ℕ} {k : ℕ} {s : PageScan}

theorem sum_of_bytes {iov : List Iovec} {n : ℕ} {f : ℕ → ℕ}
    (h : iov.flatMap Iovec.bytes = (List.range n).map f) : (iov.map Iovec.iovLen).sum = n := by
  have hlen := congrArg List.length h
  simpa [List.length_flatMap, Iovec.bytes, Function.comp_def] using hlen

theorem done_eq (hk : 4096 * k < buf % 4096 + count) :
    buf % 4096 + done buf count k = 4096 * k + inPage buf k := by
  unfold done inPage
  split_ifs with h0
  · subst h0
    omega
  · omega

theorem bytes_page {n : ℕ} (hk : 4096 * k < buf % 4096 + count) (hn : inPage buf k + n ≤ 4096) :
    (List.range (done buf count k + n)).map (fun i => phys frame (buf + i)) =
      (List.range (done buf count k)).map (fun i => phys frame (buf + i)) ++
        Iovec.bytes ⟨4096 * frame (buf / 4096 + k) + inPage buf k, n⟩ := by
  have hdone := done_eq hk
  rw [List.range_add, List.map_append, List.map_map]
  refine congrArg _ (List.map_congr_left fun i hi => ?_)
  have hi := List.mem_range.mp hi
  have hpage : (buf + (done buf count k + i)) / 4096 = buf / 4096 + k := by omega
  have hoff : (buf + (done buf count k + i)) % 4096 = inPage buf k + i := by omega
  simp only [Function.comp_apply, phys, hpage, hoff, Nat.add_assoc]

theorem Placed.expand (h : Placed frame buf count k s) (hk : 4096 * k < buf % 4096 + count)
    (hend : buf + count ≤ wordSize) (hb : buf ≠ 0) (hf : 4096 * (frame (buf / 4096 + k) + 1) < wordSize) :
    Scanned frame buf count (k + 1) (s.expand (4096 * frame (buf / 4096 + k)) (inPage buf k)) := by
  have hdone := done_eq hk
  have hin : inPage buf k < 4096 := by
    unfold inPage
    split_ifs <;> omega
  obtain ⟨m, hm⟩ : ∃ m, (if 4096 - inPage buf k > s.scanBufLen then s.scanBufLen else 4096 - inPage buf k) = m :=
    ⟨_, rfl⟩
  have hleft := h.left
  have hnext : done buf count (k + 1) = done buf count k + m := by
    unfold done at hdone hleft ⊢
    split_ifs at hm <;> omega
  have hm4096 : inPage buf k + m ≤ 4096 := by split_ifs at hm <;> omega
  have hlen := sum_of_bytes h.bytes
  rw [PageScan.emit, List.map_append, List.sum_append, List.map_singleton, List.sum_singleton] at hlen
  dsimp only at hlen
  have hle : done buf count (k + 1) ≤ count := by
    unfold done
    omega
  have hexpand : s.expand (4096 * frame (buf / 4096 + k)) (inPage buf k) =
      ⟨4096 * frame (buf / 4096 + k), s.readPageAddr, s.readPageLen + m, (s.scanBuf + m) % wordSize,
        s.scanBufLen - m, s.iov⟩ := by
    rw [PageScan.expand, pageSize4K, hm, Nat.mod_eq_of_lt (a := s.readPageLen + m) (by omega)]
  rw [hexpand]
  have hstop := h.stop
  refine ⟨⟨?_, ?_, ?_⟩, ?_, Nat.mod_eq_of_lt hf, h.entries, ?_⟩
  · dsimp only
    omega
  · rw [hnext, bytes_page hk hm4096, ← h.bytes, ← hstop]
    simp only [PageScan.emit, List.flatMap_append, List.flatMap_singleton, Iovec.bytes_add, List.append_assoc]
  · have hapart := h.apart
    rw [PageScan.emit, List.isChain_append] at hapart ⊢
    refine ⟨hapart.1, List.isChain_singleton _, fun x hx y hy => ?_⟩
    cases hy
    exact hapart.2.2 x hx ⟨s.readPageAddr, s.readPageLen⟩ rfl
  · dsimp only
    rw [h.scan, hnext]
    congr 1
    omega
  · intro hk'
    have hdone' := done_eq hk'
    dsimp only
    rw [expected, inPage, if_neg (Nat.succ_ne_zero k)] at *
    omega

section Mapped
variable (hmap : Mapped getPa frame buf count) (hb : buf ≠ 0) (hend : buf + count ≤ wordSize)
include hmap hb hend

theorem getPa_page (hk : 4096 * k < buf % 4096 + count) :
    (buf + done buf count k) % wordSize = 4096 * (buf / 4096 + k) + inPage buf k ∧
      getPa (4096 * (buf / 4096 + k) + inPage buf k) = 4096 * frame (buf / 4096 + k) + inPage buf k ∧
      4096 * (frame (buf / 4096 + k) + 1) < wordSize := by
  have hdone := done_eq hk
  have hin : inPage buf k < 4096 := by
    unfold inPage
    split_ifs <;> omega
  have hlast : done buf count k ≤ count - 1 := by
    unfold done
    omega
  have hlt : buf + done buf count k < wordSize := by
    unfold done
    simp only [wordSize] at hend ⊢
    omega
  have hv : buf + done buf count k = 4096 * (buf / 4096 + k) + inPage buf k := by omega
  have hpage : (4096 * (buf / 4096 + k) + inPage buf k) / 4096 = buf / 4096 + k := by omega
  have hoff : (4096 * (buf / 4096 + k) + inPage buf k) % 4096 = inPage buf k := by omega
  obtain ⟨hpa, hf⟩ := hmap (4096 * (buf / 4096 + k) + inPage buf k) (by omega) (by omega) (by omega)
  rw [phys, hpage, hoff] at hpa
  rw [hpage] at hf
  exact ⟨by rw [Nat.mod_eq_of_lt hlt, hv], hpa, hf⟩

theorem Scanned.place (h : Scanned frame buf count k s) (hk : 4096 * k < buf % 4096 + count) :
    Placed frame buf count k (if Break frame buf k then s.restart getPa else s) := by
  obtain ⟨hv, hpa, -⟩ := getPa_page hmap hb hend hk
  have hscan := h.scan.trans hv
  have hstop := h.stop hk
  split_ifs with hbreak
  · refine ⟨⟨h.left, ?_, ?_⟩, hscan, ?_, ?_⟩
    · rw [← h.bytes]
      simp [PageScan.emit, PageScan.restart, Iovec.bytes]
    · change (s.emit ++ [(⟨getPa s.scanBuf, 0⟩ : Iovec)]).IsChain _
      rw [List.isChain_append]
      refine ⟨h.apart, List.isChain_singleton _, fun x hx y hy => ?_⟩
      rw [PageScan.emit, List.getLast?_concat] at hx
      cases hx
      cases hy
      dsimp only
      rw [hstop, hscan, hpa]
      unfold Break at hbreak
      omega
    · rw [Nat.count_succ, if_pos hbreak, ← h.entries]
      simp [PageScan.restart, PageScan.emit]
    · change getPa s.scanBuf + 0 = _
      rw [hscan, hpa, Nat.add_zero]
  · refine ⟨h.toCollected, hscan, ?_, ?_⟩
    · rw [Nat.count_succ, if_neg hbreak, Nat.add_zero, h.entries]
    · rw [hstop, not_not.mp hbreak]

theorem Scanned.page (h : Scanned frame buf count k s) (hk : 4096 * k < buf % 4096 + count) :
    Scanned frame buf count (k + 1) (s.page getPa) := by
  obtain ⟨hv, hpa, hf⟩ := getPa_page hmap hb hend hk
  have hscan := h.scan.trans hv
  have hin : inPage buf k < 4096 := by
    unfold inPage
    split_ifs <;> omega
  have hoff : s.scanBuf % pageSize4K = inPage buf k := by
    rw [hscan, pageSize4K]
    omega
  have haddr : (getPa s.scanBuf + (wordSize - inPage buf k)) % wordSize = 4096 * frame (buf / 4096 + k) := by
    rw [hscan, hpa]
    simp only [wordSize] at hf ⊢
    omega
  have hbreak : 4096 * frame (buf / 4096 + k) ≠ 4096 * expected frame buf k ↔ Break frame buf k := by
    unfold Break
    omega
  have hpage : s.page getPa = (if Break frame buf k then s.restart getPa else s).expand
      (4096 * frame (buf / 4096 + k)) (inPage buf k) := by
    simp only [PageScan.page, hoff, haddr, h.next, hbreak]
    split_ifs <;> rfl
  rw [hpage]
  exact (h.place hmap hb hend hk).expand hk hend hb hf

theorem scanned_iterate (hbuf : buf < wordSize) {n : ℕ} (hn : ∀ k < n, 4096 * k < buf % 4096 + count) :
    Scanned frame buf count n ((PageScan.page getPa)^[n]
      ⟨((getPa buf + (wordSize - buf % pageSize4K)) % wordSize + (wordSize - pageSize4K)) % wordSize,
        ((getPa buf + (wordSize - buf % pageSize4K)) % wordSize + buf % pageSize4K) % wordSize, 0, buf, count, []⟩) := by
  induction n with
  | zero =>
    obtain ⟨hpa, hf⟩ := hmap buf hb le_rfl (Nat.le_add_right _ _)
    rw [phys] at hpa
    have haddr : (getPa buf + (wordSize - buf % pageSize4K)) % wordSize = 4096 * frame (buf / 4096) := by
      rw [hpa]
      simp only [wordSize, pageSize4K] at hf ⊢
      omega
    have hzero : done buf count 0 = 0 := by
      unfold done
      omega
    rw [Function.iterate_zero, id_eq, haddr]
    refine ⟨⟨?_, ?_, List.isChain_singleton _⟩, ?_, ?_, ?_, fun _ => ?_⟩
    · rw [hzero, Nat.sub_zero]
    · rw [hzero]
      rfl
    · rw [hzero, Nat.add_zero, Nat.mod_eq_of_lt hbuf]
    · simp only [wordSize, pageSize4K, expected] at hf ⊢
      omega
    · rw [Nat.count_zero]
      rfl
    · simp only [wordSize, pageSize4K, expected, inPage, if_true] at hf ⊢
      omega
  | succ n ih =>
    rw [Function.iterate_succ_apply']
    exact (ih fun k hk => hn k (by omega)).page hmap hb hend (hn n (by omega))

end Mapped

theorem toInt_le (n : ℕ) : toInt n ≤ n := by
  rw [toInt_eq]
  split_ifs <;> omega

theorem page_lt_of_nrPages (hk : k < (nrPages buf count).toNat) : 4096 * k < buf % 4096 + count := by
  have htotal := Nat.mod_le (count + buf % 4096) wordSize
  obtain ⟨total, ht⟩ : ∃ total, (count + buf % 4096) % wordSize = total := ⟨_, rfl⟩
  simp only [nrPages, pageSize4K, ht] at hk
  have hint := toInt_le (total / 4096)
  split_ifs at hk <;> omega

theorem done_nrPages (hcount : count ≤ 2 ^ 31 - 4096) : done buf count (nrPages buf count).toNat = count := by
  have htotal : (count + buf % 4096) % wordSize = count + buf % 4096 := by
    simp only [wordSize]
    omega
  have hint := @toInt_of_lt ((count + buf % 4096) / 4096) (by omega)
  simp only [nrPages, pageSize4K, htotal, hint, done]
  split_ifs <;> omega

theorem getIovec_scanned (hmap : Mapped getPa frame buf count) (hb : buf ≠ 0) (hbuf : buf < wordSize)
    (hend : buf + count ≤ wordSize) : ∃ s, getIovec getPa buf count = some s.emit ∧
      Scanned frame buf count (nrPages buf count).toNat s :=
  ⟨_, if_neg hb, scanned_iterate hmap hb hend hbuf fun _ hk => page_lt_of_nrPages hk⟩

theorem getIovec_covers (hmap : Mapped getPa frame buf count) (hb : buf ≠ 0) (hbuf : buf < wordSize)
    (hend : buf + count ≤ wordSize) (hcount : count ≤ 2 ^ 31 - 4096) :
    ∃ iov, getIovec getPa buf count = some iov ∧ Covers frame buf count iov := by
  obtain ⟨s, hs, h⟩ := getIovec_scanned hmap hb hbuf hend
  have hbytes := h.bytes
  rw [done_nrPages hcount] at hbytes
  exact ⟨_, hs, hbytes, sum_of_bytes hbytes, h.apart⟩

def scattered (q : ℕ) : ℕ := 2 * (q % 16)

theorem scattered_mapped (buf count : ℕ) : Mapped (phys scattered) scattered buf count := by
  intro v _ _ _
  refine ⟨rfl, ?_⟩
  unfold scattered
  simp only [wordSize]
  omega

theorem scattered_covers :
    ∃ iov, getIovec (phys scattered) 0x1064 5000 = some iov ∧ Covers scattered 0x1064 5000 iov :=
  getIovec_covers (scattered_mapped _ _) (by decide) (by decide) (by decide) (by decide)

theorem getIovec_bounded_iff (hmap : Mapped getPa frame buf count) (hbuf : buf < wordSize)
    (hend : buf + count ≤ wordSize) : (∀ iov, getIovec getPa buf count = some iov → iov.length ≤ maxIovNum) ↔
      (buf = 0 ∨ Nat.count (Break frame buf) (nrPages buf count).toNat < maxIovNum) := by
  rcases eq_or_ne buf 0 with hb | hb
  · simp [getIovec, hb]
  · obtain ⟨s, hs, h⟩ := getIovec_scanned hmap hb hbuf hend
    have hlen : s.emit.length = Nat.count (Break frame buf) (nrPages buf count).toNat + 1 := by
      rw [PageScan.emit, List.length_append, h.entries]
      rfl
    simp only [hs, Option.some.injEq, forall_eq', hlen, hb, false_or]
    exact Nat.succ_le_iff

theorem thirty_two_pages_bounded :
    ∃ iov, getIovec (phys scattered) 0x1000 (32 * 4096) = some iov ∧ iov.length ≤ maxIovNum := by
  obtain ⟨s, hs, _⟩ := getIovec_scanned (scattered_mapped 0x1000 (32 * 4096)) (by decide) (by decide) (by decide)
  exact ⟨_, hs, (getIovec_bounded_iff (scattered_mapped _ _) (by decide) (by decide)).2 (.inr (by decide)) _ hs⟩

theorem thirty_three_pages_overflow : Mapped (phys scattered) scattered 0x1000 (33 * 4096) ∧
    (getIovec (phys scattered) 0x1000 (33 * 4096)).map List.length = some 33 ∧ maxIovNum < 33 :=
  ⟨scattered_mapped _ _, by decide +kernel, by decide⟩

end Scan

theorem walk_page {mem : Mem} {cr3 q p i : ℕ} (hw : walk mem cr3 (4096 * q) = some p) (hi : i < 4096) :
    walk mem cr3 (4096 * q + i) = some (p + i) := by
  induction i with
  | zero => exact hw
  | succ i ih =>
    have hend : ¬ 4096 ∣ 4096 * q + i + 1 := by omega
    exact walk_succ hend (ih (by omega))

theorem getPa_buffer {s : Space} {level frame : ℕ → ℕ} {buf count : ℕ} (h : s.Valid level)
    (hlow : buf + (count - 1) ≤ configHighHalfLimit) (hd : ∀ v, buf ≤ v → v ≤ buf + (count - 1) → s.Demand v)
    (hpages : ∀ q, buf / 4096 ≤ q → 4096 * q ≤ buf + (count - 1) →
      walk s.mem s.pgd (4096 * q) = some (4096 * frame q)) (hframe : ∀ q, frame q < 2 ^ 40) :
    (∀ v, v ≠ 0 → buf ≤ v → v ≤ buf + (count - 1) → (s.getPa v).1 = s) ∧
      Mapped (fun v => (s.getPa v).2) frame buf count := by
  have hget : ∀ v, v ≠ 0 → buf ≤ v → v ≤ buf + (count - 1) → s.getPa v = (s, phys frame v) := by
    intro v h0 hb he
    have hw := walk_page (hpages (v / 4096) (Nat.div_le_div_right hb) (by omega)) (Nat.mod_lt v (by decide : 0 < 4096))
    rw [Nat.div_add_mod] at hw
    exact h.getPa_mapped (hd v hb he) h0 (he.trans hlow) hw
  refine ⟨fun v h0 hb he => congrArg Prod.fst (hget v h0 hb he), fun v h0 hb he => ?_⟩
  refine ⟨congrArg Prod.snd (hget v h0 hb he), ?_⟩
  have := hframe (v / 4096)
  simp only [wordSize]
  omega

end Iovec
end Azalea
