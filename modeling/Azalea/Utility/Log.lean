import Azalea.Utility.Format

namespace Azalea
namespace Log

open Format

@[simp] def maxLogCount : ℕ := 16383

@[simp] def logLength : ℕ := 64

structure State where
  logRear : ℕ
  mem : ℕ → BYTE

def fill (mem : ℕ → BYTE) (a : ℕ) (msg : List BYTE) : ℕ → BYTE :=
  fun x => if a ≤ x ∧ x < a + msg.length then msg.getD (x - a) 0#8 else mem x

def slot (logStart n : ℕ) : ℕ := logStart + logLength + n * 64

def shellStorageAreaInit (logStart : ℕ) (mem : ℕ → BYTE) : State where
  logRear := 0
  mem x := if logStart ≤ x ∧ x < logStart + (maxLogCount + 1) * logLength then 0#8 else mem x

def shellEnqueue (logStart : ℕ) (l : State) (msg : List BYTE) : State :=
  if maxLogCount ≤ l.logRear then l
  else { logRear := (l.logRear + 1) % 2 ^ 32, mem := fill l.mem (slot logStart l.logRear) msg }

def buffer (stack : ℕ → BYTE) : Buffer := ⟨fun i => if i < 64 then 0#8 else stack i, 0⟩

def text (b : Buffer) (n : ℕ) : List BYTE := (List.range (b.lkStrlen 0 n)).map b.cell

inductive Call (D : Type)
  | print (stack : ℕ → BYTE) (parameter : List BYTE) (ap : VaList D)
  | printLog (msg : List BYTE) (h : 0#8 ∉ msg)

variable {D : Type} (host : Host D) (logStart : ℕ)

def lkPrint (fuel : ℕ) (stack : ℕ → BYTE) (parameter : List BYTE) (ap : VaList D) (l : State) : Option State :=
  match lkVsprintf host fuel (buffer stack) parameter ap with
  | (_, none) => none
  | (b, some n) => some (shellEnqueue logStart l (text b n))

def exec (fuel : ℕ) (l : State) : Call D → Option State
  | .print stack parameter ap => lkPrint host logStart fuel stack parameter ap l
  | .printLog msg _ => some (shellEnqueue logStart l msg)

def InBuffer : Call D → Prop
  | .print stack parameter ap => ∀ fuel, (lkVsprintf host fuel (buffer stack) parameter ap).1.top ≤ 64
  | .printLog _ _ => True

def InSlot (n : ℕ) (l l' : State) : Prop :=
  if n < maxLogCount then
    l'.logRear = n + 1 ∧ ∀ x, ¬ (slot logStart n ≤ x ∧ x < slot logStart (n + 1)) → l'.mem x = l.mem x
  else l' = l

def Confined : ℕ → State → List (Call D) → Prop
  | _, _, [] => True
  | n, l, c :: cs => InBuffer host c ∧
    ∀ fuel l', exec host logStart fuel l c = some l' → InSlot logStart n l l' ∧ Confined (n + 1) l' cs

def Short (n : ℕ) : Call D → Prop
  | .print _ parameter ap => ∃ fuel k, textLength host fuel parameter ap = some k ∧ k < 64
  | .printLog msg _ => n < maxLogCount → msg.length ≤ 64

variable {host logStart} {l l' : State} {n : ℕ} {c : Call D} {msg : List BYTE}

theorem slot_succ : slot logStart (n + 1) = slot logStart n + 64 := by
  unfold slot
  ring

theorem text_length_le (b : Buffer) (n : ℕ) : (text b n).length ≤ n := by
  rw [text, List.length_map, List.length_range]
  exact lkStrlen_le ..

theorem shellEnqueue_inSlot (hr : l.logRear = min n maxLogCount) (h : n < maxLogCount → msg.length ≤ 64) :
    InSlot logStart n l (shellEnqueue logStart l msg) := by
  unfold InSlot shellEnqueue
  by_cases hn : n < maxLogCount
  · have hrear : l.logRear = n := by rw [hr, Nat.min_eq_left hn.le]
    rw [if_pos hn, if_neg (by omega), hrear]
    refine ⟨Nat.mod_eq_of_lt (by simp only [maxLogCount] at hn; omega), fun x hx => if_neg fun hin => hx ?_⟩
    have := h hn
    rw [slot_succ]
    omega
  · rw [if_neg hn, if_pos (by omega)]

theorem shellEnqueue_length_le (hn : n < maxLogCount) (hr : l.logRear = n) (hz : l.mem (slot logStart (n + 1)) = 0#8)
    (hmsg : 0#8 ∉ msg) (h : InSlot logStart n l (shellEnqueue logStart l msg)) : msg.length ≤ 64 := by
  by_contra hlong
  unfold InSlot shellEnqueue at h
  rw [if_pos hn, if_neg (by omega), hr] at h
  have hx : fill l.mem (slot logStart n) msg (slot logStart (n + 1)) = l.mem (slot logStart (n + 1)) :=
    h.2 _ (by omega)
  have hin : slot logStart n ≤ slot logStart (n + 1) ∧ slot logStart (n + 1) < slot logStart n + msg.length := by
    rw [slot_succ]
    omega
  have hlt : slot logStart (n + 1) - slot logStart n < msg.length := by omega
  rw [hz, fill, if_pos hin, List.getD_eq_getElem?_getD, List.getElem?_eq_getElem hlt,
    Option.getD_some] at hx
  exact hmsg (hx ▸ List.getElem_mem hlt)

theorem InSlot.logRear (h : InSlot logStart n l l') (hr : l.logRear = min n maxLogCount) :
    l'.logRear = min (n + 1) maxLogCount := by
  unfold InSlot at h
  split at h
  · rw [h.1]
    omega
  · rw [h, hr]
    omega

theorem InSlot.above (h : InSlot logStart n l l') (hz : ∀ x, slot logStart n ≤ x → l.mem x = 0#8) :
    ∀ x, slot logStart (n + 1) ≤ x → l'.mem x = 0#8 := by
  intro x hx
  have hlow : slot logStart n ≤ x := by
    rw [slot_succ] at hx
    omega
  unfold InSlot at h
  split at h
  · rw [h.2 x (by omega), hz x hlow]
  · rw [h, hz x hlow]

theorem lkPrint_eq {fuel : ℕ} {stack : ℕ → BYTE} {parameter : List BYTE} {ap : VaList D} {k : ℕ}
    (h : textLength host fuel parameter ap = some k) : lkPrint host logStart fuel stack parameter ap l =
      some (shellEnqueue logStart l (text (lkVsprintf host fuel (buffer stack) parameter ap).1 k)) := by
  have hk : (lkVsprintf host fuel (buffer stack) parameter ap).2 = some k := by rw [lkVsprintf_length, h]
  obtain ⟨⟨b, o⟩, hr⟩ : ∃ r, lkVsprintf host fuel (buffer stack) parameter ap = r := ⟨_, rfl⟩
  rw [lkPrint, hr]
  rw [hr] at hk
  rw [show o = some k from hk]

theorem lkPrint_none {fuel : ℕ} {stack : ℕ → BYTE} {parameter : List BYTE} {ap : VaList D}
    (h : textLength host fuel parameter ap = none) : lkPrint host logStart fuel stack parameter ap l = none := by
  have hk : (lkVsprintf host fuel (buffer stack) parameter ap).2 = none := by rw [lkVsprintf_length, h]
  obtain ⟨⟨b, o⟩, hr⟩ : ∃ r, lkVsprintf host fuel (buffer stack) parameter ap = r := ⟨_, rfl⟩
  rw [lkPrint, hr]
  rw [hr] at hk
  rw [show o = none from hk]

theorem inBuffer_print_iff {stack : ℕ → BYTE} {parameter : List BYTE} {ap : VaList D} :
    InBuffer host (.print stack parameter ap) ↔ Short host n (.print stack parameter ap) :=
  lkVsprintf_top_le_iff rfl parameter ap

theorem exec_inSlot {fuel : ℕ} (hr : l.logRear = min n maxLogCount) (hb : InBuffer host c) (hs : Short host n c)
    (he : exec host logStart fuel l c = some l') : InSlot logStart n l l' := by
  cases c with
  | print stack parameter ap =>
    cases ho : textLength host fuel parameter ap with
    | none => exact absurd he (by rw [exec, lkPrint_none ho]; simp)
    | some k =>
      rw [exec, lkPrint_eq ho] at he
      rw [← Option.some.inj he]
      have htop := hb fuel
      rw [lkVsprintf_top rfl ho] at htop
      exact shellEnqueue_inSlot hr fun _ => (text_length_le ..).trans (by omega)
  | printLog msg hmsg =>
    rw [← Option.some.inj he]
    exact shellEnqueue_inSlot hr hs

theorem exec_returns (hs : Short host n c) : ∃ fuel l', exec host logStart fuel l c = some l' := by
  cases c with
  | print stack parameter ap =>
    obtain ⟨fuel, k, hk, _⟩ := hs
    exact ⟨fuel, _, lkPrint_eq hk⟩
  | printLog msg hmsg => exact ⟨0, _, rfl⟩

theorem confined_of_short {cs : List (Call D)} (hr : l.logRear = min n maxLogCount)
    (h : ∀ i c, cs[i]? = some c → Short host (n + i) c) : Confined host logStart n l cs := by
  induction cs generalizing n l with
  | nil => trivial
  | cons c cs ih =>
    have hs : Short host n c := h 0 c rfl
    have hb : InBuffer host c := by
      cases c with
      | print stack parameter ap => exact inBuffer_print_iff.2 hs
      | printLog msg hmsg => trivial
    refine ⟨hb, fun fuel l' he => ?_⟩
    have hslot := exec_inSlot hr hb hs he
    refine ⟨hslot, ih (hslot.logRear hr) fun i c hc => ?_⟩
    have := h (i + 1) c (by rwa [List.getElem?_cons_succ])
    rwa [Nat.add_right_comm, Nat.add_assoc]

theorem short_of_confined {cs : List (Call D)} (hr : l.logRear = min n maxLogCount)
    (hz : ∀ x, slot logStart n ≤ x → l.mem x = 0#8) (h : Confined host logStart n l cs) :
    ∀ i c, cs[i]? = some c → Short host (n + i) c := by
  induction cs generalizing n l with
  | nil => exact fun i c hc => absurd hc (by simp)
  | cons c cs ih =>
    obtain ⟨hb, hexec⟩ := h
    have hs : Short host n c := by
      cases c with
      | print stack parameter ap => exact inBuffer_print_iff.1 hb
      | printLog msg hmsg =>
        intro hn
        exact shellEnqueue_length_le hn (by rw [hr, Nat.min_eq_left hn.le]) (hz _ (by rw [slot_succ]; omega)) hmsg
          (hexec 0 _ rfl).1
    intro i d hd
    cases i with
    | zero =>
      rw [List.getElem?_cons_zero] at hd
      rwa [← Option.some.inj hd]
    | succ i =>
      obtain ⟨fuel, l', he⟩ := @exec_returns D host logStart l n c hs
      obtain ⟨hslot, hrest⟩ := hexec fuel l' he
      have := ih (hslot.logRear hr) (hslot.above hz) hrest i d (by rwa [List.getElem?_cons_succ] at hd)
      rwa [Nat.add_right_comm, Nat.add_assoc] at this

theorem confined_iff (host : Host D) (logStart : ℕ) (cs : List (Call D)) :
    (∀ mem, Confined host logStart 0 (shellStorageAreaInit logStart mem) cs) ↔
      ∀ i c, cs[i]? = some c → Short host i c := by
  constructor
  · intro h
    have hz : ∀ x, slot logStart 0 ≤ x → (shellStorageAreaInit logStart fun _ => 0#8).mem x = 0#8 := by
      intro x _
      simp only [shellStorageAreaInit, ite_self]
    have := short_of_confined (by simp [shellStorageAreaInit]) hz (h _)
    simpa only [Nat.zero_add] using this
  · intro h mem
    refine confined_of_short (by simp [shellStorageAreaInit]) ?_
    simpa only [Nat.zero_add] using h

def chars (s : String) : List BYTE := s.toList.map fun c => .ofNat 8 c.toNat

theorem threadCreated_length (fuel : ℕ) (ap : VaList D) :
    textLength host fuel (chars "Thread created: %d, stack: %q, %q\n") ap =
      some (28 + decLength ((ap.gp 0).setWidth 32).toInt + hexLength (ap.gp 1).toNat + hexLength (ap.gp 2).toNat) := by
  have hsplit : chars "Thread created: %d, stack: %q, %q\n" = chars "Thread created: " ++ 0x25#8 :: 0x64#8 ::
      (chars ", stack: " ++ 0x25#8 :: 0x71#8 :: (chars ", " ++ 0x25#8 :: 0x71#8 :: (chars "\n" ++ []))) := by decide
  rw [hsplit, textLength_plain (by decide), textLength_conversion rfl, textLength_plain (by decide),
    textLength_conversion rfl, textLength_plain (by decide), textLength_conversion rfl, textLength_plain (by decide)]
  have h16 : (chars "Thread created: ").length = 16 := by decide
  have h9 : (chars ", stack: ").length = 9 := by decide
  have h2 : (chars ", ").length = 2 := by decide
  have h1 : (chars "\n").length = 1 := by decide
  simp only [textLength, Option.map_some, h16, h9, h2, h1]
  refine congrArg some ?_
  have hargs : (vaNext 0x64#8 ap).gp 0 = ap.gp 1 ∧ (vaNext 0x71#8 (vaNext 0x64#8 ap)).gp 0 = ap.gp 2 := ⟨rfl, rfl⟩
  rw [hargs.1, hargs.2]
  omega

def threadCreated (stack : ℕ → BYTE) (ap : VaList D) : Call D :=
  .print stack (chars "Thread created: %d, stack: %q, %q\n") ap

theorem threadCreated_short_iff {stack : ℕ → BYTE} {ap : VaList D} : Short host n (threadCreated stack ap) ↔
    decLength ((ap.gp 0).setWidth 32).toInt + hexLength (ap.gp 1).toNat + hexLength (ap.gp 2).toNat ≤ 35 := by
  constructor
  · rintro ⟨fuel, k, hk, hlt⟩
    rw [threadCreated_length] at hk
    have := Option.some.inj hk
    omega
  · intro h
    exact ⟨0, _, threadCreated_length 0 ap, by omega⟩

def thread1000 : Call Unit := threadCreated (fun _ => 0#8)
  ⟨fun i => if i = 0 then 1000 else if i = 1 then 0xFFFF8000C1000000 else 0xFFFF8000C1234F88, fun _ => ()⟩

def noFloat : Host Unit := ⟨id, id, id, id, fun _ => 0, fun _ => []⟩

theorem thread1000_not_confined :
    ¬ ∀ mem, Confined noFloat 0 0 (shellStorageAreaInit 0 mem) [thread1000] := by
  intro h
  have hz : ∀ x, slot 0 0 ≤ x → (shellStorageAreaInit 0 fun _ => 0#8).mem x = 0#8 := by
    intro x _
    simp only [shellStorageAreaInit, ite_self]
  have hs := threadCreated_short_iff.1 (short_of_confined rfl hz (h _) 0 thread1000 rfl)
  exact absurd hs (by decide +kernel)

end Log
end Azalea
