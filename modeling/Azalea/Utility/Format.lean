import Azalea.Config

namespace Azalea
namespace Format

structure Buffer where
  cell : ℕ → BYTE
  top : ℕ

namespace Buffer

def store (b : Buffer) (i : ℕ) (v : BYTE) : Buffer := ⟨Function.update b.cell i v, max b.top (i + 1)⟩

def copy (b : Buffer) (i : ℕ) : List BYTE → Buffer
  | [] => b
  | v :: vs => (b.store i v).copy (i + 1) vs

-- limit is an index from start where a NUL is known to stand
def lkStrlen (b : Buffer) (start limit : ℕ) : ℕ :=
  ((List.range limit).find? fun i => b.cell (start + i) = 0#8).getD limit

def reverseLoop (b : Buffer) (start length : ℕ) : ℕ → Buffer
  | 0 => b
  | i + 1 =>
    let b := b.reverseLoop start length i
    let temp := b.cell (start + i)
    (b.store (start + i) (b.cell (start + length - 1 - i))).store (start + length - 1 - i) temp

def lkReversestring (b : Buffer) (start limit : ℕ) : Buffer :=
  let length := b.lkStrlen start limit
  b.reverseLoop start length (length / 2)

end Buffer

inductive Radix
  | dec
  | hex
deriving DecidableEq, Repr

def Radix.base : Radix → ℕ
  | .dec => 10
  | .hex => 16

theorem Radix.base_ge (r : Radix) : 10 ≤ r.base := by cases r <;> decide

theorem Radix.div_lt (r : Radix) {value : ℕ} (h : value ≠ 0) : value / r.base < value :=
  Nat.div_lt_self (Nat.pos_of_ne_zero h) (by have := r.base_ge; omega)

def digit (value : ℕ) : BYTE := if 10 ≤ value then .ofNat 8 (0x41 + (value - 10)) else .ofNat 8 (0x30 + value)

def digitLoop (r : Radix) (b : Buffer) (start value i : ℕ) : Buffer × ℕ :=
  if value = 0 then (b, i)
  else digitLoop r (b.store (start + i) (digit (value % r.base))) start (value / r.base) (i + 1)
termination_by value
decreasing_by exact r.div_lt ‹_›

def lkHextostring (value : ℕ) (b : Buffer) (start : ℕ) : Buffer × ℕ :=
  if value = 0 then ((b.store start 0x30#8).store (start + 1) 0#8, 1)
  else
    let r := digitLoop .hex b start value 0
    ((r.1.store (start + r.2) 0#8).lkReversestring start r.2, r.2)

-- what the digit loop starts from: value = -value is computed in a long, and the loop runs while value > 0
def magnitude (value : ℤ) : ℕ := (if value < 0 then (BitVec.ofInt 64 (-value)).toInt else value).toNat

def lkDecimaltostring (value : ℤ) (b : Buffer) (start : ℕ) : Buffer × ℕ :=
  if value = 0 then ((b.store start 0x30#8).store (start + 1) 0#8, 1)
  else
    let sign := if value < 0 then (b.store start 0x2D#8, 1) else (b, 0)
    let r := digitLoop .dec sign.1 start (magnitude value) sign.2
    let b := r.1.store (start + r.2) 0#8
    if b.cell start = 0x2D#8 then (b.lkReversestring (start + 1) (r.2 - 1), r.2)
    else (b.lkReversestring start r.2, r.2)

structure Host (D : Type) where
  add005 : D → D
  mul100 : D → D
  mul10 : D → D
  div10 : D → D
  toQword : D → QWORD
  str : QWORD → List BYTE

structure VaList (D : Type) where
  gp : ℕ → QWORD
  fp : ℕ → D

variable {D : Type}

def VaList.nextGp (ap : VaList D) : VaList D := { ap with gp := fun n => ap.gp (n + 1) }

def VaList.nextFp (ap : VaList D) : VaList D := { ap with fp := fun n => ap.fp (n + 1) }

variable (host : Host D)

-- none: the loop has not ended after fuel rounds
def floatLoop : ℕ → Buffer → ℕ → D → ℕ → Buffer × Option ℕ
  | 0, b, _, _, _ => (b, none)
  | fuel + 1, b, start, d, k =>
    if host.toQword d = 0 ∧ k ≠ 0 then (b, some k)
    else floatLoop fuel (b.store (start + 3 + k) (digit ((host.toQword d).toNat % 10))) start (host.div10 d) (k + 1)

def convertFloat (fuel : ℕ) (d : D) (b : Buffer) (start : ℕ) : Buffer × Option ℕ :=
  let d := host.add005 d
  let b := b.store start (digit ((host.toQword (host.mul100 d)).toNat % 10))
  let b := b.store (start + 1) (digit ((host.toQword (host.mul10 d)).toNat % 10))
  let b := b.store (start + 2) 0x2E#8
  match floatLoop host fuel b start d 0 with
  | (b, none) => (b, none)
  | (b, some k) => ((b.store (start + 3 + k) 0#8).lkReversestring start (3 + k), some (3 + k))

def vaNext (c : BYTE) (ap : VaList D) : VaList D :=
  if c = 0x66#8 then ap.nextFp
  else if c = 0x73#8 ∨ c = 0x63#8 ∨ c = 0x64#8 ∨ c = 0x69#8 ∨ c = 0x78#8 ∨ c = 0x58#8 ∨ c = 0x71#8 ∨ c = 0x51#8 ∨
    c = 0x70#8 then ap.nextGp
  else ap

def convert (fuel : ℕ) (c : BYTE) (ap : VaList D) (b : Buffer) (bufferIndex : ℕ) : Buffer × Option ℕ :=
  if c = 0x73#8 then
    let copyString := host.str (ap.gp 0)
    (b.copy bufferIndex copyString, some copyString.length)
  else if c = 0x63#8 then (b.store bufferIndex ((ap.gp 0).setWidth 8), some 1)
  else if c = 0x64#8 ∨ c = 0x69#8 then
    (lkDecimaltostring ((ap.gp 0).setWidth 32).toInt b bufferIndex).map id some
  else if c = 0x78#8 ∨ c = 0x58#8 then (lkHextostring ((ap.gp 0).setWidth 32).toNat b bufferIndex).map id some
  else if c = 0x71#8 ∨ c = 0x51#8 ∨ c = 0x70#8 then (lkHextostring (ap.gp 0).toNat b bufferIndex).map id some
  else if c = 0x66#8 then convertFloat host fuel (ap.fp 0) b bufferIndex
  else (b.store bufferIndex c, some 1)

-- the rest of the format; what follows a last % is the NUL of the format
def vsprintfLoop (fuel : ℕ) : List BYTE → VaList D → Buffer → ℕ → Buffer × Option ℕ
  | [], _, b, bufferIndex => (b.store bufferIndex 0#8, some bufferIndex)
  | [c], _, b, bufferIndex =>
    let b := b.store bufferIndex (if c = 0x25#8 then 0#8 else c)
    (b.store (bufferIndex + 1) 0#8, some (bufferIndex + 1))
  | c :: c' :: rest, ap, b, bufferIndex =>
    if c = 0x25#8 then
      match convert host fuel c' ap b bufferIndex with
      | (b, none) => (b, none)
      | (b, some n) => vsprintfLoop fuel rest (vaNext c' ap) b (bufferIndex + n)
    else vsprintfLoop fuel (c' :: rest) ap (b.store bufferIndex c) (bufferIndex + 1)

def lkVsprintf (fuel : ℕ) (b : Buffer) (parameter : List BYTE) (ap : VaList D) : Buffer × Option ℕ :=
  vsprintfLoop host fuel parameter ap b 0

structure Writes (b : Buffer) (n : ℕ) (b' : Buffer) : Prop where
  grows : b.top ≤ b'.top
  below : b'.top ≤ max b.top n

section Writes

variable {b b' b'' : Buffer} {n m start i : ℕ}

theorem Writes.refl : Writes b n b := ⟨le_rfl, le_max_left ..⟩

theorem Writes.trans (h : Writes b n b') (h' : Writes b' n b'') : Writes b n b'' :=
  ⟨h.grows.trans h'.grows, h'.below.trans (max_le h.below (le_max_right ..))⟩

theorem Writes.mono (h : Writes b n b') (hn : n ≤ m) : Writes b m b' :=
  ⟨h.grows, h.below.trans (max_le_max le_rfl hn)⟩

theorem Writes.store (h : Writes b n b') (hi : i < n) (v : BYTE) : Writes b n (b'.store i v) :=
  h.trans ⟨le_max_left .., max_le_max le_rfl hi⟩

theorem store_grows (b : Buffer) (i : ℕ) (v : BYTE) : b.top ≤ (b.store i v).top := le_max_left ..

theorem store_top_gt (b : Buffer) (i : ℕ) (v : BYTE) : i < (b.store i v).top := Nat.lt_of_succ_le (le_max_right ..)

theorem writes_copy (b : Buffer) (i : ℕ) (l : List BYTE) : Writes b (i + l.length) (b.copy i l) := by
  induction l generalizing b i with
  | nil => exact .refl
  | cons v vs ih =>
    have hlen : i + 1 + vs.length = i + (v :: vs).length := by rw [List.length_cons]; omega
    exact (Writes.refl.store (by rw [List.length_cons]; omega) v).trans (hlen ▸ ih (b.store i v) (i + 1))

theorem lkStrlen_le (b : Buffer) (start limit : ℕ) : b.lkStrlen start limit ≤ limit := by
  unfold Buffer.lkStrlen
  cases h : (List.range limit).find? fun i => b.cell (start + i) = 0#8 with
  | none => exact le_rfl
  | some i => exact (List.mem_range.1 (List.mem_of_find?_eq_some h)).le

theorem writes_reverseLoop (b : Buffer) (start length : ℕ) (hi : i ≤ length / 2) :
    Writes b (start + length) (b.reverseLoop start length i) := by
  induction i with
  | zero => exact .refl
  | succ i ih => exact ((ih (by omega)).store (by omega) _).store (by omega) _

theorem writes_lkReversestring (b : Buffer) (start limit : ℕ) :
    Writes b (start + limit) (b.lkReversestring start limit) :=
  (writes_reverseLoop b start _ le_rfl).mono (Nat.add_le_add_left (lkStrlen_le ..) _)

end Writes

def digitCount (r : Radix) (value : ℕ) : ℕ := if value = 0 then 0 else digitCount r (value / r.base) + 1
termination_by value
decreasing_by exact r.div_lt ‹_›

theorem digitLoop_count (r : Radix) (b : Buffer) (start value i : ℕ) :
    (digitLoop r b start value i).2 = i + digitCount r value := by
  fun_induction digitLoop r b start value i with
  | case1 => rw [digitCount, if_pos rfl, Nat.add_zero]
  | case2 b value i h ih =>
    rw [ih, digitCount.eq_def r value, if_neg h]
    omega

theorem writes_digitLoop (r : Radix) (b : Buffer) (start value i : ℕ) :
    Writes b (start + (digitLoop r b start value i).2) (digitLoop r b start value i).1 := by
  fun_induction digitLoop r b start value i with
  | case1 => exact .refl
  | case2 b value i h ih =>
    refine (Writes.refl.store ?_ _).trans ih
    rw [digitLoop_count]
    omega

def hexLength (value : ℕ) : ℕ := if value = 0 then 1 else digitCount .hex value

def decLength (value : ℤ) : ℕ :=
  if value = 0 then 1 else (if value < 0 then 1 else 0) + digitCount .dec (magnitude value)

theorem lkHextostring_length (value : ℕ) (b : Buffer) (start : ℕ) :
    (lkHextostring value b start).2 = hexLength value := by
  unfold lkHextostring hexLength
  split
  · rfl
  · rw [digitLoop_count, Nat.zero_add]

theorem writes_lkHextostring (value : ℕ) (b : Buffer) (start : ℕ) :
    Writes b (start + (lkHextostring value b start).2 + 1) (lkHextostring value b start).1 := by
  unfold lkHextostring
  split
  · exact (Writes.refl.store (by omega) _).store (by omega) _
  · have hd := (writes_digitLoop .hex b start value 0).mono (Nat.le_succ _)
    exact (hd.store (by omega) _).trans ((writes_lkReversestring ..).mono (Nat.le_succ _))

theorem lkDecimaltostring_length (value : ℤ) (b : Buffer) (start : ℕ) :
    (lkDecimaltostring value b start).2 = decLength value := by
  unfold lkDecimaltostring decLength
  split
  · rfl
  · simp only [digitLoop_count]
    split <;> split <;> rfl

theorem writes_lkDecimaltostring (value : ℤ) (b : Buffer) (start : ℕ) :
    Writes b (start + (lkDecimaltostring value b start).2 + 1) (lkDecimaltostring value b start).1 := by
  unfold lkDecimaltostring
  split
  · exact (Writes.refl.store (by omega) _).store (by omega) _
  · obtain ⟨sign, hsign⟩ : ∃ sign, (if value < 0 then (b.store start 0x2D#8, 1) else (b, 0)) = sign := ⟨_, rfl⟩
    have hs : Writes b (start + 1) sign.1 := by
      rw [← hsign]
      split
      · exact Writes.refl.store (by omega) _
      · exact .refl
    simp only [hsign]
    obtain ⟨r, hr⟩ : ∃ r, digitLoop .dec sign.1 start (magnitude value) sign.2 = r := ⟨_, rfl⟩
    have hd := writes_digitLoop .dec sign.1 start (magnitude value) sign.2
    rw [hr] at hd ⊢
    have hstored : Writes b (start + r.2 + 1) (r.1.store (start + r.2) 0#8) :=
      ((hs.mono (by omega)).trans (hd.mono (by omega))).store (by omega) _
    split
    · exact hstored.trans ((writes_lkReversestring ..).mono (by omega))
    · exact hstored.trans ((writes_lkReversestring ..).mono (by omega))

def floatDigits : ℕ → D → ℕ → Option ℕ
  | 0, _, _ => none
  | fuel + 1, d, k =>
    if host.toQword d = 0 ∧ k ≠ 0 then some k else floatDigits fuel (host.div10 d) (k + 1)

def convertLength (fuel : ℕ) (c : BYTE) (ap : VaList D) : Option ℕ :=
  if c = 0x73#8 then some (host.str (ap.gp 0)).length
  else if c = 0x63#8 then some 1
  else if c = 0x64#8 ∨ c = 0x69#8 then some (decLength ((ap.gp 0).setWidth 32).toInt)
  else if c = 0x78#8 ∨ c = 0x58#8 then some (hexLength ((ap.gp 0).setWidth 32).toNat)
  else if c = 0x71#8 ∨ c = 0x51#8 ∨ c = 0x70#8 then some (hexLength (ap.gp 0).toNat)
  else if c = 0x66#8 then (floatDigits host fuel (host.add005 (ap.fp 0)) 0).map (3 + ·)
  else some 1

def textLength (fuel : ℕ) : List BYTE → VaList D → Option ℕ
  | [], _ => some 0
  | [_], _ => some 1
  | c :: c' :: rest, ap =>
    if c = 0x25#8 then
      match convertLength host fuel c' ap with
      | none => none
      | some n => (textLength fuel rest (vaNext c' ap)).map (n + ·)
    else (textLength fuel (c' :: rest) ap).map (1 + ·)

variable {host} {fuel : ℕ}

theorem floatLoop_count (b : Buffer) (start : ℕ) (d : D) (k : ℕ) :
    (floatLoop host fuel b start d k).2 = floatDigits host fuel d k := by
  induction fuel generalizing b d k with
  | zero => rfl
  | succ fuel ih =>
    rw [floatLoop, floatDigits]
    split
    · rfl
    · exact ih ..

theorem floatLoop_grows (b : Buffer) (start : ℕ) (d : D) (k : ℕ) : b.top ≤ (floatLoop host fuel b start d k).1.top := by
  induction fuel generalizing b d k with
  | zero => exact le_rfl
  | succ fuel ih =>
    rw [floatLoop]
    split
    · exact le_rfl
    · exact (store_grows ..).trans (ih ..)

theorem floatLoop_below (b : Buffer) (start : ℕ) (d : D) {k n : ℕ}
    (h : (floatLoop host fuel b start d k).2 = some n) :
    k ≤ n ∧ Writes b (start + 3 + n) (floatLoop host fuel b start d k).1 := by
  induction fuel generalizing b d k with
  | zero => exact absurd h (by simp [floatLoop])
  | succ fuel ih =>
    rw [floatLoop] at h ⊢
    split at h
    · next hz =>
      rw [if_pos hz]
      exact ⟨(Option.some.inj h).le, .refl⟩
    · next hz =>
      rw [if_neg hz]
      obtain ⟨hk, hw⟩ := ih _ _ h
      exact ⟨by omega, (Writes.refl.store (by omega) _).trans hw⟩

theorem floatLoop_endless (b : Buffer) (start : ℕ) (d : D) {k : ℕ}
    (h : (floatLoop host fuel b start d k).2 = none) (hk : k ≤ b.top) :
    k + fuel ≤ (floatLoop host fuel b start d k).1.top := by
  induction fuel generalizing b d k with
  | zero => exact hk
  | succ fuel ih =>
    rw [floatLoop] at h ⊢
    split at h
    · exact absurd h (by simp)
    · next hz =>
      rw [if_neg hz]
      have htop := store_top_gt b (start + 3 + k) (digit ((host.toQword d).toNat % 10))
      have := ih _ _ h (by omega)
      omega

theorem floatLoop_fuel (b : Buffer) (start : ℕ) (d : D) (k : ℕ) {n : ℕ} (j : ℕ)
    (h : (floatLoop host fuel b start d k).2 = some n) :
    floatLoop host (fuel + j) b start d k = floatLoop host fuel b start d k := by
  induction fuel generalizing b d k with
  | zero => exact absurd h (by simp [floatLoop])
  | succ fuel ih =>
    rw [Nat.add_right_comm, floatLoop, floatLoop]
    rw [floatLoop] at h
    split
    · rfl
    · next hz =>
      rw [if_neg hz] at h
      exact ih _ _ _ h

theorem floatLoop_mono (b : Buffer) (start : ℕ) (d : D) (k j : ℕ) :
    (floatLoop host fuel b start d k).1.top ≤ (floatLoop host (fuel + j) b start d k).1.top := by
  induction fuel generalizing b d k with
  | zero => exact floatLoop_grows ..
  | succ fuel ih =>
    rw [Nat.add_right_comm, floatLoop, floatLoop]
    split
    · exact le_rfl
    · exact ih ..

section Float

variable {d : D} {b : Buffer} {start n : ℕ}

def startFloat (host : Host D) (d : D) (b : Buffer) (start : ℕ) : Buffer :=
  ((b.store start (digit ((host.toQword (host.mul100 (host.add005 d))).toNat % 10))).store (start + 1)
    (digit ((host.toQword (host.mul10 (host.add005 d))).toNat % 10))).store (start + 2) 0x2E#8

def loopFloat (host : Host D) (fuel : ℕ) (d : D) (b : Buffer) (start : ℕ) : Buffer × Option ℕ :=
  floatLoop host fuel (startFloat host d b start) start (host.add005 d) 0

def endFloat (start : ℕ) : Buffer × Option ℕ → Buffer × Option ℕ
  | (b, none) => (b, none)
  | (b, some k) => ((b.store (start + 3 + k) 0#8).lkReversestring start (3 + k), some (3 + k))

theorem convertFloat_eq : convertFloat host fuel d b start = endFloat start (loopFloat host fuel d b start) := rfl

theorem startFloat_writes : Writes b (start + 3) (startFloat host d b start) :=
  ((Writes.refl.store (by omega) _).store (by omega) _).store (by omega) _

theorem endFloat_none {r : Buffer × Option ℕ} (h : (endFloat start r).2 = none) : r.2 = none ∧ endFloat start r = r := by
  obtain ⟨b, o⟩ := r
  cases o with
  | none => exact ⟨rfl, rfl⟩
  | some k => exact absurd h (by simp [endFloat])

theorem endFloat_some {r : Buffer × Option ℕ} (h : (endFloat start r).2 = some n) : ∃ k, r.2 = some k ∧ n = 3 + k ∧
    Writes r.1 (start + n + 1) (endFloat start r).1 := by
  obtain ⟨b, o⟩ := r
  cases o with
  | none => exact absurd h (by simp [endFloat])
  | some k =>
    have hn : n = 3 + k := (Option.some.inj h).symm
    exact ⟨k, rfl, hn, (Writes.refl.store (by omega) _).trans ((writes_lkReversestring ..).mono (by omega))⟩

theorem endFloat_grows (start : ℕ) (r : Buffer × Option ℕ) : r.1.top ≤ (endFloat start r).1.top := by
  obtain ⟨b, o⟩ := r
  cases o with
  | none => exact le_rfl
  | some k => exact (store_grows ..).trans (writes_lkReversestring ..).grows

theorem convertFloat_length :
    (convertFloat host fuel d b start).2 = (floatDigits host fuel (host.add005 d) 0).map (3 + ·) := by
  rw [convertFloat_eq, ← @floatLoop_count D host fuel (startFloat host d b start) start (host.add005 d) 0]
  obtain ⟨⟨b', o⟩, hr⟩ : ∃ r, loopFloat host fuel d b start = r := ⟨_, rfl⟩
  rw [loopFloat] at hr
  rw [loopFloat, hr]
  cases o <;> rfl

end Float

structure Stores (b : Buffer) (base : ℕ) (out : ℕ → Buffer × Option ℕ) : Prop where
  grows : ∀ fuel, b.top ≤ (out fuel).1.top
  below : ∀ fuel n, (out fuel).2 = some n → Writes b (base + n + 1) (out fuel).1
  endless : ∀ fuel, (out fuel).2 = none → fuel ≤ (out fuel).1.top
  stable : ∀ fuel n j, (out fuel).2 = some n → out (fuel + j) = out fuel
  mono : ∀ fuel j, (out fuel).1.top ≤ (out (fuel + j)).1.top

theorem stores_const {b b' : Buffer} {base n : ℕ} (h : Writes b (base + n + 1) b') :
    Stores b base fun _ => (b', some n) := by
  refine ⟨fun _ => h.grows, fun _ m hm => ?_, fun _ hn => ?_, fun _ _ _ _ => rfl, fun _ _ => le_rfl⟩
  · rwa [← Option.some.inj hm]
  · exact absurd hn (by simp)

theorem stores_convertFloat (d : D) (b : Buffer) (start : ℕ) :
    Stores b start fun fuel => convertFloat host fuel d b start := by
  have hstart := @startFloat_writes D host d b start
  simp only [convertFloat_eq]
  refine ⟨fun fuel => ?_, fun fuel n h => ?_, fun fuel h => ?_, fun fuel n j h => ?_, fun fuel j => ?_⟩
  · exact hstart.grows.trans ((floatLoop_grows ..).trans (endFloat_grows ..))
  · obtain ⟨k, hk, rfl, hend⟩ := endFloat_some h
    exact ((hstart.mono (by omega)).trans ((floatLoop_below _ _ _ hk).2.mono (by omega))).trans hend
  · obtain ⟨hk, heq⟩ := endFloat_none h
    have hloop := floatLoop_endless _ _ _ hk (Nat.zero_le _)
    rw [Nat.zero_add] at hloop
    rw [heq]
    exact hloop
  · obtain ⟨k, hk, _⟩ := endFloat_some h
    exact congrArg (endFloat start) (floatLoop_fuel _ _ _ _ j hk)
  · cases ho : (loopFloat host fuel d b start).2 with
    | some k => exact (congrArg (fun r => (endFloat start r).1.top) (floatLoop_fuel _ _ _ _ j ho)).ge
    | none =>
      obtain ⟨⟨b', o⟩, hr⟩ : ∃ r, loopFloat host fuel d b start = r := ⟨_, rfl⟩
      have hmono : b'.top ≤ (loopFloat host (fuel + j) d b start).1.top := by
        rw [show b' = (loopFloat host fuel d b start).1 by rw [hr]]
        exact floatLoop_mono ..
      rw [hr] at ho ⊢
      rw [show o = none from ho]
      exact hmono.trans (endFloat_grows ..)

theorem convert_length (c : BYTE) (ap : VaList D) (b : Buffer) (i : ℕ) :
    (convert host fuel c ap b i).2 = convertLength host fuel c ap := by
  unfold convert convertLength
  split_ifs
  · rfl
  · rfl
  · exact congrArg some (lkDecimaltostring_length ..)
  · exact congrArg some (lkHextostring_length ..)
  · exact congrArg some (lkHextostring_length ..)
  · exact convertFloat_length
  · rfl

theorem stores_convert (c : BYTE) (ap : VaList D) (b : Buffer) (i : ℕ) :
    Stores b i fun fuel => convert host fuel c ap b i := by
  unfold convert
  split_ifs
  · exact stores_const ((writes_copy ..).mono (Nat.le_succ _))
  · exact stores_const (Writes.refl.store (by omega) _)
  · exact stores_const (writes_lkDecimaltostring ..)
  · exact stores_const (writes_lkHextostring ..)
  · exact stores_const (writes_lkHextostring ..)
  · exact stores_convertFloat ..
  · exact stores_const (Writes.refl.store (by omega) _)

section Loop

variable {c c' : BYTE} {rest : List BYTE} {ap : VaList D} {b : Buffer} {i n : ℕ}

theorem vsprintfLoop_none (hc : c = 0x25#8) (h : (convert host fuel c' ap b i).2 = none) :
    vsprintfLoop host fuel (c :: c' :: rest) ap b i = ((convert host fuel c' ap b i).1, none) := by
  obtain ⟨⟨b', o⟩, hr⟩ : ∃ r, convert host fuel c' ap b i = r := ⟨_, rfl⟩
  rw [vsprintfLoop, if_pos hc, hr]
  rw [hr] at h
  rw [show o = none from h]

theorem vsprintfLoop_some (hc : c = 0x25#8) (h : (convert host fuel c' ap b i).2 = some n) :
    vsprintfLoop host fuel (c :: c' :: rest) ap b i =
      vsprintfLoop host fuel rest (vaNext c' ap) (convert host fuel c' ap b i).1 (i + n) := by
  obtain ⟨⟨b', o⟩, hr⟩ : ∃ r, convert host fuel c' ap b i = r := ⟨_, rfl⟩
  rw [vsprintfLoop, if_pos hc, hr]
  rw [hr] at h
  rw [show o = some n from h]

theorem vsprintfLoop_char (hc : c ≠ 0x25#8) : vsprintfLoop host fuel (c :: c' :: rest) ap b i =
    vsprintfLoop host fuel (c' :: rest) ap (b.store i c) (i + 1) := by
  rw [vsprintfLoop, if_neg hc]

end Loop

theorem vsprintfLoop_length : ∀ (parameter : List BYTE) (ap : VaList D) (b : Buffer) (i : ℕ),
    (vsprintfLoop host fuel parameter ap b i).2 = (textLength host fuel parameter ap).map (i + ·)
  | [], _, _, _ => rfl
  | [_], _, _, _ => rfl
  | c :: c' :: rest, ap, b, i => by
    rw [textLength]
    by_cases hc : c = 0x25#8
    · rw [if_pos hc]
      cases ho : convertLength host fuel c' ap with
      | none => rw [vsprintfLoop_none hc (by rw [convert_length, ho])]; rfl
      | some n =>
        rw [vsprintfLoop_some hc (by rw [convert_length, ho]), vsprintfLoop_length rest, Option.map_map]
        simp only [Function.comp_def, Nat.add_assoc]
    · rw [if_neg hc, vsprintfLoop_char hc, vsprintfLoop_length (c' :: rest), Option.map_map]
      simp only [Function.comp_def, Nat.add_assoc]

theorem vsprintfLoop_le {parameter : List BYTE} {ap : VaList D} {b : Buffer} {i m : ℕ}
    (h : (vsprintfLoop host fuel parameter ap b i).2 = some m) : i ≤ m := by
  rw [vsprintfLoop_length] at h
  obtain ⟨n, _, rfl⟩ := Option.map_eq_some_iff.1 h
  exact Nat.le_add_right ..

theorem Stores.bind {b : Buffer} {i : ℕ} {p out : ℕ → Buffer × Option ℕ}
    {rest : ℕ → Buffer → ℕ → Buffer × Option ℕ} (hp : Stores b i p)
    (hrest : ∀ n b', Stores b' 0 (rest n b')) (hle : ∀ n b' fuel m, (rest n b' fuel).2 = some m → i + n ≤ m)
    (hnone : ∀ fuel, (p fuel).2 = none → out fuel = ((p fuel).1, none))
    (hsome : ∀ fuel n, (p fuel).2 = some n → out fuel = rest n (p fuel).1 fuel) : Stores b 0 out := by
  refine ⟨fun fuel => ?_, fun fuel m h => ?_, fun fuel h => ?_, fun fuel m j h => ?_, fun fuel j => ?_⟩
  all_goals cases ho : (p fuel).2 with
  | none => ?_
  | some n => ?_
  · rw [hnone fuel ho]
    exact hp.grows fuel
  · rw [hsome fuel n ho]
    exact (hp.grows fuel).trans ((hrest ..).grows fuel)
  · rw [hnone fuel ho] at h
    exact absurd h (by simp)
  · rw [hsome fuel n ho] at h ⊢
    have hm := hle n _ fuel m h
    exact ((hp.below fuel n ho).mono (by omega)).trans ((hrest ..).below fuel m h)
  · rw [hnone fuel ho]
    exact hp.endless fuel ho
  · rw [hsome fuel n ho] at h ⊢
    exact (hrest ..).endless fuel h
  · rw [hnone fuel ho] at h
    exact absurd h (by simp)
  · have hst := hp.stable fuel n j ho
    rw [hsome fuel n ho] at h
    rw [hsome fuel n ho, hsome (fuel + j) n (by rw [hst, ho]), hst]
    exact (hrest ..).stable fuel m j h
  · rw [hnone fuel ho]
    have hmono := hp.mono fuel j
    cases hj : (p (fuel + j)).2 with
    | none =>
      rw [hnone _ hj]
      exact hmono
    | some n =>
      rw [hsome _ n hj]
      exact hmono.trans ((hrest ..).grows _)
  · have hst := hp.stable fuel n j ho
    rw [hsome fuel n ho, hsome (fuel + j) n (by rw [hst, ho]), hst]
    exact (hrest ..).mono fuel j

theorem stores_vsprintfLoop : ∀ (parameter : List BYTE) (ap : VaList D) (b : Buffer) (i : ℕ),
    Stores b 0 fun fuel => vsprintfLoop host fuel parameter ap b i
  | [], _, _, _ => stores_const (Writes.refl.store (by omega) _)
  | [_], _, _, _ => stores_const ((Writes.refl.store (by omega) _).store (by omega) _)
  | c :: c' :: rest, ap, b, i => by
    by_cases hc : c = 0x25#8
    · exact (stores_convert c' ap b i).bind (fun n b' => stores_vsprintfLoop rest (vaNext c' ap) b' (i + n))
        (fun _ _ _ _ h => vsprintfLoop_le h) (fun _ h => vsprintfLoop_none hc h) fun _ _ h => vsprintfLoop_some hc h
    · have hstore : Stores b i fun _ => (b.store i c, some 1) := stores_const (Writes.refl.store (by omega) _)
      refine hstore.bind (fun n b' => stores_vsprintfLoop (c' :: rest) ap b' (i + n))
        (fun _ _ _ _ h => vsprintfLoop_le h) (fun _ h => absurd h (by simp)) fun fuel n h => ?_
      rw [vsprintfLoop_char hc, ← Option.some.inj h]

theorem vsprintfLoop_top_gt : ∀ (parameter : List BYTE) (ap : VaList D) (b : Buffer) (i : ℕ) {m : ℕ},
    (vsprintfLoop host fuel parameter ap b i).2 = some m → m < (vsprintfLoop host fuel parameter ap b i).1.top
  | [], _, _, _, _, h => Option.some.inj h ▸ store_top_gt ..
  | [_], _, _, _, _, h => Option.some.inj h ▸ store_top_gt ..
  | c :: c' :: rest, ap, b, i, m, h => by
    by_cases hc : c = 0x25#8
    · cases ho : (convert host fuel c' ap b i).2 with
      | none =>
        rw [vsprintfLoop_none hc ho] at h
        exact absurd h (by simp)
      | some n =>
        rw [vsprintfLoop_some hc ho] at h ⊢
        exact vsprintfLoop_top_gt rest _ _ _ h
    · rw [vsprintfLoop_char hc] at h ⊢
      exact vsprintfLoop_top_gt (c' :: rest) _ _ _ h

theorem textLength_plain {plain : List BYTE} (h : 0x25#8 ∉ plain) (rest : List BYTE) (ap : VaList D) :
    textLength host fuel (plain ++ rest) ap = (textLength host fuel rest ap).map (plain.length + ·) := by
  induction plain with
  | nil => simp
  | cons c plain ih =>
    have hc : c ≠ 0x25#8 := fun hc => h (hc ▸ List.mem_cons_self)
    have hcons : textLength host fuel (c :: (plain ++ rest)) ap =
        (textLength host fuel (plain ++ rest) ap).map (1 + ·) := by
      cases plain ++ rest with
      | nil => rfl
      | cons c' rest => rw [textLength, if_neg hc]
    rw [List.cons_append, hcons, ih fun hm => h (List.mem_cons_of_mem c hm), Option.map_map]
    refine congrFun (congrArg Option.map (funext fun k => ?_)) _
    simp only [Function.comp_apply, List.length_cons]
    omega

theorem textLength_conversion {c : BYTE} {n : ℕ} {ap : VaList D} (h : convertLength host fuel c ap = some n)
    (rest : List BYTE) : textLength host fuel (0x25#8 :: c :: rest) ap =
      (textLength host fuel rest (vaNext c ap)).map (n + ·) := by
  rw [textLength, if_pos rfl, h]

theorem lkVsprintf_length (b : Buffer) (parameter : List BYTE) (ap : VaList D) :
    (lkVsprintf host fuel b parameter ap).2 = textLength host fuel parameter ap := by
  rw [lkVsprintf, vsprintfLoop_length]
  simp

theorem lkVsprintf_top {b : Buffer} {parameter : List BYTE} {ap : VaList D} {n : ℕ} (hb : b.top = 0)
    (h : textLength host fuel parameter ap = some n) : (lkVsprintf host fuel b parameter ap).1.top = n + 1 := by
  have hs : (lkVsprintf host fuel b parameter ap).2 = some n := by rw [lkVsprintf_length, h]
  have hgt := vsprintfLoop_top_gt parameter ap b 0 hs
  have hle := ((stores_vsprintfLoop parameter ap b 0).below fuel n hs).below
  rw [hb, Nat.zero_max] at hle
  rw [lkVsprintf]
  omega

theorem lkVsprintf_top_le_iff {b : Buffer} (hb : b.top = 0) {N : ℕ} (parameter : List BYTE) (ap : VaList D) :
    (∀ fuel, (lkVsprintf host fuel b parameter ap).1.top ≤ N) ↔
      ∃ fuel n, textLength host fuel parameter ap = some n ∧ n < N := by
  have hst := @stores_vsprintfLoop D host parameter ap b 0
  constructor
  · intro h
    have hN := h (N + 1)
    cases ho : textLength host (N + 1) parameter ap with
    | none =>
      have := hst.endless (N + 1) (by rw [← lkVsprintf, lkVsprintf_length, ho])
      rw [lkVsprintf] at hN
      omega
    | some n =>
      rw [lkVsprintf_top hb ho] at hN
      exact ⟨N + 1, n, ho, hN⟩
  · rintro ⟨fuel, n, ho, hn⟩ fuel'
    have hmono := hst.mono fuel' fuel
    have hstable := hst.stable fuel n fuel' (by rw [← lkVsprintf, lkVsprintf_length, ho])
    have htop := lkVsprintf_top hb ho
    rw [Nat.add_comm fuel fuel'] at hstable
    rw [hstable] at hmono
    rw [lkVsprintf] at htop ⊢
    omega

end Format
end Azalea
