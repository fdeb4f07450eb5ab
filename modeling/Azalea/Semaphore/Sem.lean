import Azalea.Config
import Azalea.Foundation.Ring

namespace Azalea

@[simp] def maxSemQueueSize : ℕ := maxThreadId

@[simp] def dwordSize : ℕ := 2 ^ 32

@[simp] def ecanceled : ℤ := 125

structure Sem where
  value : ℕ
  queue : ℕ → ℕ
  wpos : ℕ
  rpos : ℕ

namespace Sem

variable (s : Sem) (id : ℕ)

def azSemInit (v : BitVec 32) : Sem where
  value := v.toNat
  queue _ := maxThreadId
  wpos := 0
  rpos := 0

def azSemTrywait : ℤ × Sem := if 0 < s.value then (0, { s with value := s.value - 1 }) else (-ecanceled, s)

def enqueue : Sem :=
  { s with
    queue := Function.update s.queue s.wpos id
    wpos := (s.wpos + 1) % maxSemQueueSize }

-- one turn of next_try1: false when the caller goes on to schedule(THREAD_INTENTION_BLOCKED)
def azSemWait : Bool × Sem :=
  if 0 < s.value then (true, { s with value := s.value - 1 }) else (false, s.enqueue id)

def azSemPost : Option ℕ × Sem :=
  let s := { s with value := (s.value + 1) % dwordSize }
  if s.queue s.rpos < maxThreadId then
    (some (s.queue s.rpos),
      { s with
        queue := Function.update s.queue s.rpos maxThreadId
        rpos := (s.rpos + 1) % maxSemQueueSize })
  else (none, s)

def Queued (l : List ℕ) : Prop := Ring.Holds maxSemQueueSize maxThreadId s.queue s.rpos s.wpos l

variable {s id} {l : List ℕ}

theorem azSemInit_queued (v : BitVec 32) : (azSemInit v).Queued [] := Ring.holds_nil (by simp)

theorem Queued.enqueue (h : s.Queued l) (hroom : l.length < maxSemQueueSize) (hid : id < maxThreadId) :
    (s.enqueue id).Queued (l ++ [id]) := Ring.Holds.push h hroom (Nat.ne_of_lt hid)

theorem Queued.post_nil (h : s.Queued []) :
    s.azSemPost = (none, { s with value := (s.value + 1) % dwordSize }) := by
  have hm : s.queue s.rpos = maxThreadId := h.head_eq_mark_iff.mpr rfl
  unfold azSemPost
  rw [if_neg (Nat.not_lt_of_le (Nat.le_of_eq hm.symm))]

theorem Queued.post_cons {t : ℕ} (h : s.Queued (t :: l)) (ht : t < maxThreadId) :
    ∃ s' : Sem, s.azSemPost = (some t, s') ∧ s'.Queued l ∧ s'.value = (s.value + 1) % dwordSize := by
  have hm : s.queue s.rpos = t := h.head
  unfold azSemPost
  dsimp only
  rw [if_pos (hm.symm ▸ ht), hm]
  exact ⟨_, rfl, h.pop, rfl⟩

end Sem

end Azalea
