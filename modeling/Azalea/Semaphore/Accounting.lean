import Azalea.Semaphore.Sem

namespace Azalea

inductive SemEntry
  | wait
  | timedwait (ms : BitVec 32)
  | cancelablewait (ms : BitVec 32)
  | trywait
  deriving DecidableEq

structure Account where
  sem : Sem
  waits : ℕ → Bool
  granted : ℕ
  posts : ℕ

inductive AccountEvent
  | call (t : ℕ) (e : SemEntry)
  | retry (t : ℕ)
  | post
  deriving DecidableEq

namespace Account

variable (a : Account) (t : ℕ) (ms : BitVec 32)

def init (v : BitVec 32) : Account where
  sem := Sem.azSemInit v
  waits _ := false
  granted := 0
  posts := 0

def turn : Account :=
  match a.sem.azSemWait t with
  | (true, sem) => { a with sem := sem, waits := Function.update a.waits t false, granted := a.granted + 1 }
  | (false, sem) => { a with sem := sem, waits := Function.update a.waits t true }

-- the branch for ms other than 0 is compiled out and falls through to return 0
def azSemWait : Account := if ms = 0 then a.turn t else { a with granted := a.granted + 1 }

def azSemTrywait : Account :=
  let r := a.sem.azSemTrywait
  { a with sem := r.2, granted := if r.1 = 0 then a.granted + 1 else a.granted }

def sysSemWait : Account := a.azSemWait t 0

def sysSemTimedwait : Account := a.azSemWait t ms

def sysSemCancelablewait : Account := a.azSemWait t ms

def sysSemPost : Account := { a with sem := a.sem.azSemPost.2, posts := a.posts + 1 }

def enter : SemEntry → Account
  | .wait => a.sysSemWait t
  | .timedwait ms => a.sysSemTimedwait t ms
  | .cancelablewait ms => a.sysSemCancelablewait t ms
  | .trywait => a.azSemTrywait

def exec (a : Account) : AccountEvent → Option Account
  | .call t e => if a.waits t = false then some (a.enter t e) else none
  | .retry t => if a.waits t = true then some (a.turn t) else none
  | .post => if a.sem.value + 1 < dwordSize then some a.sysSemPost else none

def Balanced (v : BitVec 32) (a : Account) : Prop :=
  a.granted ≤ v.toNat + a.posts ∧ (a.sem.value : ℤ) = v.toNat + a.posts - a.granted

end Account

def AccountEvent.timed : AccountEvent → Bool
  | .call _ (.timedwait ms) | .call _ (.cancelablewait ms) => ms ≠ 0
  | .call _ .wait | .call _ .trywait | .retry _ | .post => false

namespace Account

variable {a b : Account} {t : ℕ} {ms : BitVec 32} {e : AccountEvent}

def Moved (a b : Account) (n : ℕ) : Prop :=
  b.sem.value + b.granted + a.posts = a.sem.value + a.granted + b.posts + n

theorem turn_moved : Moved a (a.turn t) 0 := by
  unfold turn Sem.azSemWait
  by_cases hv : 0 < a.sem.value
  · rw [if_pos hv]
    change a.sem.value - 1 + (a.granted + 1) + a.posts = a.sem.value + a.granted + a.posts + 0
    omega
  · rw [if_neg hv]
    rfl

theorem azSemWait_moved : Moved a (a.azSemWait t ms) (if ms = 0 then 0 else 1) := by
  unfold azSemWait
  split
  · exact turn_moved
  · change a.sem.value + (a.granted + 1) + a.posts = a.sem.value + a.granted + a.posts + 1
    omega

theorem azSemTrywait_moved : Moved a a.azSemTrywait 0 := by
  unfold azSemTrywait Sem.azSemTrywait
  by_cases hv : 0 < a.sem.value
  · simp only [if_pos hv, if_true]
    change a.sem.value - 1 + (a.granted + 1) + a.posts = a.sem.value + a.granted + a.posts + 0
    omega
  · simp only [if_neg hv]
    rfl

theorem sysSemPost_moved (hv : a.sem.value + 1 < dwordSize) : Moved a a.sysSemPost 0 := by
  have hval : a.sem.azSemPost.2.value = a.sem.value + 1 := by
    have hm := Nat.mod_eq_of_lt hv
    unfold Sem.azSemPost
    dsimp only
    split
    · exact hm
    · exact hm
  change a.sem.azSemPost.2.value + a.granted + a.posts = a.sem.value + a.granted + (a.posts + 1)
  omega

theorem exec_moved (h : a.exec e = some b) : Moved a b (if e.timed then 1 else 0) := by
  cases e with
  | call t e =>
    obtain ⟨_, heq⟩ := Option.ite_none_right_eq_some.mp h
    cases heq
    cases e with
    | wait => exact azSemWait_moved
    | timedwait ms =>
      have hm : Moved a (a.enter t (.timedwait ms)) (if ms = 0 then 0 else 1) := azSemWait_moved
      simpa [AccountEvent.timed] using hm
    | cancelablewait ms =>
      have hm : Moved a (a.enter t (.cancelablewait ms)) (if ms = 0 then 0 else 1) := azSemWait_moved
      simpa [AccountEvent.timed] using hm
    | trywait => exact azSemTrywait_moved
  | retry t =>
    obtain ⟨_, heq⟩ := Option.ite_none_right_eq_some.mp h
    cases heq
    exact turn_moved
  | post =>
    obtain ⟨hv, heq⟩ := Option.ite_none_right_eq_some.mp h
    cases heq
    exact sysSemPost_moved hv

theorem run_moved {es : List AccountEvent} (h : es.foldlM exec a = some b) :
    Moved a b (es.countP AccountEvent.timed) := by
  induction es generalizing a with
  | nil =>
    cases h
    rfl
  | cons e es ih =>
    rw [List.foldlM_cons] at h
    obtain ⟨c, he, h⟩ := Option.bind_eq_some_iff.mp h
    have hstep := exec_moved he
    have hrest := ih h
    rw [List.countP_cons]
    unfold Moved at hstep hrest ⊢
    omega

theorem run_balanced_iff (v : BitVec 32) {es : List AccountEvent} (h : es.foldlM exec (init v) = some a) :
    Balanced v a ↔ ∀ e ∈ es, e.timed = false := by
  have hm : a.sem.value + a.granted = v.toNat + a.posts + es.countP AccountEvent.timed := run_moved h
  have hz : es.countP AccountEvent.timed = 0 ↔ ∀ e ∈ es, e.timed = false := by
    simp [List.countP_eq_zero]
  rw [← hz, Balanced]
  omega

theorem timedwait_unbalanced : ∃ a, [.call 5 (.timedwait 1)].foldlM exec (init 0) = some a ∧
    a.granted = 1 ∧ a.posts = 0 ∧ a.sem.value = 0 ∧ ¬Balanced 0 a := by
  refine ⟨_, rfl, rfl, rfl, rfl, fun h => ?_⟩
  exact absurd h.1 (by decide)

theorem wait_post_balanced : ∃ a, [.call 5 (.timedwait 0), .post, .retry 5, .post, .call 6 .trywait].foldlM exec (init 0) =
    some a ∧ a.granted = 2 ∧ Balanced 0 a := by
  have hrun : ([.call 5 (.timedwait 0), .post, .retry 5, .post, .call 6 .trywait].foldlM exec (init 0)).map
      (fun a => a.granted) = some 2 := by decide +kernel
  obtain ⟨a, ha, hview⟩ := Option.map_eq_some_iff.mp hrun
  exact ⟨a, ha, hview, (run_balanced_iff 0 ha).mpr (by decide)⟩

end Account

end Azalea
