import Azalea.Foundation.Run
import Mathlib.Data.List.Basic
import Mathlib.Logic.Function.Basic
import Mathlib.Tactic.Linarith

namespace Azalea

structure SignalT (ι : Type*) where
  dest : ι
  signum : BitVec 32

namespace Signal
variable {ι κ H : Type*} [DecidableEq ι]

-- rdi holds the sign-extended signum, the handler takes an int
def handlerArg (signum : BitVec 32) : BitVec 32 := (signum.signExtend 64).setWidth 32

omit [DecidableEq ι] in
theorem handlerArg_eq (signum : BitVec 32) : handlerArg signum = signum := by
  ext i hi
  simp [handlerArg, BitVec.getLsbD_signExtend, hi]
  omega

def doSignal (tid : ι) : List (SignalT ι) → ℤ → List (BitVec 32) × List (SignalT ι) × ℤ
  | [], count => ([], [], count)
  | signal :: rest, count =>
    if signal.dest = tid then
      let (args, kept, count) := doSignal tid rest (count - 1)
      (handlerArg signal.signum :: args, kept, count)
    else
      let (args, kept, count) := doSignal tid rest count
      (args, signal :: kept, count)

def pendingIn (t : ι) (l : List (SignalT ι)) : List (BitVec 32) :=
  (l.filter fun signal => signal.dest = t).map SignalT.signum

section DoSignal
variable (tid : ι) (l : List (SignalT ι)) (count : ℤ)

theorem doSignal_args : (doSignal tid l count).1 = pendingIn tid l := by
  induction l generalizing count with
  | nil => rfl
  | cons signal rest ih =>
    by_cases h : signal.dest = tid
    · simpa [doSignal, pendingIn, h, handlerArg_eq] using ih (count - 1)
    · simpa [doSignal, pendingIn, h] using ih count

theorem doSignal_pendingIn (t : ι) :
    pendingIn t (doSignal tid l count).2.1 = if t = tid then [] else pendingIn t l := by
  induction l generalizing count with
  | nil => simp [doSignal, pendingIn]
  | cons signal rest ih =>
    by_cases h : signal.dest = tid
    · have hrest := ih (count - 1)
      split at hrest
      · next ht => simpa [doSignal, h, ht] using hrest
      · next ht => simpa [doSignal, pendingIn, h, ht, Ne.symm ht] using hrest
    · have hrest := ih count
      split at hrest
      · next ht => simpa [doSignal, pendingIn, h, ht] using hrest
      · next ht =>
        by_cases hd : signal.dest = t
        · simpa [doSignal, pendingIn, h, ht, hd] using hrest
        · simpa [doSignal, pendingIn, h, ht, hd] using hrest

theorem doSignal_count :
    (doSignal tid l count).2.2 - (doSignal tid l count).2.1.length = count - l.length := by
  induction l generalizing count with
  | nil => rfl
  | cons signal rest ih =>
    by_cases h : signal.dest = tid
    · have hrest := ih (count - 1)
      simp only [doSignal, h, if_true, List.length_cons]
      push_cast
      linarith
    · have hrest := ih count
      simp only [doSignal, h, if_false, List.length_cons]
      push_cast
      linarith

end DoSignal

inductive Pc (ι : Type*) where
  | user
  | flagging (dest : ι)
  | tested
  | delivered
  | unflagged

structure Call (H : Type*) where
  handler : Option H
  registered : Option H
  signum : BitVec 32

-- registered, sent, entered, calls and direct are history: the last argument of sys_signal, the signums of the other
-- threads' sys_kill calls, the handlers do_signal was entered with, and the calls of do_signal and of sys_kill
structure State (ι κ H : Type*) where
  signalFlag : ι → Bool
  signalHandler : ι → Option H
  sigList : κ → List (SignalT ι)
  count : κ → ℤ
  pc : ι → Pc ι
  registered : ι → Option H
  sent : ι → List (BitVec 32)
  entered : ι → List (Option H)
  calls : ι → List (Call H)
  direct : ι → List (H × BitVec 32)

def init : State ι κ H where
  signalFlag _ := false
  signalHandler _ := none
  sigList _ := []
  count _ := 0
  pc _ := .user
  registered _ := none
  sent _ := []
  entered _ := []
  calls _ := []
  direct _ := []

inductive Act (ι H : Type*) where
  | signal (t : ι) (handler : Option H)
  | kill (curr dest : ι) (signum : BitVec 32)
  | flag (curr : ι)
  | resume (t : ι)
  | handle (t : ι)

section
variable (core : ι → κ)

def State.pending (s : State ι κ H) (t : ι) : List (BitVec 32) := pendingIn t (s.sigList (core t))

inductive Step [DecidableEq κ] (s : State ι κ H) : Act ι H → State ι κ H → Prop
  | signal (t : ι) (handler : Option H) : s.pc t = .user → Step s (.signal t handler)
      { s with
        signalHandler := Function.update s.signalHandler t handler
        registered := Function.update s.registered t handler }
  | killSelf (t : ι) (signum : BitVec 32) : s.pc t = .user → Step s (.kill t t signum)
      { s with
        direct := match s.signalHandler t with
          | some handler => Function.update s.direct t (s.direct t ++ [(handler, signum)])
          | none => s.direct }
  | kill (curr dest : ι) (signum : BitVec 32) : dest ≠ curr → s.pc curr = .user → Step s (.kill curr dest signum)
      { s with
        sigList := Function.update s.sigList (core dest) (s.sigList (core dest) ++ [⟨dest, signum⟩])
        count := Function.update s.count (core dest) (s.count (core dest) + 1)
        pc := Function.update s.pc curr (.flagging dest)
        sent := Function.update s.sent dest (s.sent dest ++ [signum]) }
  | flag (curr dest : ι) : s.pc curr = .flagging dest → Step s (.flag curr)
      { s with
        signalFlag := Function.update s.signalFlag dest true
        pc := Function.update s.pc curr .user }
  | resumeIdle (t : ι) : s.pc t = .user → s.signalFlag t = false → Step s (.resume t) s
  | resume (t : ι) : s.pc t = .user → s.signalFlag t = true → Step s (.resume t)
      { s with pc := Function.update s.pc t .tested }
  | doSignal (t : ι) : s.pc t = .tested → Step s (.handle t)
      { s with
        sigList := Function.update s.sigList (core t) (doSignal t (s.sigList (core t)) (s.count (core t))).2.1
        count := Function.update s.count (core t) (doSignal t (s.sigList (core t)) (s.count (core t))).2.2
        pc := Function.update s.pc t .delivered
        entered := Function.update s.entered t (s.entered t ++ [s.signalHandler t])
        calls := Function.update s.calls t (s.calls t ++
          (doSignal t (s.sigList (core t)) (s.count (core t))).1.map (Call.mk (s.signalHandler t) (s.registered t))) }
  | unflag (t : ι) : s.pc t = .delivered → Step s (.handle t)
      { s with
        signalFlag := Function.update s.signalFlag t false
        pc := Function.update s.pc t .unflagged }
  | reset (t : ι) : s.pc t = .unflagged → Step s (.handle t)
      { s with
        signalHandler := Function.update s.signalHandler t none
        pc := Function.update s.pc t .user }

end

namespace State
variable (core : ι → κ) (s : State ι κ H)

structure Ledger : Prop where
  fifo : ∀ t, s.sent t = (s.calls t).map Call.signum ++ s.pending core t
  count : ∀ c, s.count c = (s.sigList c).length

structure Heard : Prop where
  handled : ∀ t, ∀ call ∈ s.calls t, ∃ handler, call.handler = some handler ∧ call.registered = some handler
  awaited : ∀ t, s.pending core t ≠ [] → s.signalFlag t = true ∨ ∃ u, s.pc u = .flagging t
  entered : ∀ t, none ∉ s.entered t

structure Delivers : Prop extends s.Ledger core, s.Heard core

def Handling (t : ι) : Prop := s.pc t = .tested ∨ s.pc t = .delivered ∨ s.pc t = .unflagged

def Careful : Act ι H → Prop
  | .signal t handler => handler ≠ none ∨ s.signalFlag t = false ∧ ∀ u, s.pc u ≠ .flagging t
  | .kill curr dest _ => curr = dest ∨ s.signalHandler dest ≠ none ∧ ¬ s.Handling dest
  | .flag _ => True
  | .resume t => ∀ u, s.pc u ≠ .flagging t
  | .handle _ => True

structure Guarded : Prop extends s.Heard core where
  known : ∀ t handler, s.signalHandler t = some handler → s.registered t = some handler
  armed : ∀ t, (s.signalFlag t = true ∨ ∃ u, s.pc u = .flagging t) → s.signalHandler t ≠ none
  free : ∀ t, s.Handling t → ∀ u, s.pc u ≠ .flagging t
  raised : ∀ t, s.pc t = .tested → s.signalFlag t = true
  drained : ∀ t, s.pc t = .delivered ∨ s.pc t = .unflagged → s.pending core t = []
  lowered : ∀ t, s.pc t = .unflagged → s.signalFlag t = false

end State

section Pending
variable [DecidableEq κ] {core : ι → κ} {l : κ → List (SignalT ι)} {t u : ι}

theorem pendingIn_update_append (signum : BitVec 32) :
    pendingIn u (Function.update l (core t) (l (core t) ++ [⟨t, signum⟩]) (core u)) =
      pendingIn u (l (core u)) ++ if u = t then [signum] else [] := by
  rcases eq_or_ne u t with rfl | hne
  · simp [pendingIn]
  · rcases eq_or_ne (core u) (core t) with hc | hc
    · simp [pendingIn, hc, hne, hne.symm]
    · simp [pendingIn, hc, hne]

theorem pendingIn_update_doSignal (count : ℤ) :
    pendingIn u (Function.update l (core t) (doSignal t (l (core t)) count).2.1 (core u)) =
      if u = t then [] else pendingIn u (l (core u)) := by
  rcases eq_or_ne (core u) (core t) with hc | hc
  · rw [hc, Function.update_self, doSignal_pendingIn]
  · have hne : u ≠ t := fun he => hc (congrArg core he)
    rw [Function.update_of_ne hc, if_neg hne]

end Pending

namespace State.Ledger
variable {core : ι → κ} {s s' : State ι κ H} {a : Act ι H}

theorem init : (init : State ι κ H).Ledger core := ⟨fun _ => rfl, fun _ => rfl⟩

theorem step [DecidableEq κ] (h : s.Ledger core) (hs : Step core s a s') : s'.Ledger core := by
  cases hs with
  | signal t handler _ => exact ⟨h.fifo, h.count⟩
  | killSelf t signum _ => exact ⟨h.fifo, h.count⟩
  | flag curr dest _ => exact ⟨h.fifo, h.count⟩
  | resumeIdle t _ _ => exact h
  | resume t _ _ => exact ⟨h.fifo, h.count⟩
  | unflag t _ => exact ⟨h.fifo, h.count⟩
  | reset t _ => exact ⟨h.fifo, h.count⟩
  | kill curr dest signum hne _ =>
    constructor
    · intro t
      have hfifo := h.fifo t
      rw [State.pending] at hfifo ⊢
      rw [pendingIn_update_append, ← List.append_assoc]
      rcases eq_or_ne t dest with rfl | ht
      · simp [hfifo]
      · simpa [ht] using hfifo
    · intro c
      rcases eq_or_ne c (core dest) with rfl | hc
      · simpa using h.count (core dest)
      · simpa [hc] using h.count c
  | doSignal t _ =>
    constructor
    · intro u
      have hfifo := h.fifo u
      rw [State.pending] at hfifo ⊢
      rw [pendingIn_update_doSignal]
      rcases eq_or_ne u t with rfl | hu
      · simpa [doSignal_args, Function.comp_def] using hfifo
      · simpa [hu] using hfifo
    · intro c
      rcases eq_or_ne c (core t) with rfl | hc
      · have hcount := doSignal_count t (s.sigList (core t)) (s.count (core t))
        rw [h.count (core t), sub_self, sub_eq_zero] at hcount
        simpa [h.count (core t)] using hcount
      · simpa [hc] using h.count c

end State.Ledger

theorem pc_of_update {pc : ι → Pc ι} {x u : ι} {p q : Pc ι} (hne : q ≠ p) (h : Function.update pc x p u = q) :
    pc u = q := by
  rcases eq_or_ne u x with rfl | hu
  · rw [Function.update_self] at h
    exact absurd h.symm hne
  · rwa [Function.update_of_ne hu] at h

theorem handling_of_update {pc : ι → Pc ι} {x u : ι} {p : Pc ι} (hp : p = .user ∨ ∃ dest, p = .flagging dest)
    (h : Function.update pc x p u = .tested ∨ Function.update pc x p u = .delivered ∨
      Function.update pc x p u = .unflagged) : pc u = .tested ∨ pc u = .delivered ∨ pc u = .unflagged := by
  have hne : .tested ≠ p ∧ .delivered ≠ p ∧ .unflagged ≠ p := by
    rcases hp with rfl | ⟨dest, rfl⟩ <;> simp
  exact h.imp (pc_of_update hne.1) (Or.imp (pc_of_update hne.2.1) (pc_of_update hne.2.2))

theorem flagging_update {pc : ι → Pc ι} {x t : ι} {p : Pc ι} (hx : pc x ≠ .flagging t) (h : ∃ u, pc u = .flagging t) :
    ∃ u, Function.update pc x p u = .flagging t := by
  obtain ⟨u, hu⟩ := h
  have hne : u ≠ x := by
    rintro rfl
    exact hx hu
  exact ⟨u, by rwa [Function.update_of_ne hne]⟩

namespace State.Guarded
variable {core : ι → κ} {s s' : State ι κ H} {a : Act ι H}

theorem init : (init : State ι κ H).Guarded core where
  handled _ _ h := absurd h List.not_mem_nil
  awaited _ h := absurd rfl h
  entered _ := List.not_mem_nil
  known _ _ h := h
  armed := by simp [Signal.init]
  free := by simp [State.Handling, Signal.init]
  raised := by simp [Signal.init]
  drained _ _ := rfl
  lowered _ _ := rfl

theorem signal (h : s.Guarded core) {t : ι} {handler : Option H}
    (hc : handler ≠ none ∨ s.signalFlag t = false ∧ ∀ u, s.pc u ≠ .flagging t) :
    State.Guarded core { s with
      signalHandler := Function.update s.signalHandler t handler
      registered := Function.update s.registered t handler } := by
  refine { h with known := ?_, armed := ?_ }
  · intro u handler' hu
    rcases eq_or_ne u t with rfl | hne
    · simpa using hu
    · simpa [hne] using h.known u handler' (by simpa [hne] using hu)
  · intro u hu
    rcases eq_or_ne u t with rfl | hne
    · rcases hc with hc | ⟨hflag, hfree⟩
      · simpa using hc
      · rcases hu with hu | ⟨v, hv⟩
        · exact absurd (hflag.symm.trans hu) Bool.false_ne_true
        · exact absurd hv (hfree v)
    · simpa [hne] using h.armed u hu

theorem kill (h : s.Guarded core) {curr dest : ι} {signum : BitVec 32} (hcurr : s.pc curr = .user)
    (hreg : s.signalHandler dest ≠ none) (hfree : ¬ s.Handling dest) (list : κ → List (SignalT ι))
    (hlist : ∀ u, pendingIn u (list (core u)) = s.pending core u ++ if u = dest then [signum] else [])
    (count : κ → ℤ) (sent : ι → List (BitVec 32)) :
    State.Guarded core { s with
      sigList := list
      count := count
      pc := Function.update s.pc curr (.flagging dest)
      sent := sent } := by
  refine { h with awaited := ?_, armed := ?_, free := ?_, raised := ?_, drained := ?_, lowered := ?_ }
  · intro u hu
    rcases eq_or_ne u dest with rfl | hne
    · exact .inr ⟨curr, by simp⟩
    · rw [State.pending, hlist, if_neg hne, List.append_nil] at hu
      exact (h.awaited u hu).imp_right (flagging_update (by simp [hcurr]))
  · rintro u (hu | ⟨v, hv⟩)
    · exact h.armed u (.inl hu)
    · rcases eq_or_ne u dest with rfl | hne
      · exact hreg
      · exact h.armed u (.inr ⟨v, pc_of_update (by simpa using hne) hv⟩)
  · intro u hu v hv
    have hold : s.Handling u := handling_of_update (.inr ⟨dest, rfl⟩) hu
    rcases eq_or_ne u dest with rfl | hne
    · exact hfree hold
    · exact h.free u hold v (pc_of_update (by simpa using hne) hv)
  · exact fun u hu => h.raised u (pc_of_update (by simp) hu)
  · intro u hu
    have hold := hu.imp (pc_of_update (by simp)) (pc_of_update (by simp))
    have hne : u ≠ dest := by
      rintro rfl
      exact hfree (.inr hold)
    rw [State.pending, hlist, if_neg hne, List.append_nil]
    exact h.drained u hold
  · exact fun u hu => h.lowered u (pc_of_update (by simp) hu)

theorem flag (h : s.Guarded core) {curr dest : ι} (hcurr : s.pc curr = .flagging dest) :
    State.Guarded core { s with
      signalFlag := Function.update s.signalFlag dest true
      pc := Function.update s.pc curr .user } := by
  have hnot : ¬ s.Handling dest := fun hd => h.free dest hd curr hcurr
  have hflag : ∀ u, s.signalFlag u = true → Function.update s.signalFlag dest true u = true := by
    intro u hu
    rcases eq_or_ne u dest with rfl | hne
    · simp
    · simpa [hne] using hu
  refine { h with awaited := ?_, armed := ?_, free := ?_, raised := ?_, drained := ?_, lowered := ?_ }
  · intro u hu
    rcases eq_or_ne u dest with rfl | hne
    · exact .inl (by simp)
    · refine (h.awaited u hu).imp (hflag u) (flagging_update ?_)
      rw [hcurr]
      simpa using hne.symm
  · rintro u (hu | ⟨v, hv⟩)
    · rcases eq_or_ne u dest with rfl | hne
      · exact h.armed u (.inr ⟨curr, hcurr⟩)
      · exact h.armed u (.inl (by simpa [hne] using hu))
    · exact h.armed u (.inr ⟨v, pc_of_update (by simp) hv⟩)
  · intro u hu v hv
    exact h.free u (handling_of_update (.inl rfl) hu) v (pc_of_update (by simp) hv)
  · exact fun u hu => hflag u (h.raised u (pc_of_update (by simp) hu))
  · exact fun u hu => h.drained u (hu.imp (pc_of_update (by simp)) (pc_of_update (by simp)))
  · intro u hu
    have hold := pc_of_update (by simp) hu
    have hne : u ≠ dest := by
      rintro rfl
      exact hnot (.inr (.inr hold))
    simpa [hne] using h.lowered u hold

theorem free_advance (h : s.Guarded core) {t u : ι} {p : Pc ι} (hp : ∀ v, .flagging v ≠ p)
    (hfree : ∀ v, s.pc v ≠ .flagging t) (hu : Function.update s.pc t p u = .tested ∨
      Function.update s.pc t p u = .delivered ∨ Function.update s.pc t p u = .unflagged) (v : ι) :
    Function.update s.pc t p v ≠ .flagging u := by
  intro hv
  have hold := pc_of_update (hp u) hv
  rcases eq_or_ne u t with rfl | hne
  · exact hfree v hold
  · exact h.free u (by simpa [State.Handling, hne] using hu) v hold

theorem resume (h : s.Guarded core) {t : ι} (ht : s.pc t = .user) (hflag : s.signalFlag t = true)
    (hfree : ∀ u, s.pc u ≠ .flagging t) :
    State.Guarded core { s with pc := Function.update s.pc t .tested } := by
  refine { h with awaited := ?_, armed := ?_, free := ?_, raised := ?_, drained := ?_, lowered := ?_ }
  · exact fun u hu => (h.awaited u hu).imp_right (flagging_update (by simp [ht]))
  · exact fun u hu => h.armed u (hu.imp_right fun ⟨v, hv⟩ => ⟨v, pc_of_update (by simp) hv⟩)
  · exact fun u hu v => h.free_advance (by simp) hfree hu v
  · intro u hu
    rcases eq_or_ne u t with rfl | hne
    · exact hflag
    · exact h.raised u (by simpa [hne] using hu)
  · exact fun u hu => h.drained u (hu.imp (pc_of_update (by simp)) (pc_of_update (by simp)))
  · exact fun u hu => h.lowered u (pc_of_update (by simp) hu)

theorem doSignal (h : s.Guarded core) {t : ι} (ht : s.pc t = .tested) (list : κ → List (SignalT ι))
    (hlist : ∀ u, pendingIn u (list (core u)) = if u = t then [] else s.pending core u) (count : κ → ℤ)
    (args : List (BitVec 32)) :
    State.Guarded core { s with
      sigList := list
      count := count
      pc := Function.update s.pc t .delivered
      entered := Function.update s.entered t (s.entered t ++ [s.signalHandler t])
      calls := Function.update s.calls t (s.calls t ++ args.map (Call.mk (s.signalHandler t) (s.registered t))) } := by
  obtain ⟨handler, hhandler⟩ := Option.ne_none_iff_exists'.mp (h.armed t (.inl (h.raised t ht)))
  have hfree := h.free t (.inl ht)
  refine ⟨⟨?_, ?_, ?_⟩, h.known, ?_, ?_, ?_, ?_, ?_⟩
  · intro u call hcall
    rcases eq_or_ne u t with rfl | hne
    · simp only [Function.update_self, List.mem_append, List.mem_map] at hcall
      rcases hcall with hold | ⟨signum, -, rfl⟩
      · exact h.handled u call hold
      · exact ⟨handler, hhandler, h.known u handler hhandler⟩
    · exact h.handled u call (by simpa [hne] using hcall)
  · intro u hu
    rw [State.pending, hlist] at hu
    split at hu
    · exact absurd rfl hu
    · exact (h.awaited u hu).imp_right (flagging_update (by simp [ht]))
  · intro u hu
    rcases eq_or_ne u t with rfl | hne
    · simp only [Function.update_self, List.mem_append, List.mem_singleton, hhandler] at hu
      exact hu.elim (h.entered u) (by simp)
    · exact h.entered u (by simpa [hne] using hu)
  · exact fun u hu => h.armed u (hu.imp_right fun ⟨v, hv⟩ => ⟨v, pc_of_update (by simp) hv⟩)
  · exact fun u hu v => h.free_advance (by simp) hfree hu v
  · exact fun u hu => h.raised u (pc_of_update (by simp) hu)
  · intro u hu
    rw [State.pending, hlist]
    split
    · rfl
    · next hne => exact h.drained u (by simpa [hne] using hu)
  · exact fun u hu => h.lowered u (pc_of_update (by simp) hu)

theorem unflag (h : s.Guarded core) {t : ι} (ht : s.pc t = .delivered) :
    State.Guarded core { s with
      signalFlag := Function.update s.signalFlag t false
      pc := Function.update s.pc t .unflagged } := by
  have hflag : ∀ u, Function.update s.signalFlag t false u = true → s.signalFlag u = true := by
    intro u hu
    rcases eq_or_ne u t with rfl | hne
    · simp at hu
    · simpa [hne] using hu
  refine { h with awaited := ?_, armed := ?_, free := ?_, raised := ?_, drained := ?_, lowered := ?_ }
  · intro u hu
    have hne : u ≠ t := by
      rintro rfl
      exact hu (h.drained u (.inl ht))
    refine (h.awaited u hu).imp (fun hf => ?_) (flagging_update (by simp [ht]))
    simpa [hne] using hf
  · exact fun u hu => h.armed u (hu.imp (hflag u) fun ⟨v, hv⟩ => ⟨v, pc_of_update (by simp) hv⟩)
  · exact fun u hu v => h.free_advance (by simp) (h.free t (.inr (.inl ht))) hu v
  · intro u hu
    have hold := pc_of_update (by simp) hu
    have hne : u ≠ t := by
      rintro rfl
      simp [ht] at hold
    simpa [hne] using h.raised u hold
  · intro u hu
    rcases eq_or_ne u t with rfl | hne
    · exact h.drained u (.inl ht)
    · exact h.drained u (by simpa [hne] using hu)
  · intro u hu
    rcases eq_or_ne u t with rfl | hne
    · simp
    · simpa [hne] using h.lowered u (by simpa [hne] using hu)

theorem reset (h : s.Guarded core) {t : ι} (ht : s.pc t = .unflagged) :
    State.Guarded core { s with
      signalHandler := Function.update s.signalHandler t none
      pc := Function.update s.pc t .user } := by
  refine ⟨⟨h.handled, ?_, h.entered⟩, ?_, ?_, ?_, ?_, ?_, ?_⟩
  · exact fun u hu => (h.awaited u hu).imp_right (flagging_update (by simp [ht]))
  · intro u handler hu
    rcases eq_or_ne u t with rfl | hne
    · simp at hu
    · exact h.known u handler (by simpa [hne] using hu)
  · intro u hu
    have hold := hu.imp_right fun ⟨v, hv⟩ => (⟨v, pc_of_update (by simp) hv⟩ : ∃ v, s.pc v = Pc.flagging u)
    rcases eq_or_ne u t with rfl | hne
    · rcases hold with hflag | ⟨v, hv⟩
      · exact absurd ((h.lowered u ht).symm.trans hflag) Bool.false_ne_true
      · exact absurd hv (h.free u (.inr (.inr ht)) v)
    · simpa [hne] using h.armed u hold
  · intro u hu v hv
    exact h.free u (handling_of_update (.inl rfl) hu) v (pc_of_update (by simp) hv)
  · exact fun u hu => h.raised u (pc_of_update (by simp) hu)
  · exact fun u hu => h.drained u (hu.imp (pc_of_update (by simp)) (pc_of_update (by simp)))
  · exact fun u hu => h.lowered u (pc_of_update (by simp) hu)

theorem step [DecidableEq κ] (h : s.Guarded core) (hc : s.Careful a) (hs : Step core s a s') : s'.Guarded core := by
  cases hs with
  | signal t handler _ => exact h.signal hc
  | killSelf t signum _ => exact { h with }
  | kill curr dest signum hne hcurr =>
    obtain ⟨hreg, hfree⟩ := hc.resolve_left hne.symm
    exact h.kill hcurr hreg hfree _ (fun u => pendingIn_update_append signum) _ _
  | flag curr dest hcurr => exact h.flag hcurr
  | resumeIdle t _ _ => exact h
  | resume t ht hflag => exact h.resume ht hflag hc
  | doSignal t ht => exact h.doSignal ht _ (fun u => pendingIn_update_doSignal _) _ _
  | unflag t ht => exact h.unflag ht
  | reset t ht => exact h.reset ht

end State.Guarded

section Runs
variable [DecidableEq κ] (core : ι → κ)

def Reaches (s : State ι κ H) : Prop := Relation.ReflTransGen (fun s s' => ∃ a, Step core s a s') init s

def ReachesCarefully (s : State ι κ H) : Prop :=
  Relation.ReflTransGen (fun s s' => ∃ a, s.Careful a ∧ Step core s a s') init s

theorem run_ledger {core : ι → κ} {s : State ι κ H} (hr : Reaches core s) : s.Ledger core :=
  Run.invariant (fun h ⟨_, hs⟩ => State.Ledger.step h hs) State.Ledger.init hr

theorem run_delivers {core : ι → κ} {s : State ι κ H} (hr : ReachesCarefully core s) : s.Delivers core := by
  have hledger : s.Ledger core := Run.invariant (fun h ⟨_, _, hs⟩ => State.Ledger.step h hs) State.Ledger.init hr
  have hguarded : s.Guarded core := Run.invariant (fun h ⟨_, hc, hs⟩ => State.Guarded.step h hc hs) State.Guarded.init hr
  exact ⟨hledger, hguarded.toHeard⟩

end Runs

theorem one_kill_delivers : ∃ s : State Bool ℕ ℕ, ReachesCarefully (fun _ => 0) s ∧
    s.calls false = [⟨some 7, some 7, 15⟩] ∧ s.Delivers fun _ => 0 := by
  obtain ⟨s, hrun, hcalls⟩ : ∃ s : State Bool ℕ ℕ, ReachesCarefully (fun _ => 0) s ∧
      s.calls false = [⟨some 7, some 7, 15⟩] := by
    refine ⟨_, .head ⟨_, ?_, .signal false (some 7) rfl⟩ <| .head ⟨_, ?_, .kill true false 15 (by decide) rfl⟩ <|
      .head ⟨.flag true, trivial, .flag true false rfl⟩ <| .head ⟨_, ?_, .resume false rfl rfl⟩ <|
      .head ⟨.handle false, trivial, .doSignal false rfl⟩ <| .head ⟨.handle false, trivial, .unflag false rfl⟩ <|
      .head ⟨.handle false, trivial, .reset false rfl⟩ .refl, rfl⟩
    · exact .inl (Option.some_ne_none 7)
    · exact .inr ⟨by simp, by simp [State.Handling, init]⟩
    · intro u
      cases u <;> simp [init]
  exact ⟨s, hrun, hcalls, run_delivers hrun⟩

theorem kill_after_delivery_null_handler :
    (∃ s : State Bool ℕ ℕ, Reaches (fun _ => 0) s ∧ s.entered false = [some 7, none] ∧ ¬ s.Delivers fun _ => 0) ∧
    ∃ s : State Bool ℕ ℕ, Reaches (fun _ => 0) s ∧ s.sent false = [15, 16] ∧ s.pending (fun _ => 0) false = [16] ∧
      s.signalFlag false = false ∧ ¬ s.Delivers fun _ => 0 := by
  constructor
  · refine ⟨_, .head ⟨_, .signal false (some 7) rfl⟩ <| .head ⟨_, .kill true false 15 (by decide) rfl⟩ <|
      .head ⟨_, .flag true false rfl⟩ <| .head ⟨_, .resume false rfl rfl⟩ <| .head ⟨_, .doSignal false rfl⟩ <|
      .head ⟨_, .unflag false rfl⟩ <| .head ⟨_, .reset false rfl⟩ <|
      .head ⟨_, .kill true false 16 (by decide) rfl⟩ <| .head ⟨_, .flag true false rfl⟩ <|
      .head ⟨_, .resume false rfl rfl⟩ <| .head ⟨_, .doSignal false rfl⟩ .refl, rfl, fun h => ?_⟩
    exact h.entered false (by simp)
  · refine ⟨_, .head ⟨_, .signal false (some 7) rfl⟩ <| .head ⟨_, .kill true false 15 (by decide) rfl⟩ <|
      .head ⟨_, .flag true false rfl⟩ <| .head ⟨_, .resume false rfl rfl⟩ <| .head ⟨_, .doSignal false rfl⟩ <|
      .head ⟨_, .kill true false 16 (by decide) rfl⟩ <| .head ⟨_, .flag true false rfl⟩ <|
      .head ⟨_, .unflag false rfl⟩ <| .head ⟨_, .reset false rfl⟩ .refl, rfl, rfl, rfl, fun h => ?_⟩
    rcases h.awaited false (by decide) with hflag | ⟨u, hu⟩
    · cases hflag
    · cases u <;> cases hu

end Signal

end Azalea
