import Azalea.Offload.ThreadPool

namespace Azalea
open Crowd Relation

namespace Executor

variable {α : Type*} {e : Executor} {es : List Executor} {heap heap' : Chain.Heap α}

def load (heap : Chain.Heap α) : Executor → Option (ℕ × α)
  | .running p => (heap p).map fun c => (p, c.value)
  | _ => none

theorem cell_of_isExited (h : e.isExited = true) : e.cell = none := by
  cases e <;> first | rfl | cases h

theorem load_of_cell (h : e.cell = none) : e.load heap = none := by
  cases e <;> first | rfl | cases h

theorem filterMap_load_congr (h : ∀ p ∈ es.filterMap cell, (heap' p).map Chain.Cell.value = (heap p).map Chain.Cell.value) :
    es.filterMap (load heap') = es.filterMap (load heap) := by
  refine List.filterMap_congr fun e he => ?_
  cases e with
  | running p =>
    have hp := congrArg (Option.map (Prod.mk p)) (h p (List.mem_filterMap.mpr ⟨_, he, rfl⟩))
    rwa [Option.map_map, Option.map_map] at hp
  | _ => rfl

theorem filterMap_wake {β : Type*} {f : Executor → Option β} (hf : f .asleep = f .woken) :
    (es.map wake).filterMap f = es.filterMap f := by
  rw [List.filterMap_map]
  refine List.filterMap_congr fun e _ => ?_
  cases e with
  | asleep => exact hf.symm
  | _ => rfl

end Executor

theorem Signalled.filterMap_eq {β : Type*} {es es' : List Executor} (he : Signalled es es') {f : Executor → Option β}
    (hf : f .asleep = f .woken) : es'.filterMap f = es.filterMap f := by
  rcases he with he | ⟨-, rfl⟩
  · exact he.filterMap_eq hf
  · rfl

theorem Adder.cell_of_isReturned {α : Type*} {a : Adder α} (h : a.isReturned = true) : a.cell = none := by
  cases a <;> first | rfl | cases h

namespace Owner

theorem closing_of_drained {o : Owner} (h : o.drained = true) : o.closing = true := by
  cases o <;> first | rfl | cases h

theorem drained_of_open {o : Owner} (h : o.closing = false) : o.drained = false := by
  cases hd : o.drained with
  | false => rfl
  | true => exact absurd (closing_of_drained hd) (by simp [h])

theorem endSignal_or (o : Owner) : o.endSignal = o ∨ o.endSignal.closing = false ∧ o.closing = false := by
  cases o with
  | asleep => exact .inr ⟨rfl, rfl⟩
  | _ => exact .inl rfl

end Owner

namespace ThreadPool

variable {α : Type*} {s s' : ThreadPool α} {q : List (ℕ × α)} {a b : Executor} {p : ℕ} {x : α}

theorem register_spec (s : ThreadPool α) :
    s.register = { s with waitingThreads := s.waitingThreads + 1 } ∨
      s.waitingThreads + 1 = s.numThreads ∧
        (s.isInitialized = true ∧
            s.register = { s with waitingThreads := s.waitingThreads + 1, owner := s.owner.endSignal } ∨
          s.isInitialized = false ∧
            s.register = { s with waitingThreads := s.waitingThreads + 1, isInitialized := true }) := by
  unfold register
  dsimp only
  split
  · next h =>
    refine .inr ⟨h.2, ?_⟩
    cases hi : s.isInitialized with
    | true => exact .inl ⟨rfl, rfl⟩
    | false => exact .inr ⟨rfl, rfl⟩
  · exact .inl rfl

structure Closed (s : ThreadPool α) : Prop where
  returned : s.owner.closing = true → ∀ a ∈ s.adders, a.isReturned = true
  joined : ∀ i, s.owner = .joining i → ∀ e ∈ s.executors.take i, e.isExited = true
  exited : s.owner.drained = true → ∀ e ∈ s.executors, e.isExited = true
  emptied : s.owner = .destroyed → s.jobs.front = 0

namespace Closed

theorem of_open (h : s.owner.closing = false) : s.Closed where
  returned hc := absurd hc (by simp [h])
  joined i hi := absurd h (by simp [hi, Owner.closing])
  exited hd := absurd (Owner.closing_of_drained hd) (by simp [h])
  emptied hd := absurd h (by simp [hd, Owner.closing])

theorem not_drained (h : s.Closed) (ha : a ∈ s.executors) (hx : a.isExited = false) : s.owner.drained = false := by
  cases hd : s.owner.drained with
  | false => rfl
  | true => exact absurd (h.exited hd a ha) (by simp [hx])

theorem not_closing (h : s.Closed) {a : Adder α} (ha : a ∈ s.adders) (hr : a.isReturned = false) :
    s.owner.closing = false := by
  cases hc : s.owner.closing with
  | false => rfl
  | true => exact absurd (h.returned hc a ha) (by simp [hr])

theorem turn (h : s.Closed) (he : Turn a b s.executors s'.executors) (ha : a.isExited = false)
    (had : s'.adders = s.adders) (ho : s'.owner = s.owner ∨ s'.owner = s.owner.endSignal) : s'.Closed := by
  have hd := h.not_drained he.mem_left ha
  have hcase : s'.owner = s.owner ∨ s'.owner.closing = false := by
    rcases ho with ho | ho
    · exact .inl ho
    · exact s.owner.endSignal_or.imp ho.trans fun hs => ho ▸ hs.1
  rcases hcase with ho | ho
  · refine ⟨?_, ?_, ?_, ?_⟩
    · rw [had, ho]
      exact h.returned
    · intro i hi e hx
      rcases he.mem_take hx with hx | hx
      · exact h.joined i (ho ▸ hi) e hx
      · exact absurd (h.joined i (ho ▸ hi) a hx) (by simp [ha])
    · intro hd'
      rw [ho, hd] at hd'
      cases hd'
    · intro hd'
      rw [← ho, hd'] at hd
      cases hd
  · exact of_open ho

end Closed

theorem ExecutorStep.turn (h : ExecutorStep s s') : ∃ a b, Turn a b s.executors s'.executors ∧ a.isExited = false ∧
    s'.adders = s.adders ∧ (s'.owner = s.owner ∨ s'.owner = s.owner.endSignal) := by
  cases h with
  | register he =>
    rcases s.register_spec with hr | ⟨-, ⟨-, hr⟩ | ⟨-, hr⟩⟩
    · exact ⟨_, _, he, rfl, by rw [hr], .inl (by rw [hr])⟩
    · exact ⟨_, _, he, rfl, by rw [hr], .inr (by rw [hr])⟩
    · exact ⟨_, _, he, rfl, by rw [hr], .inl (by rw [hr])⟩
  | start he | loop he | leave he | remove he | rest he | take he | unregister he | execute he
  | release he | discount he | quit he | quitStopped he | stop he | stopLate he => exact ⟨_, _, he, rfl, rfl, .inl rfl⟩

theorem AddJobStep.is_open (hs : s.Closed) (h : AddJobStep s s') : s'.owner = s.owner ∧ s.owner.closing = false := by
  cases h with
  | uninitialized ha | initialized ha | stopped ha | live ha | waitIssued ha | unavailable ha | malloc ha | insert ha
  | insertWaiting ha | signal ha => exact ⟨rfl, hs.not_closing ha.mem_left rfl⟩

theorem Closed.ownerStep (h : s.Closed) (hs : OwnerStep s s') : s'.Closed := by
  cases hs with
  | compare ho =>
    refine .of_open ?_
    dsimp only
    split <;> rfl
  | destroyPool ho hi ha => exact ⟨fun _ => ha, nofun, nofun, nofun⟩
  | broadcast ho =>
    refine ⟨fun _ => h.returned (by simp [ho, Owner.closing]), ?_, nofun, nofun⟩
    intro i hi e he
    cases hi
    cases he
  | @join i e ho hi he =>
    refine ⟨fun _ => h.returned (by simp [ho, Owner.closing]), ?_, nofun, nofun⟩
    intro j hj d hd
    cases hj
    rw [List.take_add_one, hi] at hd
    rcases List.mem_append.mp hd with hd | hd
    · exact h.joined i ho d hd
    · obtain rfl := List.mem_singleton.mp hd
      exact he
  | joined ho hi =>
    refine ⟨fun _ => h.returned (by simp [ho, Owner.closing]), nofun, fun _ e he => ?_, nofun⟩
    exact h.joined _ ho e (by rwa [List.take_of_length_le hi])
  | drain ho => exact ⟨h.returned, h.joined, h.exited, fun hd => absurd (ho.symm.trans hd) nofun⟩
  | destroyed ho hf =>
    exact ⟨fun _ => h.returned (by simp [ho, Owner.closing]), nofun, fun _ => h.exited (by simp [ho, Owner.drained]),
      fun _ => hf⟩
  | resumePool ho => exact .of_open (by simp [ho, Owner.closing])
  | _ => exact .of_open rfl

theorem Closed.step (h : s.Closed) (hs : Step s s') : s'.Closed := by
  refine hs.elim (P := fun _ s' => s'.Closed) (fun hs => ?_) (fun hs => ?_) h.ownerStep (fun _ ho => .of_open ho)
    fun he => h.turn he rfl rfl (.inl rfl)
  · obtain ⟨a, b, he, ha, had, ho⟩ := hs.turn
    exact h.turn he ha had ho
  · obtain ⟨ho, hc⟩ := hs.is_open h
    exact .of_open (ho ▸ hc)

def cells (s : ThreadPool α) (q : List (ℕ × α)) : List ℕ :=
  q.map Prod.fst ++ (s.executors.filterMap Executor.cell ++ s.adders.filterMap Adder.cell)

theorem Closed.executor_cells (h : s.Closed) (hd : s.owner.drained = true) : s.executors.filterMap Executor.cell = [] :=
  List.filterMap_eq_nil_iff.mpr fun e he => Executor.cell_of_isExited (h.exited hd e he)

theorem Closed.adder_cells (h : s.Closed) (hd : s.owner.drained = true) : s.adders.filterMap Adder.cell = [] :=
  List.filterMap_eq_nil_iff.mpr fun a ha => Adder.cell_of_isReturned (h.returned (Owner.closing_of_drained hd) a ha)

theorem Closed.cells_eq (h : s.Closed) (hd : s.owner.drained = true) : s.cells q = q.map Prod.fst := by
  rw [cells, h.executor_cells hd, h.adder_cells hd, List.append_nil, List.append_nil]

def loads (s : ThreadPool α) : List (ℕ × α) := s.executors.filterMap (Executor.load s.jobs.heap)

structure Conserved (s : ThreadPool α) (q : List (ℕ × α)) : Prop where
  path : Chain.Path s.jobs.heap s.jobs.front q
  cells : (s.cells q).Nodup
  allocated : ∀ p, s.jobs.heap p ≠ none ↔ p ∈ s.cells q
  accepted : s.accepted = s.started ++ s.dropped ++ q.map Prod.snd
  started : s.started.Perm (s.finished ++ s.loads.map Prod.snd)
  count : s.owner.drained = false → s.jobCount = q.length
  kept : s.owner.drained = false → s.dropped = []

structure JobInv (s : ThreadPool α) (q : List (ℕ × α)) : Prop extends s.Conserved q where
  rear : s.owner.drained = false → s.jobs.rear = Chain.rearOf q
  inserting : ∀ p ∈ s.adders.filterMap Adder.cell, p ≠ 0 ∧ ∃ x, s.jobs.heap p = some ⟨x, 0⟩

structure SameJobs (s s' : ThreadPool α) : Prop where
  jobs : s'.jobs = s.jobs := by rfl
  jobCount : s'.jobCount = s.jobCount := by rfl
  accepted : s'.accepted = s.accepted := by rfl
  started : s'.started = s.started := by rfl
  finished : s'.finished = s.finished := by rfl
  dropped : s'.dropped = s.dropped := by rfl
  cells : s'.executors.filterMap Executor.cell = s.executors.filterMap Executor.cell := by rfl
  loads : ∀ heap : Chain.Heap α, s'.executors.filterMap (Executor.load heap) = s.executors.filterMap (Executor.load heap) := by
    exact fun _ => rfl
  inserting : s'.adders.filterMap Adder.cell = s.adders.filterMap Adder.cell := by rfl
  drained : s'.owner.drained = false → s.owner.drained = false := by exact id

theorem SameJobs.loads_eq (hs : SameJobs s s') : s'.loads = s.loads := by
  rw [ThreadPool.loads, hs.jobs, hs.loads, ThreadPool.loads]

inductive Flow (s s' : ThreadPool α) (q : List (ℕ × α)) : List (ℕ × α) → Prop
  | silent (hl : s'.loads = s.loads) (hd : s'.dropped = s.dropped) (ha : s'.accepted = s.accepted) : Flow s s' q q
  | take {y q'} (hq : q = y :: q') (hl : s'.loads.Perm (y :: s.loads)) (hd : s'.dropped = s.dropped)
      (ha : s'.accepted = s.accepted) : Flow s s' q q'
  | insert {r : ℕ} {y : α} {c : Adder α} (ha : Turn (.inserting r) c s.adders s'.adders)
      (hc : c = .signalling ∨ c = .returned .completed) (hy : (s.jobs.heap r).map Chain.Cell.value = some y)
      (hl : s'.loads = s.loads) (hd : s'.dropped = s.dropped) (hacc : s'.accepted = s.accepted ++ [y]) :
      Flow s s' q (q ++ [(r, y)])
  | finish {y} (hl : s.loads.Perm (y :: s'.loads)) (hf : s'.finished = s.finished ++ [y.2]) : Flow s s' q q
  | drain {y q'} (hq : q = y :: q') (hl : s'.loads = s.loads) (hd : s'.dropped = s.dropped ++ [y.2])
      (ha : s'.accepted = s.accepted) : Flow s s' q q'

def Conserves (s s' : ThreadPool α) (q : List (ℕ × α)) : Prop := ∃ q', s'.JobInv q' ∧ Flow s s' q q'

namespace JobInv

theorem frame (h : s.JobInv q) (hs : SameJobs s s') : s'.JobInv q := by
  have hcells : s'.cells q = s.cells q := by rw [ThreadPool.cells, hs.cells, hs.inserting, ThreadPool.cells]
  obtain ⟨⟨hpath, hnodup, halloc, hacc, hst, hcount, hkept⟩, hrear, hins⟩ := h
  refine ⟨⟨?_, ?_, ?_, ?_, ?_, ?_, ?_⟩, ?_, ?_⟩
  · rwa [hs.jobs]
  · rwa [hcells]
  · rwa [hcells, hs.jobs]
  · rwa [hs.accepted, hs.started, hs.dropped]
  · rwa [hs.started, hs.finished, hs.loads_eq]
  · exact fun hd => hs.jobCount.trans (hcount (hs.drained hd))
  · exact fun hd => hs.dropped.trans (hkept (hs.drained hd))
  · exact fun hd => hs.jobs ▸ hrear (hs.drained hd)
  · rwa [hs.inserting, hs.jobs]

theorem congr (h : s.JobInv q) (hs : SameJobs s s') : Conserves s s' q :=
  ⟨q, h.frame hs, .silent hs.loads_eq hs.dropped hs.accepted⟩

theorem holds (h : s.JobInv q) (hd : s.owner.drained = false) : s.jobs.Holds q :=
  ⟨h.path, h.rear hd, (List.nodup_append.mp h.cells).1⟩

theorem createPool (n : ℕ) : (createPool α n).JobInv [] where
  path := .nil
  cells := List.nodup_nil
  allocated p := by simp [ThreadPool.createPool, ThreadPool.cells]
  accepted := rfl
  started := .refl _
  count _ := rfl
  kept _ := rfl
  rear _ := rfl
  inserting p hp := by cases hp

theorem take (h : s.JobInv q) (hd : s.owner.drained = false) {es : List Executor} {c : Chain.Cell α}
    (he : Turn .entering (.running s.jobs.front) s.executors es) (hf : s.jobs.front ≠ 0)
    (hc : s.jobs.heap s.jobs.front = some c) :
    Conserves s { s with
      jobs := s.jobs.pop, jobCount := s.jobCount - 1, executors := es, started := s.started ++ [c.value] } q := by
  have hh := h.holds hd
  cases q with
  | nil => exact absurd (hh.front_eq_zero.mpr rfl) hf
  | cons y q =>
    obtain ⟨p, x⟩ := y
    obtain ⟨rfl, -, r, hx⟩ := hh.head
    obtain rfl : c = ⟨x, r⟩ := Option.some.inj (hc.symm.trans hx)
    have hpop := hh.pop
    have hcells := he.filterMap_gain (f := Executor.cell) rfl rfl
    have hloads := he.filterMap_gain (f := Executor.load s.jobs.heap) (y := (s.jobs.front, x)) rfl
      (by simp [Executor.load, hx])
    have hperm : (q.map Prod.fst ++ (es.filterMap Executor.cell ++ s.adders.filterMap Adder.cell)).Perm
        (s.cells ((s.jobs.front, x) :: q)) :=
      (List.Perm.append_left _ (hcells.append_right _)).trans List.perm_middle
    have hkept := h.kept hd
    refine ⟨q, ⟨⟨hpop.path, hperm.nodup_iff.mpr h.cells, ?_, ?_, ?_, ?_, h.kept⟩, fun _ => hpop.rear, ?_⟩,
      .take rfl ?_ rfl rfl⟩
    · intro p
      rw [Chain.Store.heap_pop]
      exact (h.allocated p).trans hperm.mem_iff.symm
    · simp [h.accepted, hkept]
    · change (s.started ++ [x]).Perm (s.finished ++ (es.filterMap (Executor.load s.jobs.pop.heap)).map Prod.snd)
      rw [Chain.Store.heap_pop]
      calc (s.started ++ [x]).Perm (s.finished ++ s.loads.map Prod.snd ++ [x]) := h.started.append_right _
        _ = s.finished ++ (s.loads.map Prod.snd ++ [x]) := List.append_assoc ..
        List.Perm _ (s.finished ++ (x :: s.loads.map Prod.snd)) := (List.perm_append_singleton x _).append_left _
        List.Perm _ _ := (hloads.symm.map Prod.snd).append_left _
    · intro hd'
      simp [h.count hd']
    · rw [Chain.Store.heap_pop]
      exact h.inserting
    · change (es.filterMap (Executor.load s.jobs.pop.heap)).Perm _
      rw [Chain.Store.heap_pop]
      exact hloads

theorem loads_executed {es : List Executor} {c : Chain.Cell α} (he : Turn (.running p) (.finishing p) s.executors es)
    (hc : s.jobs.heap p = some c) :
    s.loads.Perm ((p, c.value) :: loads { s with executors := es, finished := s.finished ++ [c.value] }) :=
  he.filterMap_lose (by simp [Executor.load, hc]) rfl

theorem executed (h : s.JobInv q) {es : List Executor} {c : Chain.Cell α}
    (he : Turn (.running p) (.finishing p) s.executors es) (hc : s.jobs.heap p = some c) :
    JobInv { s with executors := es, finished := s.finished ++ [c.value] } q := by
  have hcells : es.filterMap Executor.cell = s.executors.filterMap Executor.cell := he.filterMap_eq rfl
  have heq : cells { s with executors := es, finished := s.finished ++ [c.value] } q = s.cells q := by
    simp only [ThreadPool.cells, hcells]
  refine ⟨⟨h.path, ?_, ?_, h.accepted, ?_, h.count, h.kept⟩, h.rear, h.inserting⟩
  · rw [heq]
    exact h.cells
  · rw [heq]
    exact h.allocated
  · calc s.started.Perm (s.finished ++ s.loads.map Prod.snd) := h.started
      List.Perm _ (s.finished ++ (c.value :: (es.filterMap (Executor.load s.jobs.heap)).map Prod.snd)) :=
        ((loads_executed he hc).map Prod.snd).append_left _
      _ = s.finished ++ [c.value] ++ (es.filterMap (Executor.load s.jobs.heap)).map Prod.snd := by simp

theorem release (h : s.JobInv q) {es : List Executor} (he : Turn (.finishing p) .looping s.executors es) :
    Conserves s { s with jobs := s.jobs.free p, executors := es } q := by
  have hcells := he.filterMap_lose (f := Executor.cell) rfl rfl
  have hperm : (s.cells q).Perm (p :: (q.map Prod.fst ++ (es.filterMap Executor.cell ++ s.adders.filterMap Adder.cell))) :=
    (List.Perm.append_left _ (hcells.append_right _)).trans List.perm_middle
  obtain ⟨hout, hnodup⟩ := List.nodup_cons.mp (hperm.nodup_iff.mp h.cells)
  simp only [List.mem_append, not_or] at hout
  obtain ⟨hq, hes, had⟩ := hout
  have hloads : es.filterMap (Executor.load (s.jobs.free p).heap) = s.loads := by
    rw [Executor.filterMap_load_congr fun r hr => by rw [s.jobs.heap_free_of_ne (ne_of_mem_of_not_mem hr hes)]]
    exact he.filterMap_eq rfl
  refine ⟨q, ⟨⟨?_, hnodup, ?_, h.accepted, ?_, h.count, h.kept⟩, h.rear, ?_⟩, .silent hloads rfl rfl⟩
  · exact h.path.congr fun r hr => s.jobs.heap_free_of_ne (ne_of_mem_of_not_mem hr hq)
  · intro r
    by_cases hr : r = p
    · subst hr
      simp [ThreadPool.cells, hq, hes, had]
    · rw [s.jobs.heap_free_of_ne hr, h.allocated r, hperm.mem_iff, List.mem_cons]
      exact or_iff_right hr
  · rw [ThreadPool.loads, hloads]
    exact h.started
  · intro r hr
    rw [s.jobs.heap_free_of_ne (ne_of_mem_of_not_mem hr had)]
    exact h.inserting r hr

theorem malloc (h : s.JobInv q) {as : List (Adder α)} (ha : Turn (.running x) (.inserting p) s.adders as) (hp : p ≠ 0)
    (hf : s.jobs.heap p = none) : Conserves s { s with jobs := s.jobs.alloc p x, adders := as } q := by
  have hcells := ha.filterMap_gain (f := Adder.cell) rfl rfl
  have hperm : (q.map Prod.fst ++ (s.executors.filterMap Executor.cell ++ as.filterMap Adder.cell)).Perm (p :: s.cells q) :=
    (List.Perm.append_left _ ((List.Perm.append_left _ hcells).trans List.perm_middle)).trans List.perm_middle
  have hout : p ∉ s.cells q := fun hm => (h.allocated p).mpr hm hf
  have hne : ∀ {r}, r ∈ s.cells q → (s.jobs.alloc p x).heap r = s.jobs.heap r := fun hr =>
    s.jobs.heap_alloc_of_ne (ne_of_mem_of_not_mem hr hout)
  have hloads : s.executors.filterMap (Executor.load (s.jobs.alloc p x).heap) = s.loads :=
    Executor.filterMap_load_congr fun r hr => by rw [hne (List.mem_append_right _ (List.mem_append_left _ hr))]
  refine ⟨q, ⟨⟨?_, hperm.nodup_iff.mpr (List.nodup_cons.mpr ⟨hout, h.cells⟩), ?_, h.accepted, ?_, h.count, h.kept⟩,
    h.rear, ?_⟩, .silent hloads rfl rfl⟩
  · exact h.path.congr fun r hr => hne (List.mem_append_left _ hr)
  · intro r
    refine Iff.trans ?_ hperm.mem_iff.symm
    rw [List.mem_cons]
    by_cases hr : r = p
    · subst hr
      simp
    · rw [s.jobs.heap_alloc_of_ne hr, h.allocated r]
      exact (or_iff_right hr).symm
  · rw [ThreadPool.loads, hloads]
    exact h.started
  · intro r hr
    rcases List.mem_cons.mp (hcells.mem_iff.mp hr) with rfl | hr
    · exact ⟨hp, x, s.jobs.heap_alloc_self⟩
    · rw [hne (List.mem_append_right _ (List.mem_append_right _ hr))]
      exact h.inserting r hr

theorem insert (h : s.JobInv q) (hd : s.owner.drained = false) {a : Adder α} {as : List (Adder α)} {c : Chain.Cell α}
    (ha : Turn (.inserting p) a s.adders as) (hn : a = .signalling ∨ a = .returned .completed)
    (hc : s.jobs.heap p = some c) (held : Bool) :
    Conserves s { s with
      queuemutex := held, jobs := s.jobs.push p, jobCount := s.jobCount + 1, adders := as
      accepted := s.accepted ++ [c.value] } q := by
  have hh := h.holds hd
  have hcell : a.cell = none := by rcases hn with rfl | rfl <;> rfl
  have hcells := ha.filterMap_lose (f := Adder.cell) rfl hcell
  have hmem : p ∈ s.adders.filterMap Adder.cell := List.mem_filterMap.mpr ⟨_, ha.mem_left, rfl⟩
  obtain ⟨hp, x, hx⟩ := h.inserting p hmem
  obtain rfl : c = ⟨x, 0⟩ := Option.some.inj (hc.symm.trans hx)
  obtain ⟨-, -, hdisj⟩ := List.nodup_append.mp h.cells
  have hout : ∀ {r}, r ∈ s.adders.filterMap Adder.cell → r ∉ q.map Prod.fst := fun hr hm =>
    hdisj _ hm _ (List.mem_append_right _ hr) rfl
  have hpush := hh.push hp hc (hout hmem)
  have hperm : ((q ++ [(p, x)]).map Prod.fst ++ (s.executors.filterMap Executor.cell ++ as.filterMap Adder.cell)).Perm
      (s.cells q) := by
    rw [List.map_append, List.append_assoc]
    have hmid : (p :: (s.executors.filterMap Executor.cell ++ as.filterMap Adder.cell)).Perm
        (s.executors.filterMap Executor.cell ++ s.adders.filterMap Adder.cell) :=
      List.perm_middle.symm.trans (List.Perm.append_left _ hcells.symm)
    exact List.Perm.append_left _ hmid
  have hloads : s.executors.filterMap (Executor.load (s.jobs.push p).heap) = s.loads :=
    Executor.filterMap_load_congr fun r _ => s.jobs.value_push p r
  refine ⟨_, ⟨⟨hpush.path, hperm.nodup_iff.mpr h.cells, ?_, ?_, ?_, ?_, h.kept⟩, fun _ => hpush.rear, ?_⟩,
    .insert ha hn (by rw [hx]; rfl) hloads rfl rfl⟩
  · intro r
    refine Iff.trans ?_ ((h.allocated r).trans hperm.mem_iff.symm)
    have hv := s.jobs.value_push p r
    rw [ne_eq, ne_eq, ← Option.map_eq_none_iff (f := Chain.Cell.value), hv, Option.map_eq_none_iff]
  · simp [h.accepted]
  · rw [ThreadPool.loads, hloads]
    exact h.started
  · intro hd'
    simp [h.count hd']
  · intro r hr
    have hr' : r ∈ s.adders.filterMap Adder.cell := hcells.mem_iff.mpr (List.mem_cons_of_mem p hr)
    rw [hh.heap_push (hout hr')]
    exact h.inserting r hr'

theorem drain (h : s.JobInv q) (hs : s.Closed) (hd : s.owner.drained = true) {c : Chain.Cell α} (hf : s.jobs.front ≠ 0)
    (hc : s.jobs.heap s.jobs.front = some c) :
    Conserves s { s with
      jobs := { s.jobs.free s.jobs.front with front := c.next }, dropped := s.dropped ++ [c.value] } q := by
  have hno : ∀ q : List (ℕ × α), s.cells q = q.map Prod.fst := fun _ => hs.cells_eq hd
  obtain ⟨⟨hpath, hnodup, halloc, hacc, hst, -, -⟩, -, hins⟩ := h
  have hloads : s.executors.filterMap (Executor.load (s.jobs.free s.jobs.front).heap) = s.loads :=
    Executor.filterMap_load_congr fun p hp => by simp [hs.executor_cells hd] at hp
  generalize hfront : s.jobs.front = f at *
  cases hpath with
  | nil => exact absurd rfl hf
  | @cons _ r x q _ hx hrest =>
    obtain rfl : c = ⟨x, r⟩ := Option.some.inj (hc.symm.trans hx)
    rw [hno, List.map_cons, List.nodup_cons] at hnodup
    refine ⟨q, ⟨⟨?_, ?_, ?_, ?_, ?_, ?_, ?_⟩, ?_, ?_⟩, .drain rfl hloads rfl rfl⟩
    · exact hrest.congr fun p hp => s.jobs.heap_free_of_ne (ne_of_mem_of_not_mem hp hnodup.1)
    · exact (hno q).symm ▸ hnodup.2
    · intro p
      refine Iff.trans ?_ (Iff.of_eq (congrArg (p ∈ ·) (hno q).symm))
      by_cases hp : p = f
      · subst hp
        simp [hnodup.1]
      · rw [s.jobs.heap_free_of_ne hp, halloc p, hno, List.map_cons, List.mem_cons]
        exact or_iff_right hp
    · simp [hacc]
    · rw [ThreadPool.loads, hloads]
      exact hst
    · intro hd'
      exact absurd (hd'.symm.trans hd) nofun
    · intro hd'
      exact absurd (hd'.symm.trans hd) nofun
    · intro hd'
      exact absurd (hd'.symm.trans hd) nofun
    · intro p hp
      rw [hs.adder_cells hd] at hp
      cases hp

theorem executorStep (h : s.JobInv q) (hc : s.Closed) (hs : ExecutorStep s s') : Conserves s s' q := by
  cases hs with
  | take he _ _ hf _ hx => exact h.take (hc.not_drained he.mem_left rfl) he hf hx
  | execute he hx => exact ⟨q, h.executed he hx, .finish (loads_executed he hx) rfl⟩
  | release he => exact h.release he
  | register he =>
    refine h.congr ?_
    rcases s.register_spec with hr | ⟨-, ⟨-, hr⟩ | ⟨-, hr⟩⟩
    · rw [hr]
      exact { cells := he.filterMap_eq rfl, loads := fun _ => he.filterMap_eq rfl }
    · rw [hr]
      exact {
        cells := he.filterMap_eq rfl
        loads := fun _ => he.filterMap_eq rfl
        drained := fun _ => hc.not_drained he.mem_left rfl }
    · rw [hr]
      exact { cells := he.filterMap_eq rfl, loads := fun _ => he.filterMap_eq rfl }
  | start he | loop he | leave he | remove he | rest he | unregister he | discount he | quit he
  | quitStopped he | stop he | stopLate he =>
    exact h.congr { cells := he.filterMap_eq rfl, loads := fun _ => he.filterMap_eq rfl }

theorem addJobStep (h : s.JobInv q) (hc : s.Closed) (hs : AddJobStep s s') : Conserves s s' q := by
  have hd := Owner.drained_of_open (hs.is_open hc).2
  cases hs with
  | malloc ha _ hp hf => exact h.malloc ha hp hf
  | insert ha _ hx => exact h.insert hd ha (.inr rfl) hx _
  | insertWaiting ha _ hx => exact h.insert hd ha (.inl rfl) hx _
  | signal ha he =>
    exact h.congr {
      cells := he.filterMap_eq rfl
      loads := fun _ => he.filterMap_eq rfl
      inserting := ha.filterMap_eq rfl }
  | uninitialized ha | initialized ha | stopped ha | live ha | waitIssued ha | unavailable ha =>
    exact h.congr { inserting := ha.filterMap_eq rfl }

theorem ownerStep (h : s.JobInv q) (hc : s.Closed) (hs : OwnerStep s s') : Conserves s s' q := by
  cases hs with
  | pthreadCreate ho =>
    exact h.congr {
      cells := by simp [Executor.cell]
      loads := by simp [Executor.load]
      drained := fun _ => by simp [ho, Owner.drained] }
  | removeSignal ho he =>
    exact h.congr {
      cells := he.filterMap_eq rfl
      loads := fun _ => he.filterMap_eq rfl
      drained := fun _ => by simp [ho, Owner.drained] }
  | resumePool => exact h.congr { cells := Executor.filterMap_wake rfl, loads := fun _ => Executor.filterMap_wake rfl }
  | broadcast ho =>
    exact h.congr {
      cells := Executor.filterMap_wake rfl
      loads := fun _ => Executor.filterMap_wake rfl
      drained := fun _ => by simp [ho, Owner.drained] }
  | drain ho hf hx => exact h.drain hc (by simp [ho, Owner.drained]) hf hx
  | joined => exact h.congr { drained := nofun }
  | destroyed => exact h.congr { drained := nofun }
  | addThreads ho | pthreadFail ho | created ho | initialized ho | removeThread ho | waitToComplete ho | allIdle ho
  | notIdle ho | endWait ho | endSpurious ho | complete ho | suspendPool ho | readWaiting ho | compare ho | destroyPool ho
  | join ho => exact h.congr { drained := fun _ => by simp [ho, Owner.drained] }

theorem conserves (h : s.JobInv q) (hc : s.Closed) (hs : Step s s') : Conserves s s' q :=
  hs.elim (P := fun s s' => Conserves s s' q) (h.executorStep hc) (h.addJobStep hc) (h.ownerStep hc)
    (fun x _ => h.congr { inserting := by simp [Adder.cell] })
    fun he => h.congr { cells := he.filterMap_eq rfl, loads := fun _ => he.filterMap_eq rfl }

theorem step (h : s.JobInv q) (hc : s.Closed) (hs : Step s s') : ∃ q', s'.JobInv q' := by
  obtain ⟨q', hq, -⟩ := h.conserves hc hs
  exact ⟨q', hq⟩

end JobInv

theorem loads_cells (s : ThreadPool α) : (s.loads.map Prod.fst).Sublist (s.executors.filterMap Executor.cell) := by
  unfold loads
  induction s.executors with
  | nil => exact .refl _
  | cons e es ih =>
    cases e with
    | running p =>
      rw [List.filterMap_cons_some (show Executor.cell (.running p) = some p from rfl)]
      cases hc : s.jobs.heap p with
      | none => rw [List.filterMap_cons_none (by simp [Executor.load, hc])]; exact ih.cons p
      | some c =>
        rw [List.filterMap_cons_some (show Executor.load s.jobs.heap (.running p) = some (p, c.value) by
          simp [Executor.load, hc])]
        exact ih.cons_cons p
    | finishing p => exact ih.cons p
    | _ => exact ih

theorem JobInv.nodup (h : s.JobInv q) : (q.map Prod.fst ++ s.loads.map Prod.fst).Nodup := by
  refine List.Nodup.sublist (List.Sublist.append_left ?_ _) h.cells
  exact s.loads_cells.trans (List.sublist_append_left ..)

theorem Step.keeps (hs : Step s s') : s.jobs.Keeps s'.jobs := by
  refine hs.elim (P := fun s s' => s.jobs.Keeps s'.jobs) (fun hs => ?_) (fun hs => ?_) (fun hs => ?_)
    (fun _ _ => .of_eq rfl) fun _ => .of_eq rfl
  · cases hs with
    | take => exact .of_eq s.jobs.heap_pop
    | release => exact s.jobs.keeps_free _
    | register =>
      refine .of_eq ?_
      rcases s.register_spec with hr | ⟨-, ⟨-, hr⟩ | ⟨-, hr⟩⟩ <;> rw [hr]
    | _ => exact .of_eq rfl
  · cases hs with
    | malloc _ _ _ hf => exact Chain.Store.keeps_alloc hf _
    | insert => exact s.jobs.keeps_push _
    | insertWaiting => exact s.jobs.keeps_push _
    | _ => exact .of_eq rfl
  · cases hs with
    | drain => exact s.jobs.keeps_free _
    | _ => exact .of_eq rfl

theorem closed_createPool (n : ℕ) : (createPool α n).Closed := by
  refine .of_open ?_
  unfold createPool
  dsimp only
  split <;> rfl

theorem jobInv_run {n : ℕ} (h : ReflTransGen Step (createPool α n) s) : s.Closed ∧ ∃ q, s.JobInv q := by
  refine @Run.invariant _ _ (fun s : ThreadPool α => s.Closed ∧ ∃ q, s.JobInv q) _ _ ?_
    ⟨closed_createPool n, [], .createPool n⟩ h
  rintro s s' ⟨hc, q, hq⟩ hs
  exact ⟨hc.step hs, hq.step hc hs⟩

theorem exists_run_destroyed : ∃ s, ReflTransGen Step (createPool ℕ 1) s ∧ s.numThreads = s.waitingThreads ∧
    s.finished = [7] ∧ ∃ t, ReflTransGen Step s t ∧ t.owner = .destroyed ∧ t.finished = [7] ∧ t.dropped = [8] := by
  have h := ReflTransGen.refl (r := Step) (a := createPool ℕ 1)
  have h := h.tail (.owner (.pthreadCreate rfl))
  have h := h.tail (.owner (.created rfl))
  have h := h.tail (.executor (.start (.here _) rfl))
  have h := h.tail (.executor (.loop (.here _) (by decide)))
  have h := h.tail (.executor (.rest (.here _) rfl rfl (.inl rfl)))
  have h := h.tail (.executor (.register (.here _)))
  have h := h.tail (.owner (.initialized rfl rfl))
  have h := h.tail (.call 7 rfl)
  have h := h.tail (.addJob (.initialized (.here _) rfl))
  have h := h.tail (.addJob (.live (.here _) (by decide)))
  have h := h.tail (.addJob (.malloc (p := 1) (.here _) (by decide) (by decide) rfl))
  have h := h.tail (.addJob (.insertWaiting (.here _) rfl rfl (by decide)))
  have h := h.tail (.addJob (.signal (.here _) (.inl (.here _))))
  have h := h.tail (.executor (.unregister (.here _)))
  have h := h.tail (.executor (.loop (.here _) (by decide)))
  have h := h.tail (.executor (.take (.here _) rfl rfl (by decide) rfl rfl))
  have h := h.tail (.executor (.execute (.here _) rfl))
  have h := h.tail (.executor (.release (.here _)))
  have h := h.tail (.executor (.loop (.here _) (by decide)))
  have h := h.tail (.executor (.rest (.here _) rfl rfl (.inl rfl)))
  have h := h.tail (.executor (.register (.here _)))
  have hstay : ∀ {s t : ThreadPool ℕ}, ReflTransGen Step s t → ReflTransGen Step t t := fun _ => .refl
  have ht := (hstay h).tail (.call 8 rfl)
  have ht := ht.tail (.addJob (.initialized (.there _ (.here _)) rfl))
  have ht := ht.tail (.addJob (.live (.there _ (.here _)) (by decide)))
  have ht := ht.tail (.addJob (.malloc (p := 1) (.there _ (.here _)) (by decide) (by decide) rfl))
  have ht := ht.tail (.addJob (.insertWaiting (.there _ (.here _)) rfl rfl (by decide)))
  have ht := ht.tail (.addJob (.signal (.there _ (.here _)) (.inl (.here _))))
  have ht := ht.tail (.owner (.destroyPool rfl rfl (by simp [Adder.isReturned])))
  have ht := ht.tail (.owner (.broadcast rfl))
  have ht := ht.tail (.executor (.unregister (.here _)))
  have ht := ht.tail (.executor (.leave (.here _) rfl))
  have ht := ht.tail (.executor (.stop (.here _) rfl))
  have ht := ht.tail (.owner (.join rfl rfl rfl))
  have ht := ht.tail (.owner (.joined rfl (by decide)))
  have ht := ht.tail (.owner (.drain rfl (by decide) rfl))
  exact ⟨_, h, rfl, rfl, _, ht.tail (.owner (.destroyed rfl rfl)), rfl, rfl, rfl⟩

theorem destroy_pool_frees (n : ℕ) (h : ReflTransGen Step (createPool α n) s) (hd : s.owner = .destroyed) :
    (∀ e ∈ s.executors, e.isExited = true) ∧ (∀ p, s.jobs.heap p = none) ∧ s.accepted = s.started ++ s.dropped ∧
      s.started.Perm s.finished := by
  obtain ⟨hc, q, hq⟩ := jobInv_run h
  have hdr : s.owner.drained = true := by simp [hd, Owner.drained]
  have hloads : s.loads = [] := List.filterMap_eq_nil_iff.mpr fun e he =>
    Executor.load_of_cell (Executor.cell_of_isExited (hc.exited hdr e he))
  obtain rfl := hq.path.front_eq_zero.mp (hc.emptied hd)
  refine ⟨hc.exited hdr, fun p => ?_, ?_, ?_⟩
  · by_contra hp
    have hm := (hq.allocated p).mp hp
    rw [hc.cells_eq hdr] at hm
    cases hm
  · simpa using hq.accepted
  · simpa [hloads] using hq.started

theorem destroy_pool_frees_of_run : ∃ s, ReflTransGen Step (createPool ℕ 1) s ∧ s.owner = .destroyed ∧ s.finished = [7] ∧
    s.dropped = [8] ∧ (∀ e ∈ s.executors, e.isExited = true) ∧ (∀ p, s.jobs.heap p = none) ∧
      s.accepted = s.started ++ s.dropped ∧ s.started.Perm s.finished := by
  obtain ⟨s, hs, -, -, t, ht, ho, hf, hd⟩ := exists_run_destroyed
  exact ⟨t, hs.trans ht, ho, hf, hd, destroy_pool_frees 1 (hs.trans ht) ho⟩

end ThreadPool
end Azalea
