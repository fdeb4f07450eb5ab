import Azalea.Foundation.Links
import Azalea.Foundation.Run
import Azalea.Sched.Thread

namespace Azalea.DlList
open Relation Links

variable {ι α : Type*} [DecidableEq ι] [DecidableEq α]

def dlListInit (m : Links α) (list : α) : Links α := (m.setNext list list).setPrev list list

def dlListAdd (m : Links α) (item list : α) : Links α :=
  let m := m.setNext item (m.next list)
  let m := m.setPrev item list
  let m := m.setPrev (m.next list) item
  m.setNext list item

def dlListAddTail (m : Links α) (item list : α) : Links α := dlListAdd m item (m.prev list)

def dlListDel (null : α) (m : Links α) (item : α) : Links α :=
  let m := m.setPrev (m.next item) (m.prev item)
  let m := m.setNext (m.prev item) (m.next item)
  let m := m.setNext item null
  m.setPrev item null

def dlListDelInit (m : Links α) (item : α) : Links α := dlListDel item m item

def dlListEmpty (m : Links α) (list : α) : Bool := m.next list == list

def dlListAppend (m : Links α) (item list : α) : Links α :=
  if dlListEmpty m item then m
  else
    let m := m.setNext (m.prev item) list
    let m := m.setNext (m.prev list) (m.next item)
    let m := m.setPrev (m.next item) (m.prev list)
    m.setPrev list (m.prev item)

variable {m : Links α} {null h item list t : α} {xs ys : List α}

theorem dlListAdd_eq (hl : item ≠ list) (hn : m.next list ≠ item) :
    dlListAdd m item list = (m.join item (m.next list)).join list item := by
  ext x
  · simp [dlListAdd, hl.symm]
  · simp [dlListAdd, hl.symm, Function.update_comm hn]

theorem dlListDel_eq (hn : m.next item ≠ item) :
    dlListDel null m item = ((m.join (m.prev item) (m.next item)).setNext item null).setPrev item null := by
  ext x
  · simp [dlListDel, hn.symm]
  · simp [dlListDel, hn.symm]

theorem dlListAppend_eq (hn : m.next item ≠ item) (hp : m.prev item ≠ item) (hl : m.prev list ≠ item)
    (hpl : m.prev item ≠ m.prev list) :
    dlListAppend m item list = (m.join (m.prev list) (m.next item)).join (m.prev item) list := by
  have hempty : ¬ dlListEmpty m item = true := by simpa [dlListEmpty] using hn
  rw [dlListAppend, if_neg hempty]
  ext x
  · simp [hp.symm, Function.update_comm hpl]
  · simp [hp.symm, hl.symm, hn.symm]

theorem dlListAdd_circle (hc : m.Circle h (xs ++ ys)) (ht : t ∉ h :: (xs ++ ys)) :
    (dlListAdd m t (xs.getLastD h)).Circle h (xs ++ t :: ys) ∧
      ∀ x ∉ t :: h :: (xs ++ ys), Kept m (dlListAdd m t (xs.getLastD h)) x := by
  have hlast : xs.getLastD h ∈ h :: xs := List.getLastD_mem_cons
  have hhead := headD_mem ys h
  have hnext := (seg_append.mp hc.seg).2.first.1
  rw [dlListAdd_eq (by grind) (by grind), hnext]
  refine ⟨hc.insert ht, fun x hx => (kept_join ?_ ?_).trans (kept_join ?_ ?_)⟩ <;> grind

theorem dlListAddTail_circle (hc : m.Circle h xs) (ht : t ∉ h :: xs) :
    (dlListAddTail m t h).Circle h (xs ++ [t]) ∧ ∀ x ∉ t :: h :: xs, Kept m (dlListAddTail m t h) x := by
  have hlast := hc.prev_header
  rw [← List.append_nil xs] at hc ht
  rw [dlListAddTail, hlast]
  have hadd := dlListAdd_circle hc ht
  rwa [List.append_nil] at hadd

theorem dlListDel_circle (null : α) (hc : m.Circle h (xs ++ t :: ys)) :
    (dlListDel null m t).Circle h (xs ++ ys) ∧ ∀ x ∉ t :: h :: (xs ++ ys), Kept m (dlListDel null m t) x := by
  have hnd := hc.nodup
  obtain ⟨hxs, hys⟩ := seg_append_cons.mp hc.seg
  have hlast : xs.getLastD h ∈ h :: xs := List.getLastD_mem_cons
  have hhead := headD_mem ys h
  have hprev := hxs.joined.2
  have hnext := hys.first.1
  have hkept : ∀ x ≠ t, Kept (m.join (xs.getLastD h) (ys.headD h)) (dlListDel null m t) x := by
    intro x hx
    rw [dlListDel_eq (by grind), hprev, hnext]
    exact ⟨Function.update_of_ne hx _ _, Function.update_of_ne hx _ _⟩
  refine ⟨hc.remove.congr fun x hx => hkept x (by grind), fun x hx => (kept_join ?_ ?_).trans (hkept x ?_)⟩ <;> grind

theorem dlListAppend_circle (hi : m.Circle item xs) (hl : m.Circle list ys)
    (hd : (item :: xs).Disjoint (list :: ys)) :
    (dlListAppend m item list).Circle list (ys ++ xs) ∧
      ∀ x ∉ list :: (ys ++ xs), Kept m (dlListAppend m item list) x := by
  cases xs with
  | nil =>
    have hempty : dlListEmpty m item = true := by simpa [dlListEmpty] using hi.next_header
    rw [dlListAppend, if_pos hempty, List.append_nil]
    exact ⟨hl, fun x _ => ⟨rfl, rfl⟩⟩
  | cons a xs =>
    have hall : (list :: ys ++ item :: a :: xs).Nodup := hl.nodup.append hi.nodup hd.symm
    have hlast : ys.getLastD list ∈ list :: ys := List.getLastD_mem_cons
    have hlast' : xs.getLastD a ∈ a :: xs := List.getLastD_mem_cons
    have hnext : m.next item = a := hi.next_header
    have hprev : m.prev item = xs.getLastD a := by rw [hi.prev_header, List.getLastD_cons]
    have hprev' := hl.prev_header
    rw [dlListAppend_eq (by grind) (by grind) (by grind) (by grind), hprev, hnext, hprev']
    refine ⟨hi.append hl hd, fun x hx => (kept_join ?_ ?_).trans (kept_join ?_ ?_)⟩ <;> grind

structure Shelved (m : Links α) (header : ι → α) (f : ι → List α) : Prop where
  injective : Function.Injective header
  outside : ∀ i j, header i ∉ f j
  exclusive : Shelf.Exclusive f
  circle : ∀ i, m.Circle (header i) (f i)

namespace Shelved

variable {header : ι → α} {f : ι → List α} {i j : ι} {m' : Links α}

omit [DecidableEq ι] [DecidableEq α] in
theorem disjoint (h : Shelved m header f) (hij : i ≠ j) : (header i :: f i).Disjoint (header j :: f j) := by
  intro x hi hj
  rcases List.mem_cons.mp hi with rfl | hi <;> rcases List.mem_cons.mp hj with hj | hj
  · exact hij (h.injective hj)
  · exact h.outside i j hj
  · exact h.outside j i (hj ▸ hi)
  · exact hij (h.exclusive.once hi hj)

omit [DecidableEq ι] [DecidableEq α] in
theorem kept (h : Shelved m header f) (ht : ∀ j, j ≠ i → t ∉ header j :: f j)
    (hk : ∀ x ∉ t :: header i :: f i, Kept m m' x) (hij : j ≠ i) : m'.Circle (header j) (f j) := by
  refine (h.circle j).congr fun x hx => hk x fun hmem => ?_
  rcases List.mem_cons.mp hmem with rfl | hmem
  · exact ht j hij hx
  · exact h.disjoint hij hx hmem

theorem addTail (h : Shelved m header f) (ht : ∀ j, t ∉ header j :: f j) :
    Shelved (dlListAddTail m t (header i)) header (Shelf.insert f i t) := by
  obtain ⟨hcircle, hkept⟩ := dlListAddTail_circle (h.circle i) (ht i)
  refine ⟨h.injective, fun j k hjk => ?_, h.exclusive.inserted fun j hj => ht j (List.mem_cons_of_mem _ hj), fun j => ?_⟩
  · rcases Shelf.mem_insert.mp hjk with hjk | ⟨he, -⟩
    · exact h.outside j k hjk
    · exact ht j (he ▸ List.mem_cons_self)
  · by_cases hj : j = i
    · subst hj
      rw [Shelf.insert, Function.update_self]
      exact hcircle
    · rw [Shelf.insert_of_ne hj]
      exact h.kept (fun k _ => ht k) hkept hj

theorem del (null : α) (h : Shelved m header f) (ht : t ∈ f i) :
    Shelved (dlListDel null m t) header (Shelf.remove f t) := by
  obtain ⟨xs, ys, hsplit⟩ := List.append_of_mem ht
  have hcircle := h.circle i
  have hnd := h.exclusive.nodup i
  rw [hsplit] at hcircle hnd
  obtain ⟨hcircle, hkept⟩ := dlListDel_circle null hcircle
  refine ⟨h.injective, fun j k hjk => h.outside j k (List.mem_of_mem_erase hjk), h.exclusive.removed, fun j => ?_⟩
  by_cases hj : j = i
  · subst hj
    have hxs : t ∉ xs := by grind
    rw [Shelf.remove, hsplit, List.erase_append_right _ hxs, List.erase_cons_head]
    exact hcircle
  · rw [Shelf.remove_of_not_mem (h.exclusive.not_mem ht hj)]
    refine h.kept (i := i) (t := t) (fun k hk => ?_) (fun x hx => hkept x ?_) hj
    · exact h.disjoint hk.symm (List.mem_cons_of_mem _ ht)
    · rw [hsplit] at hx
      grind

theorem splice (h : Shelved m header f) (hij : i ≠ j) :
    Shelved (dlListInit (dlListAppend m (header i) (header j)) (header i)) header (Shelf.splice f i j) := by
  obtain ⟨hcircle, hkept⟩ := dlListAppend_circle (h.circle i) (h.circle j) (h.disjoint hij)
  have hinit : ∀ x ≠ header i, Kept (dlListAppend m (header i) (header j))
      (dlListInit (dlListAppend m (header i) (header j)) (header i)) x := fun x hx => kept_join hx hx
  refine ⟨h.injective, fun k l hkl => ?_, h.exclusive.spliced hij, fun k => ?_⟩
  · rcases (Shelf.mem_splice hij).mp hkl with ⟨hkl, -⟩ | ⟨hkl, -⟩
    · exact h.outside k l hkl
    · exact h.outside k i hkl
  · rw [Shelf.splice]
    by_cases hki : k = i
    · subst hki
      rw [Function.update_self]
      exact Circle.single _ _
    rw [Function.update_of_ne hki]
    by_cases hkj : k = j
    · subst hkj
      rw [Function.update_self]
      refine hcircle.congr fun x hx => hinit x ?_
      rintro rfl
      rcases List.mem_cons.mp hx with hx | hx
      · exact hij (h.injective hx)
      · rcases List.mem_append.mp hx with hx | hx
        · exact h.outside i k hx
        · exact h.outside i i hx
    · rw [Function.update_of_ne hkj]
      refine (h.circle k).congr fun x hx => (hkept x fun hmem => ?_).trans (hinit x ?_)
      · rw [← List.cons_append] at hmem
        rcases List.mem_append.mp hmem with hmem | hmem
        · exact h.disjoint hkj hx hmem
        · exact h.disjoint hki hx (List.mem_cons_of_mem _ hmem)
      · rintro rfl
        exact h.disjoint hki hx List.mem_cons_self

end Shelved

inductive Call (null : α) (header : ι → α) : Links α × (ι → List α) → Links α × (ι → List α) → Prop
  | addTail {m f} (i t) (h : ∀ j, t ∉ header j :: f j) :
    Call null header (m, f) (dlListAddTail m t (header i), Shelf.insert f i t)
  | del {m f i} (t) (h : t ∈ f i) : Call null header (m, f) (dlListDel null m t, Shelf.remove f t)

theorem Shelved.call {header : ι → α} {s s' : Links α × (ι → List α)} (h : Shelved s.1 header s.2)
    (hc : Call null header s s') : Shelved s'.1 header s'.2 := by
  cases hc with
  | addTail i t ht => exact h.addTail ht
  | del t ht => exact h.del null ht

theorem Shelved.run {header : ι → α} {s s' : Links α × (ι → List α)} (h : Shelved s.1 header s.2)
    (hr : ReflTransGen (Call null header) s s') : Shelved s'.1 header s'.2 :=
  @Run.invariant _ _ (fun s => Shelved s.1 header s.2) _ _ (fun ha hc => ha.call hc) h hr

def pair {β : Type*} (a b : β) : Bool → β := fun second => bif second then b else a

omit [DecidableEq α] in
theorem shelved_pair (hi : m.Circle item xs) (hl : m.Circle list ys) (hd : (item :: xs).Disjoint (list :: ys)) :
    Shelved m (pair item list) (pair xs ys) := by
  have hall : (item :: xs ++ list :: ys).Nodup := hi.nodup.append hl.nodup hd
  refine ⟨?_, ?_, ⟨?_, ?_⟩, ?_⟩
  · intro i j
    cases i <;> cases j <;> simp [pair] <;> grind
  · intro i j
    cases i <;> cases j <;> simp [pair] <;> grind
  · intro i
    cases i <;> simp [pair] <;> grind
  · intro i j a
    cases i <;> cases j <;> simp [pair] <;> grind
  · intro i
    cases i
    · exact hi
    · exact hl

omit [DecidableEq α] in
theorem splice_pair (xs ys : List α) : Shelf.splice (pair xs ys) false true = pair [] (ys ++ xs) := by
  funext s
  cases s <;> simp [Shelf.splice, pair]

theorem dlListAppend_spliced (null : α) (hi : m.Circle item xs) (hl : m.Circle list ys)
    (hd : (item :: xs).Disjoint (list :: ys)) :
    (dlListAppend m item list).Circle list (ys ++ xs) ∧
      (∀ x ∉ list :: (ys ++ xs), Kept m (dlListAppend m item list) x) ∧
      (dlListInit (dlListAppend m item list) item).Circle item [] ∧
      ∀ m' f, ReflTransGen (Call null (pair item list))
          (dlListInit (dlListAppend m item list) item, pair [] (ys ++ xs)) (m', f) →
        m'.Circle item (f false) ∧ m'.Circle list (f true) ∧ (item :: f false).Disjoint (list :: f true) := by
  obtain ⟨hcircle, hkept⟩ := dlListAppend_circle hi hl hd
  refine ⟨hcircle, hkept, Circle.single _ _, fun m' f hr => ?_⟩
  have hsplice := (shelved_pair hi hl hd).splice Bool.false_ne_true
  rw [splice_pair] at hsplice
  have hrun := Shelved.run hsplice hr
  exact ⟨hrun.circle false, hrun.circle true, hrun.disjoint Bool.false_ne_true⟩

theorem three_nodes_spliced :
    let m : Links ℕ := ⟨fun x => [0, 2, 3, 1, 5, 4].getD x 0, fun x => [0, 3, 1, 2, 5, 4].getD x 0⟩
    let m' := dlListInit (dlListAppend m 1 4) 1
    (dlListAppend m 1 4).Circle 4 [5, 2, 3] ∧ (dlListAddTail m' 6 1).Circle 1 [6] ∧
      (dlListDel 0 m' 2).Circle 4 [5, 3] := by
  intro m m'
  have hi : m.Circle 1 [2, 3] := ⟨by decide, ⟨rfl, rfl⟩, ⟨rfl, rfl⟩, rfl, rfl⟩
  have hl : m.Circle 4 [5] := ⟨by decide, ⟨rfl, rfl⟩, rfl, rfl⟩
  obtain ⟨happend, -, -, hrun⟩ := dlListAppend_spliced 0 hi hl (by simp)
  refine ⟨happend, ?_, ?_⟩
  · exact (hrun _ _ (.single (.addTail false 6 (by decide)))).1
  · exact (hrun _ _ (.single (.del (i := true) 2 (by decide)))).2.1

inductive Node
  | null
  | list (p : Place)
  | tcbLink (t : ℕ)
  deriving DecidableEq

def destroyTcb (m : Links Node) (s : Sched) (env : Env) (c t : ℕ) : Links Node :=
  if 1 < s.count (.localTcb c) ∧ env.tryGlobal t then dlListAddTail m (.tcbLink t) (.list .globalTcb)
  else if 4 < s.count (.localTcb c) then
    let m := dlListAppend m (.list (.localTcb c)) (.list .globalTcb)
    let m := dlListInit m (.list (.localTcb c))
    dlListAddTail m (.tcbLink t) (.list (.localTcb c))
  else dlListAddTail m (.tcbLink t) (.list (.localTcb c))

def Linked (m : Links Node) (s : Sched) : Prop := Shelved m Node.list fun p => (s.tcbList p).map Node.tcbLink

namespace Linked

variable {m : Links Node} {s : Sched} {env : Env} {c t : ℕ} {p : Place}

theorem congr {s' : Sched} (h : Linked m s) (hl : s'.tcbList = s.tcbList) : Linked m s' := by
  unfold Linked
  rwa [hl]

theorem addTail (h : Linked m s) (ht : ∀ q, t ∉ s.tcbList q) :
    Linked (dlListAddTail m (.tcbLink t) (.list p)) (s.dlListAddTail t p) := by
  have hadd := Shelved.addTail (i := p) (t := Node.tcbLink t) h (by simpa using ht)
  rw [← Shelf.map_insert] at hadd
  exact hadd

theorem del (left : Node) (h : Linked m s) (ht : t ∈ s.tcbList p) :
    Linked (dlListDel left m (.tcbLink t)) (s.dlListDel t) := by
  have hinj : Function.Injective Node.tcbLink := fun _ _ => Node.tcbLink.inj
  have hdel := Shelved.del (i := p) left h (List.mem_map_of_mem ht)
  rw [← Shelf.map_remove _ hinj] at hdel
  exact hdel

theorem transfer {q : Place} (h : Linked m s) (ht : t ∈ s.tcbList p) :
    Linked (dlListAddTail (dlListDelInit m (.tcbLink t)) (.tcbLink t) (.list q)) (s.transfer t p q) := by
  have hout : ∀ r, t ∉ (s.dlListDel t).tcbList r := fun r =>
    (List.Nodup.of_map _ (h.exclusive.nodup r)).not_mem_erase
  exact ((h.del (.tcbLink t) ht).addTail hout).congr rfl

theorem splice (h : Linked m s) :
    Linked (dlListInit (dlListAppend m (.list (.localTcb c)) (.list .globalTcb)) (.list (.localTcb c)))
      (s.spliceLocal c) := by
  have hsplice := Shelved.splice (i := Place.localTcb c) (j := .globalTcb) h (by simp)
  rw [← Shelf.map_splice] at hsplice
  exact hsplice

theorem destroyed (h : Linked m s) (ht : ∀ q, t ∉ s.tcbList q) :
    Linked (destroyTcb m s env c t) (s.destroyTcb env c t) := by
  unfold destroyTcb Sched.destroyTcb
  split_ifs
  · exact (h.addTail ht).congr rfl
  · have hspliced : ∀ q, t ∉ (s.spliceLocal c).tcbList q := by
      intro q hq
      rcases (Shelf.mem_splice (by simp)).mp hq with ⟨hq, -⟩ | ⟨hq, -⟩
      · exact ht _ hq
      · exact ht _ hq
    exact (h.splice.addTail hspliced).congr rfl
  · exact (h.addTail ht).congr rfl

end Linked
end Azalea.DlList
