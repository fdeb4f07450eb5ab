import Mathlib.Tactic

namespace Trie

variable {N I : Type*}

def lookup (child : N → I → Option N) : N → List I → Option N
  | t, [] => some t
  | t, i :: is => (child t i).bind fun u => lookup child u is

theorem lookup_append (child : N → I → Option N) (t : N) (is js : List I) :
    lookup child t (is ++ js) = (lookup child t is).bind fun u => lookup child u js := by
  induction is generalizing t with
  | nil => rfl
  | cons i is ih => simp [lookup, ih, Option.bind_assoc]

theorem lookup_concat (child : N → I → Option N) (t : N) (is : List I) (j : I) :
    lookup child t (is ++ [j]) = (lookup child t is).bind fun u => child u j := by
  simp [lookup_append, lookup]

theorem lookup_cons {child : N → I → Option N} {t u : N} {i : I} {is : List I} :
    lookup child t (i :: is) = some u ↔ ∃ v, child t i = some v ∧ lookup child v is = some u :=
  Option.bind_eq_some_iff

structure Shape (child : N → I → Option N) (node : ℕ → N → Prop) : Prop where
  level : ∀ {d e t}, node d t → node e t → d = e
  below : ∀ {d t i u}, node (d + 2) t → child t i = some u → node (d + 1) u
  parent : ∀ {d e t t' i i' u}, node (d + 2) t → node (e + 2) t' → child t i = some u → child t' i' = some u →
    t = t' ∧ i = i'

namespace Shape
variable {child child' : N → I → Option N} {node : ℕ → N → Prop} {d : ℕ} {n r r' t u : N} {i j : I} {is js : List I}

theorem lookup_node (h : Shape child node) (hr : node (is.length + (d + 1)) r) (hl : lookup child r is = some t) :
    node (d + 1) t := by
  induction is generalizing r with
  | nil =>
    cases hl
    simpa using hr
  | cons i is ih =>
    obtain ⟨u, hu, hl⟩ := lookup_cons.mp hl
    refine ih (h.below ?_ hu) hl
    rwa [List.length_cons, show is.length + 1 + (d + 1) = is.length + d + 2 by omega] at hr

theorem lookup_inj (h : Shape child node) (hlen : is.length = js.length) (hr : node (is.length + (d + 1)) r)
    (hr' : node (is.length + (d + 1)) r') (hi : lookup child r is = some t) (hj : lookup child r' js = some t) :
    r = r' ∧ is = js := by
  induction is generalizing r r' js with
  | nil =>
    obtain rfl := List.length_eq_zero_iff.mp hlen.symm
    cases hi
    cases hj
    exact ⟨rfl, rfl⟩
  | cons i is ih =>
    obtain ⟨j, js, rfl⟩ := List.exists_cons_of_length_eq_add_one hlen.symm
    rw [List.length_cons, show is.length + 1 + (d + 1) = is.length + d + 2 by omega] at hr hr'
    obtain ⟨u, hu, hi⟩ := lookup_cons.mp hi
    obtain ⟨u', hu', hj⟩ := lookup_cons.mp hj
    obtain ⟨rfl, rfl⟩ := ih (Nat.succ.inj hlen) (h.below hr hu) (h.below hr' hu') hi hj
    obtain ⟨rfl, rfl⟩ := h.parent hr hr' hu hu'
    exact ⟨rfl, rfl⟩

theorem above_ne (h : Shape child node) (hu : node (d + 2) u) (ht : node 1 t) : u ≠ t := by
  rintro rfl
  have := h.level hu ht
  omega

theorem congr (h : Shape child node) (hsame : ∀ {e u j}, node e u → child' u j = child u j) : Shape child' node where
  level := h.level
  below hu hw := h.below hu (hsame hu ▸ hw)
  parent hu hu' hw hw' := h.parent hu hu' (hsame hu ▸ hw) (hsame hu' ▸ hw')

theorem lookup_congr (h : Shape child node) (hsame : ∀ {e u j}, node e u → child' u j = child u j)
    (hr : node is.length r) : lookup child' r is = lookup child r is := by
  induction is generalizing r with
  | nil => rfl
  | cons j is ih =>
    rw [lookup, lookup, hsame hr]
    cases hu : child r j with
    | none => rfl
    | some u =>
      cases is with
      | nil => rfl
      | cons k ks => exact ih (h.below hr hu)

theorem assign (h : Shape child node) (ht : node 1 t)
    (hsame : ∀ {e u j}, node e u → ¬ (u = t ∧ j = i) → child' u j = child u j) : Shape child' node where
  level := h.level
  below {e u j w} hu hw := by
    refine h.below hu (?_ : child u j = some w)
    rwa [hsame hu fun he => h.above_ne hu ht he.1] at hw
  parent {d e u u' j j' w} hu hu' hw hw' := by
    rw [hsame hu fun he => h.above_ne hu ht he.1] at hw
    rw [hsame hu' fun he => h.above_ne hu' ht he.1] at hw'
    exact h.parent hu hu' hw hw'

theorem assign_above (h : Shape child node) (ht : node 1 t)
    (hsame : ∀ {e u j}, node e u → ¬ (u = t ∧ j = i) → child' u j = child u j) (hr : node (is.length + 1) r) :
    lookup child' r is = lookup child r is := by
  induction is generalizing r with
  | nil => rfl
  | cons j is ih =>
    have hj : child' r j = child r j := hsame hr fun he => h.above_ne hr ht he.1
    rw [lookup, lookup, hj]
    cases hu : child r j with
    | none => rfl
    | some u => exact ih (h.below hr hu)

theorem assign_lookup (h : Shape child node) (hr : node (is.length + 1) r) (hl : lookup child r is = some t)
    (hsame : ∀ {e u j}, node e u → ¬ (u = t ∧ j = i) → child' u j = child u j) (hlen : js.length = is.length)
    (hj : ¬ (js = is ∧ j = i)) : lookup child' r (js ++ [j]) = lookup child r (js ++ [j]) := by
  have ht : node 1 t := h.lookup_node hr hl
  have hjs : node (js.length + 1) r := by rwa [hlen]
  rw [lookup_concat, lookup_concat, h.assign_above ht hsame hjs]
  cases hu : lookup child r js with
  | none => rfl
  | some u =>
    refine hsame (h.lookup_node hjs hu) ?_
    rintro ⟨rfl, rfl⟩
    exact hj ⟨(h.lookup_inj hlen hjs hjs hu hl).2, rfl⟩

theorem assign_self (h : Shape child node) (hr : node (is.length + 1) r) (hl : lookup child r is = some t)
    (hsame : ∀ {e u j}, node e u → ¬ (u = t ∧ j = i) → child' u j = child u j) :
    lookup child' r (is ++ [i]) = child' t i := by
  rw [lookup_concat, h.assign_above (h.lookup_node hr hl) hsame hr, hl]
  rfl

theorem graft (h : Shape child node) (ht : node (d + 2) t) (hn : ∀ e, ¬ node e n) (hnew : child' t i = some n)
    (hempty : ∀ j, child' n j = none)
    (hsame : ∀ {e u j}, node e u → ¬ (u = t ∧ j = i) → child' u j = child u j) :
    Shape child' fun e u => node e u ∨ u = n ∧ e = d + 1 := by
  have hold : ∀ {e u j w}, node (e + 2) u ∨ u = n ∧ e + 2 = d + 1 → child' u j = some w →
      node (e + 2) u ∧ (child u j = some w ∧ ¬ (u = t ∧ j = i) ∨ u = t ∧ j = i ∧ w = n) := by
    rintro e u j w (hu | ⟨rfl, -⟩) hw
    · refine ⟨hu, ?_⟩
      by_cases he : u = t ∧ j = i
      · rw [he.1, he.2, hnew, Option.some.injEq] at hw
        exact .inr ⟨he.1, he.2, hw.symm⟩
      · rw [hsame hu he] at hw
        exact .inl ⟨hw, he⟩
    · rw [hempty] at hw
      contradiction
  constructor
  · rintro e f u (hu | ⟨rfl, rfl⟩) (hu' | ⟨hu', rfl⟩)
    · exact h.level hu hu'
    · exact absurd (hu' ▸ hu) (hn _)
    · exact absurd hu' (hn _)
    · rfl
  · intro e u j w hu hw
    obtain ⟨hu₁, ⟨hw₁, -⟩ | ⟨rfl, rfl, rfl⟩⟩ := hold hu hw
    · exact .inl (h.below hu₁ hw₁)
    · obtain rfl : e = d := by simpa using h.level hu₁ ht
      exact .inr ⟨rfl, rfl⟩
  · intro e f u u' j j' w hu hu' hw hw'
    obtain ⟨hu₁, ⟨hw₁, -⟩ | ⟨rfl, rfl, rfl⟩⟩ := hold hu hw
    · obtain ⟨hu₂, ⟨hw₂, -⟩ | ⟨rfl, rfl, rfl⟩⟩ := hold hu' hw'
      · exact h.parent hu₁ hu₂ hw₁ hw₂
      · exact absurd (h.below hu₁ hw₁) (hn _)
    · obtain ⟨hu₂, ⟨hw₂, -⟩ | ⟨rfl, rfl, -⟩⟩ := hold hu' hw'
      · exact absurd (h.below hu₂ hw₂) (hn _)
      · exact ⟨rfl, rfl⟩

theorem graft_lookup (h : Shape child node) (ht : node (d + 2) t) (hfree : child t i = none)
    (hnew : child' t i = some n) (hempty : ∀ j, child' n j = none)
    (hsame : ∀ {e u j}, node e u → ¬ (u = t ∧ j = i) → child' u j = child u j) (hr : node is.length r) :
    lookup child' r is = lookup child r is := by
  induction is generalizing r with
  | nil => rfl
  | cons j is ih =>
    rw [lookup, lookup]
    by_cases he : r = t ∧ j = i
    · obtain ⟨rfl, rfl⟩ := he
      have hlen : is.length = d + 1 := by simpa using h.level hr ht
      obtain ⟨k, ks, rfl⟩ := List.exists_cons_of_length_eq_add_one hlen
      rw [hnew, hfree]
      simp [lookup, hempty]
    · rw [hsame hr he]
      cases hu : child r j with
      | none => rfl
      | some u =>
        cases is with
        | nil => rfl
        | cons k ks => exact ih (h.below hr hu)

theorem lookup_mono (h : Shape child node) (hkeep : ∀ {e u j w}, node e u → child u j = some w → child' u j = some w)
    (hr : node (is.length + (d + 1)) r) (hl : lookup child r is = some t) : lookup child' r is = some t := by
  induction is generalizing r with
  | nil => exact hl
  | cons j is ih =>
    obtain ⟨u, hu, hl⟩ := lookup_cons.mp hl
    rw [List.length_cons, show is.length + 1 + (d + 1) = is.length + d + 2 by omega] at hr
    exact lookup_cons.mpr ⟨u, hkeep hr hu, ih (h.below hr hu) hl⟩

end Shape
end Trie
