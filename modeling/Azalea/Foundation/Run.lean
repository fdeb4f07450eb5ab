import Mathlib.Logic.Relation

namespace Run
open Relation

variable {α : Type*} {step : α → α → Prop} {inv : α → Prop} {keep : α → α → Prop} {a b : α}

theorem invariant (hstep : ∀ {a b}, inv a → step a b → inv b) (ha : inv a)
    (h : ReflTransGen step a b) : inv b := by
  induction h with
  | refl => exact ha
  | tail _ hs ih => exact hstep ih hs

theorem preserved (hrefl : ∀ a, keep a a) (htrans : ∀ {a b c}, keep a b → keep b c → keep a c)
    (hstep : ∀ {a b}, inv a → step a b → inv b ∧ keep a b) (ha : inv a)
    (h : ReflTransGen step a b) : keep a b := by
  induction h with
  | refl => exact hrefl a
  | tail hr hs ih => exact htrans ih (hstep (invariant (fun hi hs => (hstep hi hs).1) ha hr) hs).2

theorem simulates {β : Type*} {t : β → β → Prop} {r : α → β → Prop} {c : β}
    (hstep : ∀ {a b c}, r a c → step a b → ∃ d, ReflTransGen t c d ∧ r b d) (ha : r a c)
    (h : ReflTransGen step a b) : ∃ d, ReflTransGen t c d ∧ r b d := by
  induction h with
  | refl => exact ⟨c, .refl, ha⟩
  | tail _ hs ih =>
    obtain ⟨d, hd, hr⟩ := ih
    obtain ⟨e, he, hr⟩ := hstep hr hs
    exact ⟨e, hd.trans he, hr⟩

theorem foldlM {ε : Type*} {exec : α → ε → Option α} (hstep : ∀ {a b e}, inv a → exec a e = some b → inv b)
    (ha : inv a) {es : List ε} (h : es.foldlM exec a = some b) : inv b := by
  induction es generalizing a with
  | nil =>
    cases h
    exact ha
  | cons e es ih =>
    rw [List.foldlM_cons] at h
    obtain ⟨c, he, h⟩ := Option.bind_eq_some_iff.mp h
    exact ih (hstep ha he) h

end Run
