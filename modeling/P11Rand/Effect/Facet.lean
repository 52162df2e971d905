import Mathlib.Logic.Equiv.Defs
import P11Rand.Effect.Host

/-! A program whose requests are some of those that a larger host answers. -/
namespace Effect

/-- Some of the requests of a host, under names of their own. -/
structure Facet {Q Q' : Type} (A : Q → Type) (A' : Q' → Type) where
  request : Q → Q'
  answer (q : Q) : A' (request q) ≃ A q

namespace Facet

variable {Q Q' H α : Type} {A : Q → Type} {A' : Q' → Type} {facet : Facet A A'} {P : Host A' H}
  {x : Run (Hosted A H) α} {w w' : Hosted A' H} {a : α}

/-- The host, as far as the program knows it. -/
def host (facet : Facet A A') (P : Host A' H) : Host A H where
  answer q e :=
    (facet.answer q (P.answer (facet.request q) e).1, (P.answer (facet.request q) e).2)

def reply (facet : Facet A A') (e : Reply A) : Reply A' :=
  ⟨facet.request e.request, (facet.answer e.request).symm e.answer⟩

/-- Run the program. What was asked before is no concern of it, and what it asks comes after. -/
def run (facet : Facet A A') (x : Run (Hosted A H) α) : Run (Hosted A' H) α := fun w =>
  match x ⟨w.env, []⟩ with
  | none => none
  | some (a, v) => some (a, ⟨v.env, w.trace ++ v.trace.map facet.reply⟩)

theorem run_eq_some : facet.run x w = some (a, w') ↔
    ∃ v, x ⟨w.env, []⟩ = some (a, v) ∧ w' = ⟨v.env, w.trace ++ v.trace.map facet.reply⟩ := by
  unfold run
  cases h : x ⟨w.env, []⟩ with
  | none => simp
  | some r =>
    obtain ⟨b, v⟩ := r
    constructor
    · rintro ⟨⟩
      exact ⟨v, rfl, rfl⟩
    · rintro ⟨u, ⟨⟩, rfl⟩
      rfl

theorem yields_run {e : H} {es : List (Reply A')} {Post : α → Hosted A H → Prop}
    (h : Run.Yields x ⟨e, []⟩ Post) : Run.Yields (facet.run x) ⟨e, es⟩ fun a v =>
      ∃ u, v = ⟨u.env, es ++ u.trace.map facet.reply⟩ ∧ Post a u := by
  obtain ⟨a, u, hx, hpost⟩ := h
  exact ⟨a, _, run_eq_some.mpr ⟨u, hx, rfl⟩, u, rfl, hpost⟩

end Facet
end Effect
