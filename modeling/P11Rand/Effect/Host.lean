import P11Rand.Effect.Run

/-! A program whose only effects are requests to a host, and laws about the record of them. -/
namespace Effect

/-- A request with the answer it got. -/
structure Reply {Q : Type} (Answer : Q → Type) where
  request : Q
  answer : Answer request

/-- Anything that answers every request from a state of its own. -/
structure Host {Q : Type} (Answer : Q → Type) (H : Type) where
  answer : (q : Q) → H → Answer q × H

/-- The host's state, and what it has been asked so far. -/
structure Hosted {Q : Type} (Answer : Q → Type) (H : Type) where
  env : H
  trace : List (Reply Answer)

variable {Q H : Type} {Answer : Q → Type} {P : Host Answer H} {w w' : Hosted Answer H}

def ask (P : Host Answer H) (q : Q) : Run (Hosted Answer H) (Answer q) := fun w =>
  some ((P.answer q w.env).1, ⟨(P.answer q w.env).2, w.trace ++ [⟨q, (P.answer q w.env).1⟩]⟩)

theorem ask_apply (q : Q) (w : Hosted Answer H) : ask P q w =
    some ((P.answer q w.env).1,
      ⟨(P.answer q w.env).2, w.trace ++ [⟨q, (P.answer q w.env).1⟩]⟩) := rfl

theorem ask_trace {q : Q} {a : Answer q} (h : ask P q w = some (a, w')) :
    w'.trace = w.trace ++ [⟨q, a⟩] := by
  rw [ask_apply] at h
  cases h
  rfl

/-- What follows a request has to do its work after any answer. -/
theorem yields_ask {α : Type} {q : Q} {f : Answer q → Run (Hosted Answer H) α}
    {Post : α → Hosted Answer H → Prop}
    (h : ∀ a env, Run.Yields (f a) ⟨env, w.trace ++ [⟨q, a⟩]⟩ Post) :
    Run.Yields (ask P q >>= f) w Post :=
  Run.yields_bind ⟨_, _, ask_apply q w, h _ _⟩

/-- The same where the answer is known. -/
theorem yields_ask_of {α : Type} {q : Q} {a : Answer q} {e e' : H} {es : List (Reply Answer)}
    {f : Answer q → Run (Hosted Answer H) α} {Post : α → Hosted Answer H → Prop}
    (ha : P.answer q e = (a, e')) (h : Run.Yields (f a) ⟨e', es ++ [⟨q, a⟩]⟩ Post) :
    Run.Yields (ask P q >>= f) ⟨e, es⟩ Post := by
  refine Run.yields_bind ⟨_, _, ask_apply q _, ?_⟩
  rw [ha]
  exact h

section Lawful

variable {E : Type} {legal : List E → E → Prop} {es : List E} {e : E}

/-- Every element is legal after those that come before it. -/
def Lawful (legal : List E → E → Prop) (es : List E) : Prop :=
  ∀ pre e post, es = pre ++ e :: post → legal pre e

theorem lawful_nil : Lawful legal [] := by
  intro pre e post h
  simp at h

theorem lawful_snoc : Lawful legal (es ++ [e]) ↔ Lawful legal es ∧ legal es e := by
  constructor
  · intro h
    refine ⟨fun pre x post heq => h pre x (post ++ [e]) (by simp [heq]), h es e [] rfl⟩
  · rintro ⟨h, he⟩ pre x post heq
    rcases List.eq_nil_or_concat post with rfl | ⟨post, y, rfl⟩
    · obtain ⟨rfl, hx⟩ := List.append_inj' heq rfl
      obtain rfl := List.singleton_inj.mp hx
      exact he
    · have heq' : es ++ [e] = (pre ++ x :: post) ++ [y] := by simpa using heq
      exact h pre x post (List.append_inj' heq' rfl).1

/-- A lawful list is lawful up to any point. -/
theorem Lawful.of_append {fs : List E} (h : Lawful legal (es ++ fs)) : Lawful legal es :=
  fun pre x post heq => h pre x (post ++ fs) (by simp [heq])

end Lawful

end Effect
