import Mathlib.Data.List.Induction
import Mathlib.Data.Set.Function

/-! Chains of digests: each state is the hash of the state before it together with the input of
its step. -/
namespace HashChain

variable {S E M : Type} {H : M → S} {enc : S → E → M} {s s' : S} {es es' : List E}

/-- The state after the inputs `es`. -/
def run (H : M → S) (enc : S → E → M) (s : S) (es : List E) : S :=
  es.foldl (fun s e => H (enc s e)) s

/-- The strings that the chain hashes on the way. -/
def hashed (H : M → S) (enc : S → E → M) : S → List E → List M
  | _, [] => []
  | s, e :: es => enc s e :: hashed H enc (H (enc s e)) es

@[simp] theorem run_cons (e : E) : run H enc s (e :: es) = run H enc (H (enc s e)) es := rfl

theorem run_snoc (e : E) : run H enc s (es ++ [e]) = H (enc (run H enc s es) e) := by
  simp [run]

theorem hashed_append (fs : List E) :
    hashed H enc s (es ++ fs) = hashed H enc s es ++ hashed H enc (run H enc s es) fs := by
  induction es generalizing s with
  | nil => rfl
  | cons e es ih => simp [hashed, ih]

/-- A chain commits to its inputs: where the hash is injective on what two chains of one length
hash, equal final states come from equal first states and equal inputs. -/
theorem run_injOn (henc : ∀ s e s' e', enc s e = enc s' e' → s = s' ∧ e = e') {A : Set M}
    (hH : Set.InjOn H A) (hA : ∀ m ∈ hashed H enc s es, m ∈ A)
    (hA' : ∀ m ∈ hashed H enc s' es', m ∈ A) (hlen : es.length = es'.length)
    (h : run H enc s es = run H enc s' es') : s = s' ∧ es = es' := by
  induction es using List.reverseRecOn generalizing es' with
  | nil =>
    obtain rfl := List.eq_nil_of_length_eq_zero hlen.symm
    exact ⟨h, rfl⟩
  | append_singleton es e ih =>
    rcases List.eq_nil_or_concat es' with rfl | ⟨fs, f, rfl⟩
    · simp at hlen
    · rw [List.concat_eq_append] at hA' h ⊢
      rw [hashed_append] at hA hA'
      rw [run_snoc, run_snoc] at h
      have hstep := hH (hA _ (by simp [hashed])) (hA' _ (by simp [hashed])) h
      obtain ⟨hrun, rfl⟩ := henc _ _ _ _ hstep
      obtain ⟨rfl, rfl⟩ := ih (fun m hm => hA m (List.mem_append_left _ hm))
        (fun m hm => hA' m (List.mem_append_left _ hm)) (by simpa using hlen) hrun
      exact ⟨rfl, rfl⟩

/-- Blocks of one length can be told apart in their concatenation. -/
theorem flatMap_block_injective {α : Type} (key : E → S) {block : E → List α} {n : Nat}
    (hext : ∀ e e', key e = key e' → block e = block e' → e = e')
    (hn : ∀ e ∈ es, (block e).length = n) (hn' : ∀ e ∈ es', (block e).length = n)
    (hkey : es.map key = es'.map key) (h : es.flatMap block = es'.flatMap block) : es = es' := by
  induction es generalizing es' with
  | nil => simpa using hkey.symm
  | cons e es ih =>
    cases es' with
    | nil => simp at hkey
    | cons e' es' =>
      simp only [List.map_cons, List.cons.injEq, List.flatMap_cons] at hkey h
      have hlen : (block e).length = (block e').length := by
        rw [hn e List.mem_cons_self, hn' e' List.mem_cons_self]
      obtain ⟨hb, hrest⟩ := List.append_inj h hlen
      rw [hext e e' hkey.1 hb, ih (fun x hx => hn x (List.mem_cons_of_mem e hx))
        (fun x hx => hn' x (List.mem_cons_of_mem e' hx)) hkey.2 hrest]

end HashChain
