import P11Rand.Pool.Invariant

/-! Machines on which enumerating and opening devices keep having the same outcome, and what the
scans of `Pool::open` and `fillable` count there. -/
namespace P11Rand

open Effect Run

variable {W : Type} {P : Platform W} {w w' : World W} {cfg : Config} {kind : SlotKind}

/-- The devices of a kind: those listed, in order, or that enumeration fails, and which open. -/
structure Snapshot where
  listing : Option (List String)
  opens : String → Bool

namespace Snapshot

variable {S : Snapshot} {names : List String}

/-- From `w` on, the devices of a kind are as in the snapshot. -/
structure Of (S : Snapshot) (P : Platform W) (kind : SlotKind) (w : World W) : Prop where
  lists : ∀ v, Later P w v → Yields (kind.list P) v fun res _ => res.toOption = S.listing
  opens : ∀ names, S.listing = some names → ∀ name ∈ names, ∀ v, Later P w v →
    Yields (kind.openSource P name) v fun src _ => src.isSome = S.opens name

/-- The part of `names` that is listed. -/
def Lists (S : Snapshot) (names : List String) : Prop :=
  ∃ all, S.listing = some all ∧ ∀ name ∈ names, name ∈ all

theorem Of.later (h : S.Of P kind w) (hl : Later P w w') : S.Of P kind w' :=
  ⟨fun v hv => h.lists v (IsTrans.trans _ _ _ hl hv),
    fun names hn name hm v hv => h.opens names hn name hm v (IsTrans.trans _ _ _ hl hv)⟩

theorem Lists.tail {name : String} (h : S.Lists (name :: names)) : S.Lists names := by
  obtain ⟨all, hall, hsub⟩ := h
  exact ⟨all, hall, fun n hn => hsub n (List.mem_cons_of_mem _ hn)⟩

/-- Opening the first of some listed names. -/
theorem Of.open_head {name : String} (h : S.Of P kind w) (hl : S.Lists (name :: names)) :
    Yields (kind.openSource P name) w fun src v => src.isSome = S.opens name ∧ Later P w v := by
  obtain ⟨all, hall, hsub⟩ := hl
  obtain ⟨src, v, hsrc, heq⟩ := h.opens all hall name (hsub name List.mem_cons_self) w
    (Std.Refl.refl w)
  have hd := (SlotKind.openSource_total (A := fun _ => True) (fun _ => trivial) kind name).within
    _ _ _ hsrc
  exact ⟨src, v, hsrc, heq, hd.later⟩

end Snapshot

theorem list_error {e : Error} (h : kind.list P w = some (.error e, w')) : e = .resource := by
  cases kind with
  | iso7816 =>
    obtain ⟨res, v, _, h⟩ := bind_eq_some.mp h
    cases res with
    | error _ =>
      cases h
      rfl
    | ok _ => cases h
  | infnoise =>
    obtain ⟨res, v, _, h⟩ := bind_eq_some.mp h
    cases res with
    | error _ =>
      cases h
      rfl
    | ok _ => cases h

namespace Snapshot

variable {S : Snapshot} {names : List String}

theorem Of.list_cases (h : S.Of P kind w) :
    (S.listing = none ∧ ∃ v, kind.list P w = some (.error .resource, v) ∧ Later P w v) ∨
      ∃ names v, S.listing = some names ∧ kind.list P w = some (.ok names, v) ∧ Later P w v := by
  obtain ⟨res, v, hl, heq⟩ := h.lists w (Std.Refl.refl w)
  have hd := (SlotKind.list_total (A := fun _ => True) (fun _ _ => trivial) kind).within _ _ _ hl
  cases res with
  | error e =>
    obtain rfl := list_error hl
    exact .inl ⟨heq.symm, v, hl, hd.later⟩
  | ok names => exact .inr ⟨names, v, heq.symm, hl, hd.later⟩

/-- The scan of `Pool::open` gets as many slots as it wants exactly when so many names open. -/
theorem Of.claim (h : S.Of P kind w) (hl : S.Lists names) (want : Nat) (got : List Slot) :
    Yields (claim P kind want got names) w fun got' _ =>
      want ≤ got'.length ↔ want ≤ got.length + names.countP S.opens := by
  induction names generalizing got w with
  | nil => exact ⟨got, w, rfl, by simp⟩
  | cons name names ih =>
    unfold P11Rand.claim
    split
    · exact ⟨got, w, rfl, by omega⟩
    · obtain ⟨src, v, hsrc, heq, hv⟩ := h.open_head hl
      cases src with
      | none =>
        obtain ⟨got', u, hu, hcount⟩ := ih (h.later hv) hl.tail got
        refine ⟨got', u, (bind_of_eq hsrc).trans hu, ?_⟩
        simpa [List.countP_cons, ← heq] using hcount
      | some src =>
        obtain ⟨got', u, hu, hcount⟩ := ih (h.later hv) hl.tail
          (got ++ [⟨kind, some name, src⟩])
        refine ⟨got', u, (bind_of_eq hsrc).trans hu, ?_⟩
        simpa [List.countP_cons, ← heq, Nat.add_assoc, Nat.add_comm 1] using hcount

/-- The card scan of `fillable` counts the names that open. -/
theorem Of.countUsable (h : S.Of P .iso7816 w) (hl : S.Lists names) (cards usable : Nat) :
    Yields (countUsable P cards usable names) w fun n v =>
      (cards ≤ n ↔ cards ≤ usable + names.countP S.opens) ∧ Later P w v := by
  induction names generalizing usable w with
  | nil => exact ⟨usable, w, rfl, by simp, Std.Refl.refl w⟩
  | cons name names ih =>
    unfold P11Rand.countUsable
    split
    · exact ⟨usable, w, rfl, by omega, Std.Refl.refl w⟩
    · obtain ⟨src, v, hsrc, heq, hv⟩ := h.open_head hl
      obtain ⟨res, v', hres, hsrc⟩ := bind_eq_some.mp hsrc
      cases res with
      | error e =>
        cases hsrc
        obtain ⟨n, u, hu, hcount, hlat⟩ := ih (h.later hv) hl.tail usable
        refine ⟨n, u, (bind_of_eq hres).trans hu, ?_, IsTrans.trans _ _ _ hv hlat⟩
        simpa [List.countP_cons, ← heq] using hcount
      | ok src =>
        cases hsrc
        have htotal : Total (Does P fun _ => True) (Iso7816.dropCard P src.card) :=
          Iso7816.dropCard_total fun _ => trivial
        obtain ⟨_, v'', hdrop, hd⟩ := htotal v
        have hv' := IsTrans.trans _ _ _ hv hd.later
        obtain ⟨n, u, hu, hcount, hlat⟩ := ih (h.later hv') hl.tail (usable + 1)
        refine ⟨n, u, (bind_of_eq hres).trans ((bind_of_eq hdrop).trans hu), ?_,
          IsTrans.trans _ _ _ hv' hlat⟩
        simpa [List.countP_cons, ← heq, Nat.add_assoc, Nat.add_comm 1] using hcount

end Snapshot
end P11Rand
