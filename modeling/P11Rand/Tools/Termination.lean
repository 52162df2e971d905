import P11Rand.Tools.Completion

/-! p11rand-read on the module comes to an end, whatever fails. -/
namespace P11Rand.Tools

open Effect Run

variable {H W : Type}

namespace Read

variable {T : ToolHost H} {a : Args} {p : Int64}

theorem writeFullStep_progress (T : ToolHost H) : Progress (fun _ _ => True) (Stalled T)
    List.length (writeFullStep T) := by
  intro buf w
  unfold writeFullStep
  split
  · exact yields_pure ⟨trivial, nofun⟩
  rename_i hne
  have hpos : 0 < buf.length := List.length_pos_iff.mpr (by simpa using hne)
  refine yields_bind ⟨_, _, ask_apply _ _, ?_⟩
  cases hans : (T.answer (.writeOut buf) w.env).1 with
  | ok n =>
    refine yields_pure ⟨trivial, fun rest hrest => ?_⟩
    split at hrest
    · cases hrest
    · cases hrest
      left
      rw [List.length_drop]
      omega
  | error err =>
    cases err with
    | interrupted =>
      refine yields_pure ⟨trivial, fun rest hrest => ?_⟩
      cases hrest
      exact .inr ⟨le_rfl, buf, Prod.ext hans rfl⟩
    | _ => exact yields_pure ⟨trivial, nofun⟩

theorem writeFull_returns (hT : Unhung T) (buf : List UInt8) (w : ToolWorld H) :
    Yields (writeFull T buf) w fun _ _ => True := by
  have : IsPreorder (ToolWorld H) fun _ _ => True :=
    { refl := fun _ => trivial, trans := fun _ _ _ _ _ => trivial }
  have hacc : ∀ v : ToolWorld H, True → Acc (Stalled T) v := fun v _ =>
    InvImage.accessible (fun u : ToolWorld H => u.env) (hT v.env)
  obtain ⟨⟨res, v⟩, h⟩ := loop_returns (writeFullStep_progress T) buf w hacc
  exact ⟨res, v, h, trivial⟩

theorem writeHexFrom_returns (hT : Unhung T) (tmp buf : List UInt8) (w : ToolWorld H) :
    Yields (writeHexFrom T tmp buf) w fun _ _ => True := by
  induction buf generalizing tmp w with
  | nil =>
    unfold writeHexFrom
    split
    · exact writeFull_returns hT tmp w
    · exact yields_pure trivial
  | cons b rest ih =>
    unfold writeHexFrom
    split
    · refine yields_bind ((writeFull_returns hT tmp w).mono fun res v _ => ?_)
      cases res with
      | ok _ => exact ih _ v
      | error err => exact yields_pure trivial
    · exact ih _ w

theorem writeBlock_returns (hT : Unhung T) (hex : Bool) (buf : List UInt8) (w : ToolWorld H) :
    Yields (writeBlock T hex buf) w fun _ _ => True := by
  cases hex with
  | true => exact writeHexFrom_returns hT [] buf w
  | false => exact writeFull_returns hT buf w

/-- A pass ends, and goes on only with what it was to produce. -/
theorem readStep_returns (hT : Unhung T) (a : Args) (p : Int64) (w : ToolWorld H) :
    Yields (readStep T a p) w fun y _ => ∀ p', y = .inl p' →
      (a.nTotal < 0 ∨ p < a.nTotal) ∧ p' = p + Int64.ofNat (wanted a p) := by
  unfold readStep
  refine yields_ask fun n _ => ?_
  split
  · exact yields_pure nofun
  split
  · exact yields_pure nofun
  rename_i hgo
  refine yields_ask fun r _ => ?_
  dsimp only
  split
  · refine yields_ask fun n _ => ?_
    split <;> exact yields_pure nofun
  refine yields_ask fun n _ => ?_
  split
  · exact yields_pure nofun
  refine yields_bind ((writeBlock_returns hT _ _ _).mono fun res v _ => ?_)
  cases res with
  | ok _ =>
    refine yields_pure fun p' hp' => ⟨not_not.mp hgo, ?_⟩
    cases hp'
    rfl
  | error err => cases err <;> exact yields_pure nofun

/-- The loop ends, since each pass that goes on brings the count nearer. -/
theorem loop_ends (hT : Unhung T) {k : Nat} (h0 : 0 ≤ p.toInt) (hp : p.toInt ≤ a.nTotal.toInt)
    (hk : (a.nTotal.toInt - p.toInt).toNat = k) (w : ToolWorld H) :
    Yields (loop (readStep T a) p) w fun _ _ => True := by
  induction k using Nat.strongRecOn generalizing p w with
  | _ k ih =>
    obtain ⟨y, v, hstep, hgo⟩ := readStep_returns hT a p w
    cases y with
    | inr r => exact ⟨r, v, loop_of_inr hstep, trivial⟩
    | inl p' =>
      -- there was more to produce, so that the sums of this pass are exact
      obtain ⟨hmore, rfl⟩ := hgo p' rfl
      have hlt := not_reached hmore (by omega)
      have he := exact_of_lt h0 hlt
      have hadd := he.add
      have hwant := he.want
      have hless : (a.nTotal.toInt - (p + Int64.ofNat (wanted a p)).toInt).toNat < k := by omega
      obtain ⟨r, u, hloop, _⟩ := ih _ hless (by omega) (by omega) rfl v
      exact ⟨r, u, (loop_of_inl hstep).trans hloop, trivial⟩

/-- A kernel that lets the tool come to its end: no write is interrupted for ever, and no second
signal ends the process before. -/
structure Lenient (K : ToolHost H) : Prop where
  unhung : Unhung K
  signals : ∀ e, Counted (K.answer .signalCount e).1

/-- The stream so far, and of the newline what got out. -/
def Begun (a : Args) (es : List ToolReply) : Prop :=
  ∃ out line, written es = out ++ line ∧ out <+: encode a.hex (generated es) ∧ line <+: [10]

/-- The newline comes after the stream, however much of it is written. -/
theorem Begun.newline {w u : ToolWorld H} {res : Except IoError Unit}
    (hw : written w.trace <+: encode a.hex (generated w.trace))
    (h : writeFull T [10] w = some (res, u)) : Begun a u.trace := by
  have hc : Copies (written w.trace ++ [10]) w w ([10] ++ []) := copies_start rfl
  have hleft := writeFull_leaves hc h
  obtain ⟨rest, hcopy⟩ : ∃ rest, Copies (written w.trace ++ [10]) w u rest := by
    cases res with
    | ok _ => exact ⟨_, hleft⟩
    | error err =>
      obtain ⟨_, _, hcopy⟩ := hleft
      exact ⟨_, hcopy⟩
  obtain ⟨line, hline⟩ := hcopy.grows
  have hgen : generated u.trace = generated w.trace := congrArg List.flatten hcopy.given
  refine ⟨written w.trace, line, hline.symm, hgen ▸ hw, rest, ?_⟩
  have hall := hcopy.left
  rw [← hline, List.append_assoc] at hall
  exact List.append_cancel_left hall

theorem emitStream_ends (hT : Unhung T) (hN : 0 ≤ a.nTotal.toInt) (e : H) :
    Yields (emitStream T a) ⟨e, []⟩ fun _ v => Begun a v.trace := by
  obtain ⟨⟨p, rv⟩, v, hloop, _⟩ := loop_ends (p := 0) hT le_rfl hN rfl ⟨e, []⟩
  have hend : Ended a p v.trace := thread_reads hN rfl (loop_thread hloop)
  obtain ⟨rest, hrest⟩ := hend.pending
  have hpre : written v.trace <+: encode a.hex (generated v.trace) := ⟨rest, hrest⟩
  refine yields_bind ⟨_, v, hloop, ?_⟩
  dsimp only
  split
  · obtain ⟨res, u, hline, _⟩ := writeFull_returns hT [10] v
    exact yields_bind ⟨res, u, hline, yields_pure (.newline hpre hline)⟩
  · exact yields_pure ⟨_, [], (List.append_nil _).symm, hpre, List.nil_prefix⟩

end Read

namespace Client

variable {P : Platform W} {cfg : Config} (hp : ∀ e, P.Patient e) (K : ToolHost H)
  {r : Running P cfg} {k : H} {sess : CkUlong}

/-- A module that does not come up stays down. -/
theorem linked_down (hdown : r.module.initialized = false) {code : CkUlong}
    {e : Running P cfg × H}
    (hans : (linked hp K).answer (.setup .cInitialize) (r, k) = (code, e)) (hcode : code ≠ ckrOk) :
    e.1.module.initialized = false := by
  obtain ⟨⟨⟨rv, m, c⟩, w⟩, hc⟩ := Option.ne_none_iff_exists'.mp (r.returns hp (.cInitialize none))
  obtain ⟨⟨_, _⟩, _, hinit, h⟩ := bind_eq_some.mp hc
  cases h
  obtain ⟨r', rfl, rfl, hans'⟩ := linked_cInitialize hp K k hinit
  rw [hans'] at hans
  cases hans
  rcases Module.cInitialize_spec hinit with ⟨_, hm, _⟩ | ⟨rfl, _⟩
  · rw [hm]
    exact hdown
  · exact absurd rfl hcode

/-- A failure after which the module is down. -/
theorem finalize_linked (failure : Failure) (w : SlotWorld (Running P cfg × H)) :
    Yields (do
      let _ ← ask (setup.host (linked hp K)) .cFinalize
      return (Except.error failure : Except Failure (CkUlong × CkUlong))) w fun res v =>
        ∀ failure, res = .error failure → v.env.1.module.initialized = false := by
  obtain ⟨e, es⟩ := w
  obtain ⟨code, e', hfinalize⟩ :
    ∃ code e', (linked hp K).answer (.setup .cFinalize) e = (code, e') := ⟨_, _, rfl⟩
  have hfinal := linked_cFinalize hp K e
  rw [hfinalize] at hfinal
  exact yields_ask_of hfinalize (yields_pure fun _ _ => hfinal)

theorem openSlot_ends (hdown : r.module.initialized = false) :
    Yields (Read.openSlot (setup.host (linked hp K))) ⟨(r, k), []⟩ fun res v =>
      ∀ failure, res = .error failure → v.env.1.module.initialized = false := by
  unfold Read.openSlot openFirst
  obtain ⟨code, e, hinit⟩ :
    ∃ code e, (linked hp K).answer (.setup .cInitialize) (r, k) = (code, e) := ⟨_, _, rfl⟩
  refine yields_ask_of hinit ?_
  split
  · rename_i hcode
    exact yields_pure fun _ _ => linked_down hp K hdown hinit hcode
  refine yields_ask fun ⟨rv, _, nslots⟩ _ => ?_
  dsimp only
  split
  · exact finalize_linked hp K _ _
  refine yields_ask fun ⟨rv, written, _⟩ _ => ?_
  dsimp only
  split
  · exact finalize_linked hp K _ _
  refine yields_ask fun ⟨rv, sess⟩ _ => ?_
  dsimp only
  split
  · exact finalize_linked hp K _ _
  · exact yields_pure nofun

end Client
end P11Rand.Tools
