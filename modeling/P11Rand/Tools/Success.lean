import P11Rand.Tools.Stdout
import P11Rand.Tools.Stream

/-! When `p11rand-read` reports success, and what file descriptor 1 has then accepted. -/
namespace P11Rand.Tools.Read

open Effect Run Stdout

variable {H α : Type}

/-- The tool's requests, with its output through the line writer. A flush that is interrupted for
ever does not return, and neither then does `write_full` with a write that is. -/
def lineWriter (P : ToolHost H) : ToolHost (Console H) where
  answer
    | .writeOut buf, c =>
      match lineWrite P buf c with
      | some (.ok n, c') => (.ok ⟨min n buf.length, Nat.lt_succ_of_le (Nat.min_le_right _ _)⟩, c')
      | some (.error err, c') => (.error err, c')
      | none => (.error .interrupted, c)
    | q, c =>
      let reply := P.answer q c.below.env
      (reply.1, { c with below := ⟨reply.2, c.below.trace ++ [⟨q, reply.1⟩]⟩ })

def console (x : Run (Console H) α) : Run (ToolWorld (Console H)) α := fun u =>
  (x u.env).map fun p => (p.1, { u with env := p.2 })

/-- `main` from its loop on, to the flush at exit, of which an error is ignored. -/
def main (P : ToolHost H) (a : Args) : Run (ToolWorld (Console H)) UInt8 := do
  let (produced, exitRv) ← loop (readStep (lineWriter P) a) 0
  if a.hex ∧ produced > 0 then
    let _ ← console (lineWriteAll P [newline])
  let _ ← console (flushBuf P)
  return exitRv

/-- The tool as it starts: nothing asked yet, nothing buffered. -/
def startup (env : H) : ToolWorld (Console H) := ⟨⟨⟨env, []⟩, []⟩, []⟩

def Signalled : ToolReply → Prop
  | ⟨.signalCount, n⟩ => n ≠ 0
  | _ => False

/-- The whole output is out. -/
def Delivered (a : Args) (es : List ToolReply) : Prop :=
  written es = encode a.hex (generated es) ++ (if a.hex then [newline] else []) ∧
    (generated es).length = a.nTotal.toInt

/-- Every write that fails has the newline at its end, meets an open descriptor, and another write
comes after it. -/
def Recovered (es : List ToolReply) : Prop := ∀ pre e post, es = pre ++ e :: post → Fails e →
  ¬ Closed e ∧ (offered e).getLast? = some newline ∧ ∃ e' ∈ post, IsWrite e'

section Asks

variable {Q : ToolHost H} {R : ToolWorld H → ToolWorld H → Prop} [IsPreorder (ToolWorld H) R]

theorem writeFull_within (hask : ∀ q, Within R (ask Q q)) (buf : List UInt8) :
    Within R (writeFull Q buf) := by
  intro w res w' h
  refine (loop_thread (R := R) h).within fun buf => ?_
  unfold writeFullStep
  split
  · exact within_pure _
  refine within_bind (hask _) fun ans => ?_
  split <;> exact within_pure _

theorem writeHexFrom_within (hask : ∀ q, Within R (ask Q q)) (tmp buf : List UInt8) :
    Within R (writeHexFrom Q tmp buf) := by
  induction buf generalizing tmp with
  | nil =>
    unfold writeHexFrom
    split
    · exact writeFull_within hask tmp
    · exact within_pure _
  | cons b rest ih =>
    unfold writeHexFrom
    split
    · refine within_bind (writeFull_within hask tmp) fun res => ?_
      split
      · exact within_pure _
      · exact ih _
    · exact ih _

theorem writeBlock_within (hask : ∀ q, Within R (ask Q q)) (hex : Bool) (buf : List UInt8) :
    Within R (writeBlock Q hex buf) := by
  cases hex with
  | true => exact writeHexFrom_within hask [] buf
  | false => exact writeFull_within hask buf

/-- What every request keeps, a pass through the loop keeps. -/
theorem readStep_within (hask : ∀ q, Within R (ask Q q)) (a : Args) (p : Int64) :
    Within R (readStep Q a p) := by
  refine within_bind (hask _) fun n => ?_
  split
  · exact within_pure _
  split
  · exact within_pure _
  refine within_bind (hask _) fun answer => ?_
  dsimp only
  split
  · refine within_bind (hask _) fun n => ?_
    split <;> exact within_pure _
  refine within_bind (hask _) fun n => ?_
  split
  · exact within_pure _
  refine within_bind (writeBlock_within hask _ _) fun res => ?_
  split <;> exact within_pure _

end Asks

section Clean

variable {Q : ToolHost H} {w w' : ToolWorld H} {a : Args} {p : Int64} {buf tmp : List UInt8}
  {res : Except IoError Unit}

def Clean (es : List ToolReply) : Prop := ∀ e ∈ es, ¬ Fails e

/-- What a write of the tool leaves of a clean record. -/
def Spared : Except IoError Unit → List ToolReply → Prop
  | .ok _, es => Clean es
  | .error .brokenPipe, es => ∃ e ∈ es, Piped e
  | .error _, _ => True

theorem Clean.snoc {es : List ToolReply} {e : ToolReply} (h : Clean es) (he : ¬ Fails e) :
    Clean (es ++ [e]) := List.forall_mem_append.mpr ⟨h, by simpa using he⟩

theorem Clean.signal {n : Int32} (h : Clean w.trace)
    (hq : ask Q .signalCount w = some (n, w')) : Clean w'.trace := by
  rw [ask_trace hq]
  exact h.snoc id

theorem writeFullStep_spared {y : List UInt8 ⊕ Except IoError Unit} (hc : Clean w.trace)
    (h : writeFullStep Q buf w = some (y, w')) :
    Sum.elim (fun _ => Clean w'.trace) (fun res => Spared res w'.trace) y := by
  unfold writeFullStep at h
  split at h
  · cases h
    exact hc
  obtain ⟨ans, v, hq, h⟩ := bind_eq_some.mp h
  have hv := ask_trace hq
  cases ans with
  | ok n =>
    cases h
    split
    · trivial
    · rename_i hnz
      rw [hv]
      exact hc.snoc hnz
  | error err =>
    cases err with
    | interrupted =>
      cases h
      rw [hv]
      exact hc.snoc fun h => h rfl
    | brokenPipe =>
      cases h
      rw [hv]
      exact ⟨_, List.mem_append_right _ (List.mem_singleton.mpr rfl), rfl⟩
    | _ =>
      cases h
      trivial

theorem writeFull_spared (hc : Clean w.trace) (h : writeFull Q buf w = some (res, w')) :
    Spared res w'.trace := by
  refine loop_keeps (fun y (v : ToolWorld H) => Sum.elim (fun _ => Clean v.trace)
    (fun res => Spared res v.trace) y) h ?_ fun buf v y v' hI hs => writeFullStep_spared hI hs
  exact hc

theorem writeHexFrom_spared (hc : Clean w.trace) (h : writeHexFrom Q tmp buf w = some (res, w')) :
    Spared res w'.trace := by
  induction buf generalizing tmp w with
  | nil =>
    unfold writeHexFrom at h
    split at h
    · exact writeFull_spared hc h
    · cases h
      exact hc
  | cons b rest ih =>
    unfold writeHexFrom at h
    split at h
    · obtain ⟨r, v, hw, h⟩ := bind_eq_some.mp h
      have hr := writeFull_spared hc hw
      cases r with
      | ok _ => exact ih hr h
      | error err =>
        cases h
        exact hr
    · exact ih hc h

theorem writeBlock_spared {hex : Bool} (hc : Clean w.trace)
    (h : writeBlock Q hex buf w = some (res, w')) : Spared res w'.trace := by
  cases hex with
  | true => exact writeHexFrom_spared hc h
  | false => exact writeFull_spared hc h

/-- How the loop comes to report success. -/
def Succeeds (a : Args) (p : Int64) (es : List ToolReply) : Prop :=
  (Streamed a p es ∧ p = a.nTotal ∧ Clean es) ∨ (∃ e ∈ es, Signalled e) ∨ ∃ e ∈ es, Piped e

def Runs (a : Args) : Int64 ⊕ Int64 × UInt8 → List ToolReply → Prop
  | .inl p, es => Streamed a p es ∧ Clean es
  | .inr (p, rv), es => rv = 0 → Succeeds a p es

theorem ne_zero_of_pos {n : Int32} (h : n > 0) : n ≠ 0 := by
  rintro rfl
  exact absurd h (by decide)

theorem signalled_of_ask {n : Int32} (hq : ask Q .signalCount w = some (n, w')) (hn : n ≠ 0) :
    ∃ e ∈ w'.trace, Signalled e := by
  rw [ask_trace hq]
  exact ⟨⟨.signalCount, n⟩, List.mem_append_right _ (List.mem_singleton.mpr rfl), hn⟩

theorem readStep_runs {y : Int64 ⊕ Int64 × UInt8} (hs : Runs a (.inl p) w.trace)
    (h : readStep Q a p w = some (y, w')) : Runs a y w'.trace := by
  obtain ⟨hs, hc⟩ := hs
  have hreads := readStep_reads hs h
  obtain ⟨n, v, hq, h⟩ := bind_eq_some.mp h
  replace hs := hs.signal hq
  replace hc := hc.signal hq
  split at h
  · rename_i hn
    cases h
    exact fun _ => .inr (.inl (signalled_of_ask hq hn))
  split at h
  · rename_i hend
    cases h
    refine fun _ => .inl ⟨hs, ?_, hc⟩
    have hlt := mt Int64.lt_iff_toInt_lt.mpr (not_or.mp hend).2
    exact Int64.toInt_inj.mp (le_antisymm hs.le (not_lt.mp hlt))
  obtain ⟨⟨rv, b⟩, u, hq, h⟩ := bind_eq_some.mp h
  replace hc : Clean u.trace := by
    rw [ask_trace hq]
    exact hc.snoc id
  dsimp only at h
  split at h
  · obtain ⟨n, u', hq', h⟩ := bind_eq_some.mp h
    split at h
    · rename_i hn
      cases h
      exact fun _ => .inr (.inl (signalled_of_ask hq' (ne_zero_of_pos hn)))
    · cases h
      exact nofun
  obtain ⟨n, u', hq', h⟩ := bind_eq_some.mp h
  replace hc := hc.signal hq'
  split at h
  · rename_i hn
    cases h
    exact fun _ => .inr (.inl (signalled_of_ask hq' (ne_zero_of_pos hn)))
  obtain ⟨res, u'', hwrite, h⟩ := bind_eq_some.mp h
  have hspared := writeBlock_spared hc hwrite
  cases res with
  | ok _ =>
    cases h
    exact ⟨hreads, hspared⟩
  | error err =>
    cases err with
    | brokenPipe =>
      cases h
      exact fun _ => .inr (.inr hspared)
    | _ =>
      cases h
      exact nofun

theorem loop_runs {rv : UInt8} (hN : 0 ≤ a.nTotal.toInt) (hstart : w.trace = [])
    (h : loop (readStep Q a) 0 w = some ((p, rv), w')) : rv = 0 → Succeeds a p w'.trace := by
  refine loop_keeps (fun y (v : ToolWorld H) => Runs a y v.trace) h ?_
    fun p v y v' hs hstep => readStep_runs hs hstep
  rw [hstart]
  exact ⟨streamed_start hN, by simp [Clean]⟩

end Clean

section Console

variable {P : ToolHost H} {u u' : ToolWorld (Console H)} {e : ToolReply} {es : List ToolReply}

/-- The tool's own record of its output, against that of the descriptor below the buffer. -/
structure Faithful (u : ToolWorld (Console H)) : Prop where
  carried : u.env.below.trace.flatMap taken ++ u.env.buf = written u.trace
  given : blocks u.env.below.trace = blocks u.trace
  nonempty : ∀ e ∈ u.env.below.trace, IsWrite e → offered e ≠ []
  sound : (∀ e ∈ u.trace, ¬ Fails e) → Good u.env.below.trace
  piped : (∃ e ∈ u.trace, Piped e) → ∃ e ∈ u.env.below.trace, Piped e
  signalled : (∃ e ∈ u.trace, Signalled e) → ∃ e ∈ u.env.below.trace, Signalled e

theorem faithful_startup (env : H) : Faithful (startup env) :=
  ⟨rfl, rfl, by simp [startup], fun _ => by simp [startup, Good], by simp [startup],
    by simp [startup]⟩

theorem not_write (h : ¬ IsWrite e) : taken e = [] ∧ accepted e = [] ∧ ¬ Fails e := by
  obtain ⟨q, ans⟩ := e
  cases q with
  | writeOut buf => exact absurd trivial h
  | _ => exact ⟨rfl, rfl, id⟩

theorem mem_snoc_iff {p : ToolReply → Prop} :
    (∃ x ∈ es ++ [e], p x) ↔ (∃ x ∈ es, p x) ∨ p e := by
  simp [or_and_right, exists_or]

/-- A request that has nothing to do with the output is passed on. -/
theorem Faithful.forward (h : Faithful u) (he : ¬ IsWrite e) (htrace : u'.trace = u.trace ++ [e])
    (hbelow : u'.env.below.trace = u.env.below.trace ++ [e]) (hbuf : u'.env.buf = u.env.buf) :
    Faithful u' := by
  obtain ⟨htaken, hacc, hfails⟩ := not_write he
  refine ⟨?_, ?_, ?_, ?_, ?_, ?_⟩
  · rw [hbelow, htrace, hbuf, written_snoc, hacc, List.flatMap_append, List.flatMap_singleton,
      htaken, List.append_nil, List.append_nil]
    exact h.carried
  · rw [hbelow, htrace, blocks_snoc, blocks_snoc, h.given]
  · rw [hbelow]
    exact List.forall_mem_append.mpr
      ⟨h.nonempty, List.forall_mem_singleton.mpr fun hw => absurd hw he⟩
  · rw [hbelow, htrace]
    intro hclean
    have hgood := h.sound (List.forall_mem_append.mp hclean).1
    exact good_append.mpr ⟨hgood, List.forall_mem_singleton.mpr fun hrep => hfails hrep.1⟩
  · rw [hbelow, htrace, mem_snoc_iff, mem_snoc_iff]
    exact Or.imp_left h.piped
  · rw [hbelow, htrace, mem_snoc_iff, mem_snoc_iff]
    exact Or.imp_left h.signalled

theorem blocks_writes {fs : List ToolReply} (h : ∀ e ∈ fs, IsWrite e ∧ offered e ≠ []) :
    blocks fs = [] := by
  refine List.filterMap_eq_nil_iff.mpr fun e he => ?_
  obtain ⟨q, ans⟩ := e
  cases q with
  | writeOut buf => rfl
  | _ => exact (h _ he).1.elim

/-- What the buffered output took over counts as written. -/
theorem Faithful.serve {buf : List UInt8} {fs : List ToolReply}
    {ans : Except IoError (Fin (buf.length + 1))} (h : Faithful u)
    (hs : Takes buf u.env u'.env fs (ans.map Fin.val))
    (htrace : u'.trace = u.trace ++ [⟨.writeOut buf, ans⟩]) : Faithful u' := by
  obtain ⟨hw, hgood, hpipe⟩ : Wrote u.env u'.env fs (accepted ⟨.writeOut buf, ans⟩) ∧
      (¬ Fails ⟨.writeOut buf, ans⟩ → Good fs) ∧
      (Piped ⟨.writeOut buf, ans⟩ → ∃ e ∈ fs, Piped e) := by
    cases ans with
    | ok n => exact ⟨hs.2.1, fun hn => hs.2.2 (Nat.pos_of_ne_zero hn), nofun⟩
    | error err => exact ⟨hs.1, fun hn => hs.2.1 (not_not.mp hn), hs.2.2⟩
  have hbelow := hw.trace
  refine ⟨?_, ?_, ?_, ?_, ?_, ?_⟩
  · rw [hbelow, htrace, written_snoc, List.flatMap_append, List.append_assoc, hw.drained.carried,
      ← List.append_assoc, h.carried]
  · rw [hbelow, htrace, blocks_snoc, blocks, List.filterMap_append,
      ← blocks, ← blocks, blocks_writes hw.drained.writes, h.given]
    rfl
  · rw [hbelow]
    exact List.forall_mem_append.mpr ⟨h.nonempty, fun e he _ => (hw.drained.writes e he).2⟩
  · rw [hbelow, htrace]
    intro hclean
    obtain ⟨hes, he⟩ := List.forall_mem_append.mp hclean
    exact good_append.mpr ⟨h.sound hes, hgood (he _ (List.mem_singleton.mpr rfl))⟩
  · rw [hbelow, htrace, mem_snoc_iff]
    rintro (hes | he)
    · obtain ⟨x, hx, hp⟩ := h.piped hes
      exact ⟨x, List.mem_append_left _ hx, hp⟩
    · obtain ⟨x, hx, hp⟩ := hpipe he
      exact ⟨x, List.mem_append_right _ hx, hp⟩
  · rw [hbelow, htrace, mem_snoc_iff]
    rintro (hes | he)
    · obtain ⟨x, hx, hp⟩ := h.signalled hes
      exact ⟨x, List.mem_append_left _ hx, hp⟩
    · exact he.elim

theorem ask_faithful (q : ToolRequest) :
    Within (fun u u' => Faithful u → Faithful u') (ask (lineWriter P) q) := by
  intro u ans u' hask h
  cases q with
  | writeOut buf =>
    obtain ⟨fs, hs, htrace⟩ : ∃ fs, Takes buf u.env u'.env fs (ans.map Fin.val) ∧
        u'.trace = u.trace ++ [⟨.writeOut buf, ans⟩] := by
      have htrace := ask_trace hask
      rw [ask_apply] at hask
      simp only [lineWriter] at hask
      cases hline : lineWrite P buf u.env with
      | none =>
        rw [hline] at hask
        cases hask
        exact ⟨[], ⟨wrote_refl, fun _ => by simp [Good], nofun⟩, htrace⟩
      | some r =>
        obtain ⟨res, c⟩ := r
        obtain ⟨fs, hs⟩ := lineWrite_takes hline
        rw [hline] at hask
        cases res with
        | ok n =>
          have hn := hs.1
          cases hask
          refine ⟨fs, ?_, htrace⟩
          simpa [Except.map, min_eq_left hn] using hs
        | error err =>
          cases hask
          exact ⟨fs, hs, htrace⟩
    exact h.serve hs htrace
  | _ =>
    cases hask
    exact h.forward id rfl rfl rfl

end Console

section Descriptor

variable {P : ToolHost H} {c c' : Console H} {e : ToolReply} {es fs gs : List ToolReply}
  {full rest : List UInt8} {res : Except IoError Unit}

/-- Every failure that std passed on was made good. -/
def Retried (es : List ToolReply) : Prop := ∀ pre e post, es = pre ++ e :: post → Reported e →
  (offered e).getLast? = some newline ∧ ∃ e' ∈ post, IsWrite e'

theorem taken_of_not_closed (h : ¬ Closed e) : taken e = accepted e := by
  obtain ⟨q, ans⟩ := e
  cases q with
  | writeOut buf =>
    cases ans with
    | ok n => rfl
    | error err => exact if_neg h
  | _ => rfl

theorem taken_of_closed (h : Closed e) :
    taken e = offered e ∧ accepted e = [] ∧ IsWrite e ∧ Fails e := by
  obtain ⟨q, ans⟩ := e
  cases q with
  | writeOut buf =>
    cases ans with
    | ok n => exact h.elim
    | error err =>
      obtain rfl : err = .other ebadf := h
      exact ⟨by simp [taken, offered], rfl, trivial, nofun⟩
  | _ => exact h.elim

theorem written_eq_taken (h : ∀ e ∈ es, ¬ Closed e) : written es = es.flatMap taken := by
  induction es with
  | nil => rfl
  | cons e es ih =>
    obtain ⟨he, hes⟩ := List.forall_mem_cons.mp h
    rw [List.flatMap_cons, taken_of_not_closed he, ← ih hes, written, written, List.flatMap_cons]

theorem length_written_le (es : List ToolReply) :
    (written es).length ≤ (es.flatMap taken).length := by
  induction es with
  | nil => exact le_rfl
  | cons e es ih =>
    have he : (accepted e).length ≤ (taken e).length := by
      by_cases hc : Closed e
      · rw [(taken_of_closed hc).2.1]
        exact Nat.zero_le _
      · rw [taken_of_not_closed hc]
    rw [written] at ih ⊢
    rw [List.flatMap_cons, List.flatMap_cons, List.length_append, List.length_append]
    omega

/-- What went to a descriptor that is not open is missing. -/
theorem length_written_lt (hne : ∀ e ∈ es, IsWrite e → offered e ≠ []) (he : e ∈ es)
    (hc : Closed e) : (written es).length < (es.flatMap taken).length := by
  obtain ⟨pre, post, rfl⟩ := List.append_of_mem he
  obtain ⟨htaken, hacc, hwrite, _⟩ := taken_of_closed hc
  have hpos := List.length_pos_iff.mpr (hne e he hwrite)
  have hpre := length_written_le pre
  have hpost := length_written_le post
  rw [written] at hpre hpost ⊢
  rw [List.flatMap_append, List.flatMap_append, List.flatMap_cons, List.flatMap_cons, htaken, hacc]
  simp only [List.length_append, List.length_nil]
  omega

/-- All of the output went to the descriptor: it is out unless that was not open. -/
theorem recovered_iff (hne : ∀ e ∈ es, IsWrite e → offered e ≠ []) (hfull : es.flatMap taken = full)
    (hretried : Retried es) : written es = full ↔ Recovered es := by
  constructor
  · rintro hw pre e post heq hfails
    have hclosed : ¬ Closed e := by
      intro hc
      have hlt := length_written_lt hne (by simp [heq]) hc
      rw [hw, hfull] at hlt
      exact lt_irrefl _ hlt
    exact ⟨hclosed, hretried pre e post heq ⟨hfails, hclosed⟩⟩
  · intro hrec
    rw [← hfull]
    refine written_eq_taken fun e he hc => ?_
    obtain ⟨pre, post, heq⟩ := List.append_of_mem he
    exact (hrec pre e post heq (taken_of_closed hc).2.2.2).1 hc

/-- Some of the output never went to the descriptor, and the last failure was not made good. -/
theorem not_recovered {pre post : List ToolReply} (hlt : (es.flatMap taken).length < full.length)
    (heq : es = pre ++ e :: post) (he : Reported e)
    (hlate : (offered e).getLast? = some newline → ∀ e' ∈ post, ¬ IsWrite e') :
    written es = full ↔ Recovered es := by
  refine iff_of_false ?_ ?_
  · rintro rfl
    exact absurd (length_written_le es) (not_le.mpr hlt)
  · intro hrec
    obtain ⟨_, hlast, e', he', hwrite⟩ := hrec pre e post heq he.1
    exact hlate hlast e' he' hwrite

theorem retried_of_good (h : Good es) : Retried es := by
  rintro pre e post rfl he
  exact absurd he (h e (by simp))

/-- A single failure, with the newline and before another write. -/
theorem retried_of_single {pre post : List ToolReply} (heq : es = pre ++ e :: post)
    (hpre : Good pre) (hpost : Good post) (hlast : (offered e).getLast? = some newline)
    (hlater : ∃ e' ∈ post, IsWrite e') : Retried es := by
  intro pre' e' post' heq' he'
  have hsplit : pre' ++ e' :: post' = pre ++ e :: post := heq'.symm.trans heq
  rcases List.append_eq_append_iff.mp hsplit with ⟨as, rfl, htail⟩ | ⟨as, rfl, htail⟩
  · cases as with
    | nil =>
      obtain ⟨rfl, rfl⟩ := List.cons_eq_cons.mp htail
      exact ⟨hlast, hlater⟩
    | cons x as =>
      obtain ⟨rfl, _⟩ := List.cons_eq_cons.mp htail
      exact absurd he' (hpre e' (by simp))
  · cases as with
    | nil =>
      obtain ⟨rfl, rfl⟩ := List.cons_eq_cons.mp htail
      exact ⟨hlast, hlater⟩
    | cons x as =>
      obtain ⟨rfl, rfl⟩ := List.cons_eq_cons.mp htail
      exact absurd he' (hpost e' (by simp))

/-- The flush at exit, from a buffer that makes up what is missing. -/
theorem exit_kept (hfull : c.below.trace.flatMap taken ++ c.buf = full)
    (hne : ∀ e ∈ c.below.trace, IsWrite e → offered e ≠ [])
    (hstate : Good c.below.trace ∨
      (∃ err, Stopped err c.buf c.below.trace) ∧ c.buf.getLast? = some newline)
    (h : flushBuf P c = some (res, c')) :
    written c'.below.trace = full ↔ Recovered c'.below.trace := by
  obtain ⟨gs, hw, hres⟩ := flushBuf_flushes h
  have htrace := hw.trace
  have hcarried : gs.flatMap taken ++ c'.buf = c.buf := by simpa using hw.drained.carried
  cases res with
  | ok _ =>
    obtain ⟨hempty, hgood⟩ := hres
    rw [hempty, List.append_nil] at hcarried
    rw [htrace]
    refine recovered_iff ?_ ?_ ?_
    · exact List.forall_mem_append.mpr ⟨hne, fun e he _ => (hw.drained.writes e he).2⟩
    · rw [List.flatMap_append, hcarried, hfull]
    · rcases hstate with hearly | ⟨⟨err, hstop⟩, hlast⟩
      · exact retried_of_good (good_append.mpr ⟨hearly, hgood⟩)
      · obtain ⟨pre, e, heq, hpre, he, hoff⟩ := hstop.last
        have hsome : gs ≠ [] := by
          rintro rfl
          exact hstop.left hcarried.symm
        obtain ⟨g, gs, rfl⟩ := List.exists_cons_of_ne_nil hsome
        have hsplit : c.below.trace ++ g :: gs = pre ++ e :: g :: gs := by
          rw [heq, List.append_assoc]
          rfl
        exact retried_of_single hsplit hpre hgood (hoff ▸ hlast)
          ⟨g, by simp, (hw.drained.writes g (by simp)).1⟩
  | error err =>
    obtain ⟨_, hleft, ⟨pre, e, rfl, _, he, hoff⟩, _⟩ := hres
    have hpos := List.length_pos_iff.mpr hleft
    have hlast : c'.below.trace = (c.below.trace ++ pre) ++ e :: [] := by
      rw [htrace, List.append_assoc]
    refine not_recovered ?_ hlast he (by simp)
    rw [htrace, ← hfull, ← hcarried, List.flatMap_append]
    simp only [List.length_append]
    omega

theorem flushBuf_nil (hempty : c.buf = []) (h : flushBuf P c = some (res, c')) : c' = c := by
  have hstep : flushStep P () c = some (.inr (.ok ()), c) := by
    refine (bind_of_eq (get_apply c)).trans ?_
    rw [if_pos (by simp [hempty])]
    rfl
  rw [flushBuf, loop_of_inr hstep] at h
  cases h
  rfl

/-- The flush at exit, when the newline is lost. -/
theorem exit_lost {err : IoError}
    (hlt : (c.below.trace.flatMap taken ++ c.buf).length < full.length)
    (hstop : Stopped err rest c.below.trace)
    (hstate : c.buf = rest ∧ newline ∉ rest ∨ c.buf = [])
    (h : flushBuf P c = some (res, c')) :
    written c'.below.trace = full ↔ Recovered c'.below.trace := by
  obtain ⟨pre, e, heq, _, he, hoff⟩ := hstop.last
  rcases hstate with ⟨hbuf, hdigits⟩ | hempty
  · obtain ⟨gs, hw, _⟩ := flushBuf_flushes h
    have hcarried : gs.flatMap taken ++ c'.buf = c.buf := by simpa using hw.drained.carried
    have hsplit : c'.below.trace = pre ++ e :: gs := by
      rw [hw.trace, heq, List.append_assoc]
      rfl
    refine not_recovered ?_ hsplit he fun hlast => ?_
    · rw [hw.trace, List.flatMap_append]
      rw [← hcarried] at hlt
      simp only [List.length_append] at hlt ⊢
      omega
    · rw [hoff] at hlast
      exact absurd (List.mem_of_getLast? hlast) hdigits
  · rw [flushBuf_nil hempty h]
    rw [hempty, List.append_nil] at hlt
    exact not_recovered hlt heq he (by simp)

theorem hexDigit_ne_newline {d : Nat} (h : d < 16) : hexDigit d ≠ newline := by
  interval_cases d <;> decide

theorem newline_not_mem_hex (bytes : List UInt8) : newline ∉ encode true bytes := by
  intro hmem
  obtain ⟨b, _, hb⟩ := List.mem_flatMap.mp hmem
  have hlt := b.toNat_lt
  rcases List.mem_pair.mp hb with h | h
  · exact hexDigit_ne_newline (by omega) h.symm
  · exact hexDigit_ne_newline (by omega) h.symm

end Descriptor

section Main

variable {P : ToolHost H} {u u' : ToolWorld (Console H)} {a : Args} {rv : UInt8}

theorem console_eq_some {x : Run (Console H) α} {b : α} : console x u = some (b, u') ↔
    ∃ c, x u.env = some (b, c) ∧ u' = { u with env := c } := by
  simp [console, eq_comm]

/-- The loop, the newline, the flush at exit. -/
theorem main_cases (h : main P a u = some (rv, u')) : ∃ p v c res,
    loop (readStep (lineWriter P) a) 0 u = some ((p, rv), v) ∧
      flushBuf P c = some (res, u'.env) ∧
      ((a.hex = true ∧ 0 < p ∧ ∃ r, lineWriteAll P [newline] v.env = some (r, c)) ∨
        ¬ (a.hex = true ∧ 0 < p) ∧ c = v.env) := by
  obtain ⟨⟨p, code⟩, v, hloop, h⟩ := bind_eq_some.mp h
  dsimp only at h
  split at h
  · rename_i hhex
    obtain ⟨r, v', hnewline, h⟩ := bind_eq_some.mp h
    obtain ⟨c, hline, rfl⟩ := console_eq_some.mp hnewline
    obtain ⟨res, v'', hexit, h⟩ := bind_eq_some.mp h
    obtain ⟨c', hflush, rfl⟩ := console_eq_some.mp hexit
    cases h
    exact ⟨p, v, c, res, hloop, hflush, .inl ⟨hhex.1, hhex.2, r, hline⟩⟩
  · rename_i hhex
    obtain ⟨res, v'', hexit, h⟩ := bind_eq_some.mp h
    obtain ⟨c', hflush, rfl⟩ := console_eq_some.mp hexit
    cases h
    exact ⟨p, v, v.env, res, hloop, hflush, .inr ⟨hhex, rfl⟩⟩

theorem loop_faithful {p : Int64} (hu : Faithful u)
    (h : loop (readStep (lineWriter P) a) 0 u = some ((p, rv), u')) : Faithful u' := by
  have : IsPreorder (ToolWorld (Console H)) fun u u' => Faithful u → Faithful u' :=
    { refl := fun _ => id, trans := fun _ _ _ h h' => h' ∘ h }
  exact (loop_thread (R := fun u u' => Faithful u → Faithful u') h).within
    (readStep_within ask_faithful a) hu

/-- What is in the buffer, and what the descriptor has been given, once all was produced. -/
structure Produced (a : Args) (c : Console H) : Prop where
  carried : c.below.trace.flatMap taken ++ c.buf = encode a.hex (generated c.below.trace)
  length : (generated c.below.trace).length = a.nTotal.toInt
  nonempty : ∀ e ∈ c.below.trace, IsWrite e → offered e ≠ []
  good : Good c.below.trace

theorem produced_of_succeeds {p : Int64} (hu : Faithful u) (hs : Succeeds a p u.trace)
    (hsignal : ∀ e ∈ u.env.below.trace, ¬ Signalled e)
    (hpipe : ∀ e ∈ u.env.below.trace, ¬ Piped e) : p = a.nTotal ∧ Produced a u.env := by
  rcases hs with ⟨hs, rfl, hclean⟩ | hs | hs
  · have hgen : generated u.env.below.trace = generated u.trace := congrArg List.flatten hu.given
    have hpending := hs.pending
    rw [Pending, List.append_nil] at hpending
    refine ⟨rfl, ?_, ?_, hu.nonempty, hu.sound hclean⟩
    · rw [hu.carried, hgen, hpending]
    · rw [hgen]
      exact hs.length
  · obtain ⟨e, he, h⟩ := hu.signalled hs
    exact absurd h (hsignal e he)
  · obtain ⟨e, he, h⟩ := hu.piped hs
    exact absurd h (hpipe e he)

/-- All that p11rand-read is to put out, given what the module made. -/
def output (a : Args) (bytes : List UInt8) : List UInt8 :=
  encode a.hex bytes ++ if a.hex then [newline] else []

theorem generated_append {es fs : List ToolReply} (h : ∀ e ∈ fs, IsWrite e ∧ offered e ≠ []) :
    generated (es ++ fs) = generated es := by
  rw [generated, blocks, List.filterMap_append, ← blocks, ← blocks, blocks_writes h,
    List.append_nil, generated]

/-- The exit, once the newline was written or kept in the buffer. -/
theorem delivered_of_kept {c c' : Console H} {fs : List ToolReply} {res : Except IoError Unit}
    (hprod : Produced a c) (hhex : a.hex = true) (hkept : NewlineKept c c' fs)
    (hflush : flushBuf P c' = some (res, u.env)) :
    written u.env.below.trace = output a (generated c.below.trace) ↔
      Recovered u.env.below.trace := by
  obtain ⟨hw, hstate⟩ := hkept
  refine exit_kept ?_ ?_ ?_ hflush
  · rw [hw.trace, List.flatMap_append, List.append_assoc, hw.drained.carried, ← List.append_assoc,
      hprod.carried, output, if_pos hhex]
  · rw [hw.trace]
    exact List.forall_mem_append.mpr ⟨hprod.nonempty, fun e he _ => (hw.drained.writes e he).2⟩
  · rw [hw.trace]
    rcases hstate with hgood | ⟨err, hstop⟩
    · exact .inl (good_append.mpr ⟨hprod.good, hgood⟩)
    · refine .inr ⟨⟨err, hstop.after hprod.good⟩, ?_⟩
      have hlast := congrArg List.getLast? hw.drained.carried
      rwa [List.getLast?_append_of_ne_nil _ hstop.left, List.getLast?_concat] at hlast

/-- The exit, once the newline was lost. -/
theorem delivered_of_lost {c c' : Console H} {fs : List ToolReply} {res : Except IoError Unit}
    (hprod : Produced a c) (hhex : a.hex = true) (hlost : NewlineLost c c' fs)
    (hflush : flushBuf P c' = some (res, u.env)) :
    written u.env.below.trace = output a (generated c.below.trace) ↔
      Recovered u.env.below.trace := by
  obtain ⟨err, rest, hstop, hw, hstate⟩ := hlost
  have hcarried := hw.drained.carried
  rw [List.append_nil] at hcarried
  have hall : c'.below.trace.flatMap taken ++ c'.buf = encode a.hex (generated c.below.trace) := by
    rw [hw.trace, List.flatMap_append, List.append_assoc, hcarried, hprod.carried]
  have hstop' := hstop.after hprod.good
  rw [← hw.trace] at hstop'
  refine exit_lost ?_ hstop' ?_ hflush
  · rw [hall, output, if_pos hhex, List.length_append, List.length_singleton]
    exact Nat.lt_succ_self _
  · refine hstate.imp_left fun hbuf => ⟨hbuf, fun hmem => ?_⟩
    refine newline_not_mem_hex (generated c.below.trace) ?_
    rw [← hhex, ← hall, hbuf]
    exact List.mem_append_right _ hmem

/-- p11rand-read reports success, with no signal and no broken pipe: the whole output is out exactly
if every write to the descriptor that fails (an interrupted one is just made again) meets an open
descriptor, ends in the newline and is followed by another write. -/
theorem delivered_iff {env : H} (hN : 1 ≤ a.nTotal.toInt)
    (hrun : main P a (startup env) = some (0, u))
    (hsignal : ∀ e ∈ u.env.below.trace, ¬ Signalled e)
    (hpipe : ∀ e ∈ u.env.below.trace, ¬ Piped e) :
    Delivered a u.env.below.trace ↔ Recovered u.env.below.trace := by
  obtain ⟨p, v, c, res, hloop, hflush, hnewline⟩ := main_cases hrun
  obtain ⟨gs, hexit, _⟩ := flushBuf_flushes hflush
  have hv : Faithful v := loop_faithful (faithful_startup env) hloop
  have hruns := loop_runs (by omega) rfl hloop rfl
  obtain ⟨fs, htrace, hwrites, hcase⟩ : ∃ fs, c.below.trace = v.env.below.trace ++ fs ∧
      (∀ e ∈ fs, IsWrite e ∧ offered e ≠ []) ∧
      (a.hex = true ∧ (NewlineKept v.env c fs ∨ NewlineLost v.env c fs) ∨
        ¬ (a.hex = true ∧ 0 < p) ∧ c = v.env) := by
    rcases hnewline with ⟨hhex, _, r, hline⟩ | ⟨hhex, rfl⟩
    · obtain ⟨fs, hkept | hlost⟩ := lineWriteAll_newline hline
      · exact ⟨fs, hkept.1.trace, hkept.1.drained.writes, .inl ⟨hhex, .inl hkept⟩⟩
      · have hlost' := hlost
        obtain ⟨_, _, _, hw, _⟩ := hlost'
        exact ⟨fs, hw.trace, hw.drained.writes, .inl ⟨hhex, .inr hlost⟩⟩
    · exact ⟨[], by simp, by simp, .inr ⟨hhex, rfl⟩⟩
  have hfinal : u.env.below.trace = v.env.below.trace ++ (fs ++ gs) := by
    rw [hexit.trace, htrace, List.append_assoc]
  have hmem : ∀ e ∈ v.env.below.trace, e ∈ u.env.below.trace := by
    intro e he
    rw [hfinal]
    exact List.mem_append_left _ he
  obtain ⟨rfl, hprod⟩ := produced_of_succeeds hv hruns (fun e he => hsignal e (hmem e he))
    fun e he => hpipe e (hmem e he)
  have hgen : generated u.env.below.trace = generated v.env.below.trace := by
    rw [hfinal]
    exact generated_append (List.forall_mem_append.mpr ⟨hwrites, hexit.drained.writes⟩)
  have hdelivered : Delivered a u.env.below.trace ↔
      written u.env.below.trace = output a (generated v.env.below.trace) := by
    rw [Delivered, hgen]
    exact and_iff_left hprod.length
  rw [hdelivered]
  rcases hcase with ⟨hhex, hkept | hlost⟩ | ⟨hraw, rfl⟩
  · exact delivered_of_kept hprod hhex hkept hflush
  · exact delivered_of_lost hprod hhex hlost hflush
  · have hpos : 0 < a.nTotal := Int64.lt_iff_toInt_lt.mpr (by rw [Int64.toInt_zero]; omega)
    have hhex : ¬ a.hex = true := fun hhex => hraw ⟨hhex, hpos⟩
    refine exit_kept ?_ hprod.nonempty (.inl hprod.good) hflush
    rw [hprod.carried, output, if_neg hhex, List.append_nil]

/-- The module of `narrow` on a file system without or with room. -/
def disk (full : Bool) : ToolHost Unit where
  answer
    | .writeOut buf, e =>
      -- ENOSPC
      (if full then .error (.other 28) else .ok (Fin.last buf.length), e)
    | q, e => narrow.answer q e

/-- One raw byte. -/
def oneByte : Args := ⟨1, false, true, "p11rand.so"⟩

/-- What the descriptor sees until the tool exits. -/
def oneBlock : List ToolReply := [⟨.signalCount, (0 : Int32)⟩,
  ⟨.generateRandom 1, (ckrOk, Vector.replicate 1 7)⟩, ⟨.signalCount, (0 : Int32)⟩]

theorem writeFull_disk (full : Bool) :
    writeFull (lineWriter (disk full)) [7] ⟨⟨⟨(), oneBlock⟩, []⟩, oneBlock⟩ =
      some (.ok (), ⟨⟨⟨(), oneBlock⟩, [7]⟩, oneBlock ++ [⟨.writeOut [7], .ok 1⟩]⟩) :=
  (loop_of_inl rfl).trans (loop_of_inr rfl)

/-- The byte is buffered, and goes out at exit. -/
theorem main_disk (full : Bool) : ∃ u, main (disk full) oneByte (startup ()) = some (0, u) ∧
    u.env.below.trace = oneBlock ++ [⟨.signalCount, (0 : Int32)⟩, ⟨.writeOut [7],
      if full then .error (.other 28) else .ok 1⟩] := by
  have hstep : readStep (lineWriter (disk full)) oneByte 0 (startup ()) =
      some (.inl 1, ⟨⟨⟨(), oneBlock⟩, [7]⟩, oneBlock ++ [⟨.writeOut [7], .ok 1⟩]⟩) :=
    readStep_of_write rfl (by decide) rfl rfl (writeFull_disk full)
  have hloop := (loop_of_inl hstep).trans (loop_of_inr rfl)
  cases full with
  | true => exact ⟨_, (bind_of_eq hloop).trans (bind_of_eq (console_eq_some.mpr
      ⟨_, loop_of_inr rfl, rfl⟩)), rfl⟩
  | false => exact ⟨_, (bind_of_eq hloop).trans (bind_of_eq (console_eq_some.mpr
      ⟨_, (loop_of_inl rfl).trans (loop_of_inr rfl), rfl⟩)), rfl⟩

theorem oneBlock_quiet {ans : Except IoError (Fin 2)} {es : List ToolReply}
    (hes : es = oneBlock ++ [⟨.signalCount, (0 : Int32)⟩, ⟨.writeOut [7], ans⟩])
    (hans : ans ≠ .error .brokenPipe) :
    (∀ e ∈ es, ¬ Signalled e) ∧ ∀ e ∈ es, ¬ Piped e := by
  subst hes
  cases ans with
  | ok n => simp [oneBlock, Signalled, Piped]
  | error err => simpa [oneBlock, Signalled, Piped] using hans

theorem delivered_iff_disk : ∃ u, main (disk false) oneByte (startup ()) = some (0, u) ∧
    Delivered oneByte u.env.below.trace := by
  obtain ⟨u, hrun, htrace⟩ := main_disk false
  obtain ⟨hsignal, hpipe⟩ := oneBlock_quiet htrace (by simp)
  refine ⟨u, hrun, (delivered_iff (by decide) hrun hsignal hpipe).mpr ?_⟩
  intro pre e post heq hfails
  have hmem : e ∈ u.env.below.trace := by simp [heq]
  have hnone : ∀ e ∈ u.env.below.trace, ¬ Fails e := by
    simp [htrace, oneBlock, Fails]
  exact absurd hfails (hnone e hmem)

/-- On a full file system the tool reports success with nothing put out. -/
theorem main_undelivered : ∃ u, main (disk true) oneByte (startup ()) = some (0, u) ∧
    (∀ e ∈ u.env.below.trace, ¬ Signalled e) ∧ (∀ e ∈ u.env.below.trace, ¬ Piped e) ∧
    written u.env.below.trace = [] ∧ ¬ Delivered oneByte u.env.below.trace := by
  obtain ⟨u, hrun, htrace⟩ := main_disk true
  obtain ⟨hsignal, hpipe⟩ := oneBlock_quiet htrace (by simp)
  have hnone : written u.env.below.trace = [] := by rw [htrace]; rfl
  refine ⟨u, hrun, hsignal, hpipe, hnone, ?_⟩
  rintro ⟨hw, _⟩
  rw [hnone, htrace] at hw
  cases hw

end Main

end P11Rand.Tools.Read
