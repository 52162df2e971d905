import P11Rand.Tools.Duration
import P11Rand.Tools.Selection

/-! Waiting until the module reports a usable slot: `p11rand-wait.rs`. -/
namespace P11Rand.Tools.Wait

open Effect Run

def defaultPollMs : Nat := 500

/-- Without a timeout the tool waits forever. -/
structure Args where
  timeout : Option F64
  pollMs : Nat
  quiet : Bool
  module : String

def parseFrom (parseF64 : String → Option F64) (a : Args) : List String → Except UInt8 Args
  | [] => if a.module.isEmpty then .error 2 else .ok a
  | arg :: rest =>
    if arg = "-t" then
      match rest with
      | [] => .error 2
      | s :: rest =>
        match parseF64 s with
        | none => .error 2
        | some v =>
          if v.negative then .error 2 else parseFrom parseF64 { a with timeout := some v } rest
    else if arg = "-i" then
      match rest with
      | [] => .error 2
      | s :: rest =>
        -- a u64 is as wide as a usize
        match parseUsize s with
        | none => .error 2
        | some v => if v = 0 then .error 2 else parseFrom parseF64 { a with pollMs := v } rest
    else if arg = "-q" then parseFrom parseF64 { a with quiet := true } rest
    else if arg = "-h" ∨ arg = "--help" then .error 0
    else if ¬ startsWithDash arg then
      -- the module is the last argument
      if rest.isEmpty then parseFrom parseF64 { a with module := arg } rest else .error 2
    else .error 2

/-- The arguments, or the code to exit with. -/
def parse (parseF64 : String → Option F64) (argv : List String) : Except UInt8 Args :=
  parseFrom parseF64 ⟨none, defaultPollMs, false, ""⟩ argv.tail

inductive WaitRequest
  | loadModule (path : String)
  | cInitialize
  | cGetSlotList (tokenPresent : UInt8) (count : CkUlong)
  | signalCount
  | now
  | sleep (nanos : Nat)
  | cFinalize

@[reducible] def WaitRequest.Answer : WaitRequest → Type
  | .loadModule _ => Except String Unit
  | .cInitialize => CkUlong
  -- the list is NULL: the return value and the count
  | .cGetSlotList _ _ => CkUlong × CkUlong
  | .signalCount => Int32
  | .now => Nat
  | .sleep _ => Unit
  | .cFinalize => CkUlong

/-- Any module, and any clock in nanoseconds. -/
abbrev WaitHost (H : Type) := Host WaitRequest.Answer H

abbrev WaitWorld (H : Type) := Hosted WaitRequest.Answer H

abbrev WaitReply := Reply WaitRequest.Answer

/-- How the wait ends; a timeout is the one that was given. -/
inductive Exit
  | ready
  | interrupted
  | timedOut (after : F64)

def Exit.code : Exit → UInt8
  | .ready => 0
  | .interrupted | .timedOut _ => 1

variable {H : Type}

/-- The timeout, once it is over. -/
def expired (T : WaitHost H) (a : Args) (start : Nat) : Run (WaitWorld H) (Option F64) := do
  match a.timeout with
  | none => return none
  | some t => return if t.le (asSecsF64 ((← ask T .now) - start)) then some t else none

def interval (a : Args) : Nat := a.pollMs * 1000000

/-- One pass through the loop of `main`. -/
def waitStep (T : WaitHost H) (a : Args) (start : Nat) (_ : Unit) :
    Run (WaitWorld H) (Unit ⊕ Exit) := do
  let (rv, count) ← ask T (.cGetSlotList ckTrue 0)
  if rv = ckrOk ∧ 1 ≤ count then
    return .inr .ready
  if 0 < (← ask T .signalCount) then
    return .inr .interrupted
  match ← expired T a start with
  | some t => return .inr (.timedOut t)
  | none =>
    ask T (.sleep (interval a))
    return .inl ()

def main (T : WaitHost H) (a : Args) : Run (WaitWorld H) (Except Failure Exit) := do
  match ← ask T (.loadModule a.module) with
  | .error e => return .error ⟨e, 2⟩
  | .ok () =>
    if (← ask T .cInitialize) ≠ ckrOk then
      return .error ⟨"C_Initialize failed", 2⟩
    let start ← ask T .now
    let exit ← loop (waitStep T a start) ()
    let _ ← ask T .cFinalize
    return .ok exit

/-- The module says that there is a slot with a token. -/
def Ready (ans : CkUlong × CkUlong) : Prop := ans.1 = ckrOk ∧ 1 ≤ ans.2

/-- What a pass learns from the clock. -/
inductive Looked (a : Args) (start : Nat) : Option F64 → List WaitReply → Prop
  | forever : a.timeout = none → Looked a start none []
  | early {t : F64} {n : Nat} : a.timeout = some t → t.le (asSecsF64 (n - start)) = false →
      Looked a start none [⟨.now, n⟩]
  | late {t : F64} {n : Nat} : a.timeout = some t → t.le (asSecsF64 (n - start)) = true →
      Looked a start (some t) [⟨.now, n⟩]

/-- The passes after which the wait goes on. -/
inductive Waited (a : Args) (start : Nat) : List WaitReply → Prop
  | nil : Waited a start []
  | pass {es clock : List WaitReply} {ans : CkUlong × CkUlong} {n : Int32} : Waited a start es →
      ¬ Ready ans → ¬ 0 < n → Looked a start none clock →
      Waited a start (es ++ (⟨.cGetSlotList ckTrue 0, ans⟩ :: ⟨.signalCount, n⟩ :: clock ++
        [⟨.sleep (interval a), ()⟩]))

/-- The wait with its last pass. -/
inductive Ended (a : Args) (start : Nat) : Exit → List WaitReply → Prop
  | ready {es : List WaitReply} {ans : CkUlong × CkUlong} : Waited a start es → Ready ans →
      Ended a start .ready (es ++ [⟨.cGetSlotList ckTrue 0, ans⟩])
  | interrupted {es : List WaitReply} {ans : CkUlong × CkUlong} {n : Int32} :
      Waited a start es → ¬ Ready ans → 0 < n →
      Ended a start .interrupted (es ++ [⟨.cGetSlotList ckTrue 0, ans⟩, ⟨.signalCount, n⟩])
  | timedOut {es clock : List WaitReply} {ans : CkUlong × CkUlong} {n : Int32} {t : F64} :
      Waited a start es → ¬ Ready ans → ¬ 0 < n → Looked a start (some t) clock →
      Ended a start (.timedOut t)
        (es ++ (⟨.cGetSlotList ckTrue 0, ans⟩ :: ⟨.signalCount, n⟩ :: clock))

/-- All that the tool asks, from its start to its end. -/
inductive Ran (a : Args) : Except Failure Exit → List WaitReply → Prop
  | unloaded (e : String) : Ran a (.error ⟨e, 2⟩) [⟨.loadModule a.module, .error e⟩]
  | refused {rv : CkUlong} : rv ≠ ckrOk → Ran a (.error ⟨"C_Initialize failed", 2⟩)
      [⟨.loadModule a.module, .ok ()⟩, ⟨.cInitialize, rv⟩]
  | waited {start : Nat} {exit : Exit} {es : List WaitReply} {rv : CkUlong} :
      Ended a start exit es → Ran a (.ok exit) ([⟨.loadModule a.module, .ok ()⟩,
        ⟨.cInitialize, ckrOk⟩, ⟨.now, start⟩] ++ es ++ [⟨.cFinalize, rv⟩])

variable {T : WaitHost H} {a : Args} {start : Nat} {w w' : WaitWorld H} {es : List WaitReply}
  {exit : Exit} {res : Except Failure Exit}

theorem expired_looked {o : Option F64} (h : expired T a start w = some (o, w')) :
    ∃ clock, w'.trace = w.trace ++ clock ∧ Looked a start o clock := by
  unfold expired at h
  cases ht : a.timeout with
  | none =>
    rw [ht] at h
    cases h
    exact ⟨[], by simp, .forever ht⟩
  | some t =>
    rw [ht] at h
    obtain ⟨n, v, hq, h⟩ := bind_eq_some.mp h
    cases h
    refine ⟨_, ask_trace hq, ?_⟩
    split
    · exact .late ht ‹_›
    · rename_i hle
      exact .early ht (Bool.eq_false_of_not_eq_true hle)

/-- The wait after some passes, over or not. -/
def Passed (a : Args) (start : Nat) (es : List WaitReply) : Unit ⊕ Exit → Prop
  | .inl _ => Waited a start es
  | .inr exit => Ended a start exit es

theorem waitStep_cases {y : Unit ⊕ Exit} (hw : Waited a start es)
    (h : waitStep T a start () w = some (y, w')) :
    ∃ fs, w'.trace = w.trace ++ fs ∧ Passed a start (es ++ fs) y := by
  obtain ⟨ans, u, hpoll, h⟩ := bind_eq_some.mp h
  dsimp only at h
  split at h
  · cases h
    exact ⟨_, ask_trace hpoll, .ready hw ‹_›⟩
  obtain ⟨n, v, hsignal, h⟩ := bind_eq_some.mp h
  have hv : v.trace = w.trace ++ [⟨.cGetSlotList ckTrue 0, ans⟩, ⟨.signalCount, n⟩] := by
    rw [ask_trace hsignal, ask_trace hpoll, List.append_assoc]
    rfl
  split at h
  · cases h
    exact ⟨_, hv, .interrupted hw ‹_› ‹_›⟩
  obtain ⟨o, x, hclock, h⟩ := bind_eq_some.mp h
  obtain ⟨clock, hx, hlooked⟩ := expired_looked hclock
  cases o with
  | some t =>
    cases h
    exact ⟨_, by rw [hx, hv, List.append_assoc]; rfl, .timedOut hw ‹_› ‹_› hlooked⟩
  | none =>
    obtain ⟨_, z, hsleep, h⟩ := bind_eq_some.mp h
    cases h
    exact ⟨_, by rw [ask_trace hsleep, hx, hv, List.append_assoc, List.append_assoc]; rfl,
      .pass hw ‹_› ‹_› hlooked⟩

theorem loop_ended (h : loop (waitStep T a start) () w = some (exit, w')) :
    ∃ es, w'.trace = w.trace ++ es ∧ Ended a start exit es := by
  refine loop_keeps (fun y v => ∃ es, v.trace = w.trace ++ es ∧ Passed a start es y) h
    ⟨[], by simp, .nil⟩ ?_
  rintro _ u y v ⟨es, hes, hwaited⟩ hs
  obtain ⟨fs, hfs, hy⟩ := waitStep_cases hwaited hs
  exact ⟨es ++ fs, by rw [hfs, hes, List.append_assoc], hy⟩

theorem main_ran (h : main T a w = some (res, w')) :
    ∃ es, w'.trace = w.trace ++ es ∧ Ran a res es := by
  obtain ⟨loaded, u, hload, h⟩ := bind_eq_some.mp h
  cases loaded with
  | error e =>
    cases h
    exact ⟨_, ask_trace hload, .unloaded e⟩
  | ok _ =>
    obtain ⟨rv, v, hinit, h⟩ := bind_eq_some.mp h
    have hv : v.trace = w.trace ++ [⟨.loadModule a.module, .ok ()⟩, ⟨.cInitialize, rv⟩] := by
      rw [ask_trace hinit, ask_trace hload, List.append_assoc]
      rfl
    split at h
    · cases h
      exact ⟨_, hv, .refused ‹_›⟩
    rename_i hok
    obtain rfl := not_not.mp hok
    obtain ⟨start, x, hstart, h⟩ := bind_eq_some.mp h
    obtain ⟨exit, y, hloop, h⟩ := bind_eq_some.mp h
    obtain ⟨rv, z, hfinal, h⟩ := bind_eq_some.mp h
    cases h
    obtain ⟨es, hes, hended⟩ := loop_ended hloop
    have hran : Ran a (.ok exit) ([⟨.loadModule a.module, .ok ()⟩, ⟨.cInitialize, ckrOk⟩,
        ⟨.now, start⟩] ++ es ++ [⟨.cFinalize, rv⟩]) := .waited hended
    refine ⟨_, ?_, hran⟩
    rw [ask_trace hfinal, hes, ask_trace hstart, hv]
    simp

theorem parseFrom_sound {parseF64 : String → Option F64} {args : List String} {a' : Args}
    (hpoll : 0 < a.pollMs) (ht : ∀ t, a.timeout = some t → t.negative = false)
    (h : parseFrom parseF64 a args = .ok a') :
    0 < a'.pollMs ∧ ∀ t, a'.timeout = some t → t.negative = false := by
  fun_induction parseFrom parseF64 a args
  case case2 =>
    cases h
    exact ⟨hpoll, ht⟩
  case case6 hv ih =>
    refine ih hpoll (fun t heq => ?_) h
    cases heq
    simpa using hv
  case case10 hv _ ih => exact ih (Nat.pos_of_ne_zero hv) ht h
  all_goals
    first
    | cases h
    | rename_i ih
      exact ih hpoll ht h

/-- The pause between two polls is never empty, and no timeout is over before it began. -/
theorem parse_sound {parseF64 : String → Option F64} {argv : List String}
    (h : parse parseF64 argv = .ok a) :
    0 < a.pollMs ∧ ∀ t, a.timeout = some t → t.negative = false :=
  parseFrom_sound (by decide) (fun _ ht => by cases ht) h

/-- A clock that goes on, at least by as much as is slept. -/
structure Clocked (T : WaitHost H) (time : H → Nat) : Prop where
  now : ∀ e, (T.answer .now e).1 = time e
  forward : ∀ q e, time e ≤ time (T.answer q e).2
  sleeps : ∀ n e, time e + n ≤ time (T.answer (.sleep n) e).2

@[simp] def WaitRequest.polls : WaitRequest → Bool
  | .cGetSlotList _ _ => true
  | _ => false

/-- How often the module was polled. -/
def polls (es : List WaitReply) : Nat := es.countP fun e => e.request.polls

@[simp] theorem polls_append (es fs : List WaitReply) : polls (es ++ fs) = polls es + polls fs :=
  List.countP_append

@[simp] theorem polls_nil : polls [] = 0 := rfl

@[simp] theorem polls_cons (e : WaitReply) (es : List WaitReply) :
    polls (e :: es) = polls es + if e.request.polls then 1 else 0 := List.countP_cons

section Clocked

variable {time : H → Nat} {q : ℚ}

/-- What follows a request has to do its work at any later time. -/
theorem Clocked.yields_ask {α : Type} {r : WaitRequest} {f : r.Answer → Run (WaitWorld H) α}
    {Post : α → WaitWorld H → Prop} (hT : Clocked T time)
    (h : ∀ ans e, time w.env ≤ time e → Yields (f ans) ⟨e, w.trace ++ [⟨r, ans⟩]⟩ Post) :
    Yields (ask T r >>= f) w Post :=
  Run.yields_bind ⟨_, _, ask_apply r w, h _ _ (hT.forward r w.env)⟩

theorem expired_clocked (hT : Clocked T time) (ht : a.timeout = some (.finite q)) :
    Yields (expired T a start) w fun o v => polls v.trace = polls w.trace ∧
      time w.env ≤ time v.env ∧
      (o = none → (1 - 2 * halfUlp) * (time w.env - start : Nat) < q * 10 ^ 9) := by
  simp only [expired, ht]
  refine Run.yields_bind ⟨_, _, ask_apply WaitRequest.now w, ?_⟩
  rw [hT.now]
  refine yields_pure ⟨by simp, hT.forward .now w.env, ?_⟩
  split
  · exact nofun
  · rename_i hle
    exact fun _ => lt_of_not_ge fun hover => hle (F64.le_asSecsF64 hover)

/-- A pass polls once. If the wait goes on, the timeout was not over when the pass began, and a
pause has passed. -/
theorem waitStep_clocked (hT : Clocked T time) (ht : a.timeout = some (.finite q)) :
    Yields (waitStep T a start ()) w fun y v => polls v.trace = polls w.trace + 1 ∧
      (y = .inl () → time w.env + interval a ≤ time v.env ∧
        (1 - 2 * halfUlp) * (time w.env - start : Nat) < q * 10 ^ 9) := by
  unfold waitStep
  refine hT.yields_ask fun ans e he => ?_
  dsimp only
  split
  · exact yields_pure ⟨by simp, nofun⟩
  refine hT.yields_ask fun n e' he' => ?_
  split
  · exact yields_pure ⟨by simp, nofun⟩
  refine Run.yields_bind ((expired_clocked hT ht).mono fun o v hv => ?_)
  obtain ⟨hpolls, hlater, hlt⟩ := hv
  dsimp only at he' hlater hlt
  cases o with
  | some t => exact yields_pure ⟨by simp [hpolls], nofun⟩
  | none =>
    refine Run.yields_bind ⟨_, _, ask_apply (WaitRequest.sleep (interval a)) v, ?_⟩
    refine yields_pure ⟨by simp [hpolls], fun _ => ⟨?_, ?_⟩⟩
    · have hsleep := hT.sleeps (interval a) v.env
      dsimp only at hsleep ⊢
      omega
    · have hmono : ((time w.env - start : Nat) : ℚ) ≤ (time e' - start : Nat) := by
        exact_mod_cast Nat.sub_le_sub_right (he.trans he') start
      have hpos : (0 : ℚ) ≤ 1 - 2 * halfUlp := by norm_num [halfUlp]
      exact (mul_le_mul_of_nonneg_left hmono hpos).trans_lt (hlt rfl)

/-- The loop ends when the timeout is over, after as many pauses as that takes. -/
theorem loop_clocked (hT : Clocked T time) (ht : a.timeout = some (.finite q)) (k : Nat)
    (hk : q * 10 ^ 9 ≤ (1 - 2 * halfUlp) * (time w.env - start + k * interval a : Nat))
    (hstart : start ≤ time w.env) :
    Yields (loop (waitStep T a start) ()) w fun _ v => polls v.trace ≤ polls w.trace + k + 1 := by
  induction k generalizing w with
  | zero =>
    obtain ⟨y, v, hs, hpolls, hgoes⟩ : Yields (waitStep T a start ()) w _ := waitStep_clocked hT ht
    cases y with
    | inl _ =>
      obtain ⟨_, hlt⟩ := hgoes rfl
      rw [Nat.zero_mul, Nat.add_zero] at hk
      exact absurd hk (not_le.mpr hlt)
    | inr exit => exact ⟨exit, v, loop_of_inr hs, by omega⟩
  | succ k ih =>
    obtain ⟨y, v, hs, hpolls, hgoes⟩ : Yields (waitStep T a start ()) w _ := waitStep_clocked hT ht
    cases y with
    | inl _ =>
      obtain ⟨hlater, _⟩ := hgoes rfl
      have hpos : (0 : ℚ) ≤ 1 - 2 * halfUlp := by norm_num [halfUlp]
      have hle : time w.env - start + (k + 1) * interval a ≤
          time v.env - start + k * interval a := by
        rw [Nat.succ_mul]
        omega
      obtain ⟨exit, x, hloop, hx⟩ := ih (w := v) (hk.trans (mul_le_mul_of_nonneg_left
        (by exact_mod_cast hle) hpos)) (by omega)
      exact ⟨exit, x, (loop_of_inl hs).trans hloop, by omega⟩
    | inr exit => exact ⟨exit, v, loop_of_inr hs, by omega⟩

theorem main_clocked (hT : Clocked T time) (ht : a.timeout = some (.finite q)) (k : Nat)
    (hk : q * 10 ^ 9 ≤ (1 - 2 * halfUlp) * (k * interval a : Nat)) :
    Yields (main T a) w fun _ v => polls v.trace ≤ polls w.trace + k + 1 := by
  refine hT.yields_ask fun loaded e _ => ?_
  cases loaded with
  | error e => exact yields_pure (by simp; omega)
  | ok _ =>
    refine hT.yields_ask fun rv e' _ => ?_
    split
    · exact yields_pure (by simp; omega)
    refine Run.yields_bind ⟨_, _, ask_apply WaitRequest.now _, ?_⟩
    rw [hT.now]
    refine Run.yields_bind ((loop_clocked hT ht k ?_ ?_).mono fun exit v hv => ?_)
    · have hpos : (0 : ℚ) ≤ 1 - 2 * halfUlp := by norm_num [halfUlp]
      refine hk.trans (mul_le_mul_of_nonneg_left ?_ hpos)
      exact_mod_cast Nat.le_add_left _ _
    · exact hT.forward .now e'
    · refine hT.yields_ask fun rv e _ => yields_pure ?_
      simpa using hv

end Clocked

/-- What the clock said, from the start on. -/
def readings (es : List WaitReply) : List Nat :=
  es.filterMap fun e => match e with
    | ⟨.now, n⟩ => some n
    | _ => none

theorem Ran.timedOut {t : F64} (h : Ran a (.ok (.timedOut t)) es) : a.timeout = some t ∧
    ∃ start n, (readings es).head? = some start ∧ (readings es).getLast? = some n ∧
      t.le (asSecsF64 (n - start)) = true := by
  cases h with
  | @waited start _ es rv hended =>
    cases hended with
    | timedOut _ _ _ hlooked =>
      cases hlooked with
      | late ht hle => exact ⟨ht, start, _, by simp [readings],
        by simp [readings, List.getLast?_cons], hle⟩

/-- No wait is given up before its timeout is over, and none without one, with an infinite one or
with one that is no number. With any other the wait comes to an end on any module and any clock
that goes on, after no more polls than there are pauses in the timeout, and one. -/
theorem gives_up_on_time {parseF64 : String → Option F64} {argv : List String}
    (hparse : parse parseF64 argv = .ok a) (T : WaitHost H) (env : H) :
    (∀ t w', main T a ⟨env, []⟩ = some (.ok (.timedOut t), w') →
      ∃ q start n, a.timeout = some (.finite q) ∧ (readings w'.trace).head? = some start ∧
        (readings w'.trace).getLast? = some n ∧
        q * 10 ^ 9 ≤ (1 + 3 * halfUlp) * (n - start : Nat)) ∧
    ∀ q time, a.timeout = some (.finite q) → Clocked T time → ∃ res w',
      main T a ⟨env, []⟩ = some (res, w') ∧
      polls w'.trace ≤ ⌈q * 10 ^ 9 / ((1 - 2 * halfUlp) * interval a)⌉₊ + 1 := by
  obtain ⟨hpoll, hneg⟩ := parse_sound hparse
  constructor
  · intro t w' h
    obtain ⟨es, hes, hran⟩ := main_ran h
    obtain ⟨ht, start, n, hstart, hn, hle⟩ := hran.timedOut
    obtain ⟨q, rfl, hq⟩ := F64.of_le_asSecsF64 (hneg t ht) hle
    rw [List.nil_append] at hes
    exact ⟨q, start, n, ht, by rw [hes]; exact hstart, by rw [hes]; exact hn, hq⟩
  · intro q time ht hT
    have hpos : (0 : ℚ) < (1 - 2 * halfUlp) * interval a := by
      have hinterval : (0 : ℚ) < interval a := by
        exact_mod_cast Nat.mul_pos hpoll (by norm_num)
      exact mul_pos (by norm_num [halfUlp]) hinterval
    have hk := (div_le_iff₀ hpos).mp (Nat.le_ceil (q * 10 ^ 9 / ((1 - 2 * halfUlp) * interval a)))
    obtain ⟨res, w', h, hle⟩ := main_clocked (w := ⟨env, []⟩) hT ht
      ⌈q * 10 ^ 9 / ((1 - 2 * halfUlp) * interval a)⌉₊ (by push_cast; linarith)
    exact ⟨res, w', h, by simpa using hle⟩

/-- A module that never has a token, on a clock that nothing but the pauses moves. -/
def barren : WaitHost Nat where
  answer
    | .loadModule _, e => (.ok (), e)
    | .cInitialize, e => (ckrOk, e)
    | .cGetSlotList _ _, e => ((ckrOk, 0), e)
    | .signalCount, e => (0, e)
    | .now, e => (e, e)
    | .sleep n, e => ((), e + n)
    | .cFinalize, e => (ckrOk, e)

theorem clocked_barren : Clocked barren id := by
  refine ⟨fun _ => rfl, fun q e => ?_, fun _ _ => le_rfl⟩
  cases q with
  | sleep n => exact Nat.le_add_right e n
  | _ => exact le_rfl

/-- Whoever waits for it gives up. -/
theorem barren_timedOut {w w' : WaitWorld Nat} (h : main barren a w = some (res, w')) :
    ∃ t, res = .ok (.timedOut t) := by
  change (do
    let exit ← loop (waitStep barren a w.env) ()
    let _ ← ask barren .cFinalize
    return .ok exit : Run (WaitWorld Nat) (Except Failure Exit)) _ = _ at h
  obtain ⟨exit, v, hloop, h⟩ := bind_eq_some.mp h
  cases h
  suffices hexit : ∃ t, exit = .timedOut t by
    obtain ⟨t, rfl⟩ := hexit
    exact ⟨t, rfl⟩
  refine loop_keeps (fun y _ => ∀ exit, y = .inr exit → ∃ t, exit = .timedOut t) hloop nofun ?_
    exit rfl
  rintro _ u y x _ hs exit rfl
  change (do
    match ← expired barren a w.env with
    | some t => return .inr (.timedOut t)
    | none =>
      ask barren (.sleep (interval a))
      return .inl () : Run (WaitWorld Nat) (Unit ⊕ Exit)) _ = _ at hs
  obtain ⟨o, z, _, hs⟩ := bind_eq_some.mp hs
  cases o with
  | some t =>
    cases hs
    exact ⟨t, rfl⟩
  | none => cases hs

/-- A second and a half is waited for, which takes at most five polls. -/
theorem gives_up_on_time_barren : ∃ t w', main barren
    ⟨some (.finite (3 / 2)), 500, false, "p11rand.so"⟩ ⟨0, []⟩ = some (.ok (.timedOut t), w') ∧
    polls w'.trace ≤ 5 ∧ ∃ start n, (readings w'.trace).head? = some start ∧
      (readings w'.trace).getLast? = some n ∧
      3 / 2 * 10 ^ 9 ≤ (1 + 3 * halfUlp) * (n - start : Nat) := by
  let parseF64 : String → Option F64 := fun s => if s = "1.5" then some (.finite (3 / 2)) else none
  have hparse : parse parseF64 ["p11rand-wait", "-t", "1.5", "p11rand.so"] =
      .ok ⟨some (.finite (3 / 2)), 500, false, "p11rand.so"⟩ := by
    have hpos : ¬ (3 / 2 : ℚ) < 0 := by norm_num
    simp [parse, parseFrom, parseF64, F64.negative, startsWithDash, defaultPollMs, hpos]
  obtain ⟨hearly, hlate⟩ := gives_up_on_time hparse barren 0
  obtain ⟨res, w', h, hle⟩ := hlate (3 / 2) id rfl clocked_barren
  obtain ⟨t, rfl⟩ := barren_timedOut h
  obtain ⟨q, start, n, ⟨rfl⟩, hstart, hn, hq⟩ := hearly t w' h
  refine ⟨t, w', h, hle.trans ?_, start, n, hstart, hn, hq⟩
  have hceil : ⌈(3 / 2 : ℚ) * 10 ^ 9 / ((1 - 2 * halfUlp) * (500 * 1000000 : Nat))⌉₊ ≤ 4 := by
    rw [Nat.ceil_le]
    norm_num [halfUlp]
  exact Nat.succ_le_succ hceil

end P11Rand.Tools.Wait
