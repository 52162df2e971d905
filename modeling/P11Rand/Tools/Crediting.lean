import P11Rand.Tools.Seed

/-! What the seeder submits for credit, over any run of its loop. -/
namespace P11Rand.Tools.Seed

open Effect Run

variable {H : Type} {P : ToolHost H} {w w' : ToolWorld H} {a args : Args}
  {header : RandPoolInfoHeader} {s : Seeder} {es : List ToolReply} {e : ToolReply}
  {buf : List UInt8}

/-- The module made these bytes. -/
def Generated (n : Nat) (buf : List UInt8) (e : ToolReply) : Prop :=
  ∃ block : Vector UInt8 n, e = ⟨.generateRandom n, (ckrOk, block)⟩ ∧ buf = block.toList

theorem generated_of {n m : Nat} (h : n = m) (block : Vector UInt8 n) :
    Generated m block.toList ⟨.generateRandom n, (ckrOk, block)⟩ := by
  subst h
  exact ⟨block, rfl, rfl⟩

/-- The kernel refused a credit for want of the privilege. -/
def CreditRefused : ToolReply → Prop
  | ⟨.addEntropy _ _, .error err⟩ => err = eperm
  | _ => False

def ReseedRefused : ToolReply → Prop
  | ⟨.reseedCrng, .error err⟩ => err = eperm
  | _ => False

/-- What the seeder may do after `es`. -/
def Legal (a : Args) (es : List ToolReply) : ToolReply → Prop
  | ⟨.generateRandom n, _⟩ => n = a.nbytes
  | ⟨.addEntropy header buf, _⟩ =>
    header.entropyCount.toInt = 8 * a.nbytes ∧ header.bufSize.toInt = a.nbytes ∧
      (∃ pre e, es = pre ++ [e] ∧ Generated a.nbytes buf e) ∧
      a.noCredit = false ∧ ∀ e ∈ es, ¬ CreditRefused e
  | ⟨.writeRandom buf, _⟩ => ∃ pre e, Generated a.nbytes buf e ∧
      (es = pre ++ [e] ∧ (a.noCredit = true ∨ ∃ e ∈ pre, CreditRefused e) ∨
        ∃ header, es = pre ++ [e] ++ [⟨.addEntropy header buf, .error eperm⟩])
  | ⟨.reseedCrng, _⟩ => (∃ pre header buf, es = pre ++ [⟨.addEntropy header buf, .ok ()⟩]) ∧
      a.noReseed = false ∧ ∀ e ∈ es, ¬ ReseedRefused e
  | _ => True

/-- The flags say what the kernel has refused. -/
structure Inv (a args : Args) (header : RandPoolInfoHeader) (es : List ToolReply) : Prop where
  lawful : Lawful (Legal a) es
  header : header = ⟨Int32.ofNat (a.nbytes * 8), Int32.ofNat a.nbytes⟩
  nbytes : args.nbytes = a.nbytes
  credit : args.noCredit = true ↔ a.noCredit = true ∨ ∃ e ∈ es, CreditRefused e
  reseed : args.noReseed = true ↔ a.noReseed = true ∨ ∃ e ∈ es, ReseedRefused e

theorem inv_start (a : Args) :
    Inv a (Seeder.start a).args (Seeder.start a).header [] :=
  ⟨lawful_nil, rfl, rfl, by simp [Seeder.start], by simp [Seeder.start]⟩

theorem Inv.snoc (h : Inv a args header es) (hl : Legal a es e) (hc : ¬ CreditRefused e)
    (hr : ¬ ReseedRefused e) : Inv a args header (es ++ [e]) := by
  refine ⟨lawful_snoc.mpr ⟨h.lawful, hl⟩, h.header, h.nbytes, ?_, ?_⟩
  · simp [h.credit, or_and_right, exists_or, hc]
  · simp [h.reseed, or_and_right, exists_or, hr]

/-- Requests that have nothing to do with the block. -/
def Idle : ToolRequest → Prop
  | .signalCount | .now | .sleep _ => True
  | _ => False

theorem Inv.idle {q : ToolRequest} {ans : q.Answer} (h : Inv a args header w.trace)
    (hq : ask P q w = some (ans, w')) (hidle : Idle q) : Inv a args header w'.trace := by
  rw [ask_trace hq]
  cases q <;> first | exact hidle.elim | exact h.snoc trivial id id

def Holds (a : Args) : Seeder ⊕ Exit → List ToolReply → Prop
  | .inl s, es => Inv a s.args s.header es
  | .inr _, es => Lawful (Legal a) es

theorem fallAsleep_holds {y : Seeder ⊕ Exit} (hs : Inv a s.args s.header w.trace)
    (h : fallAsleep P s w = some (y, w')) : Holds a y w'.trace := by
  unfold fallAsleep at h
  split at h
  · cases h
    exact hs
  · cases htotal : fromSecsF64 s.args.interval with
    | none =>
      rw [htotal] at h
      cases h
      exact hs.lawful
    | some total =>
      rw [htotal] at h
      obtain ⟨start, v, hq, h⟩ := bind_eq_some.mp h
      cases h
      exact hs.idle hq trivial

theorem sleepOn_holds {start total : Nat} {y : Seeder ⊕ Exit}
    (hs : Inv a s.args s.header w.trace) (h : sleepOn P start total s w = some (y, w')) :
    Holds a y w'.trace := by
  obtain ⟨t, v, hq, h⟩ := bind_eq_some.mp h
  replace hs := hs.idle hq trivial
  split at h
  · obtain ⟨n, v, hq, h⟩ := bind_eq_some.mp h
    replace hs := hs.idle hq trivial
    split at h
    · obtain ⟨t', v, hq, h⟩ := bind_eq_some.mp h
      replace hs := hs.idle hq trivial
      obtain ⟨_, v, hq, h⟩ := bind_eq_some.mp h
      cases h
      exact hs.idle hq trivial
    · cases h
      exact hs
  · cases h
    exact hs

/-- The header says what is submitted. -/
theorem Inv.counts (h : Inv a args header es) (hn : a.nbytes ≤ maxNbytes) :
    header.entropyCount.toInt = 8 * a.nbytes ∧ header.bufSize.toInt = a.nbytes := by
  unfold maxNbytes at hn
  rw [h.header]
  constructor
  · rw [Int32.toInt_ofNat_of_lt (by omega)]
    omega
  · exact Int32.toInt_ofNat_of_lt (by omega)

theorem forceReseed_inv {s' : Seeder} (hs : Inv a s.args s.header w.trace)
    (hlast : ∃ pre header buf, w.trace = pre ++ [⟨.addEntropy header buf, .ok ()⟩])
    (h : forceReseed P s w = some (s', w')) : Inv a s'.args s'.header w'.trace := by
  unfold forceReseed at h
  split at h
  · cases h
    exact hs
  rename_i hreseed
  obtain ⟨hon, hnone⟩ := not_or.mp (mt hs.reseed.mpr hreseed)
  have hlegal : ∀ ans, Legal a w.trace ⟨.reseedCrng, ans⟩ :=
    fun _ => ⟨hlast, by simpa using hon, fun e he hc => hnone ⟨e, he, hc⟩⟩
  obtain ⟨ans, v, hq, h⟩ := bind_eq_some.mp h
  have hv := ask_trace hq
  cases ans with
  | error err =>
    by_cases herr : err = eperm
    · subst herr
      cases h
      rw [hv]
      refine ⟨lawful_snoc.mpr ⟨hs.lawful, hlegal _⟩, hs.header, hs.nbytes, ?_, ?_⟩
      · simp [hs.credit, or_and_right, exists_or, CreditRefused]
      · refine iff_of_true rfl (.inr ⟨⟨.reseedCrng, .error eperm⟩, ?_, rfl⟩)
        simp
    · dsimp only at h
      rw [if_neg herr] at h
      cases h
      rw [hv]
      exact hs.snoc (hlegal _) id herr
  | ok _ =>
    cases h
    rw [hv]
    exact hs.snoc (hlegal _) id id

/-- A block fresh from the module is written, or submitted once. -/
theorem insertBlock_inv {s' : Seeder} (hn : a.nbytes ≤ maxNbytes)
    (hs : Inv a s.args s.header w.trace)
    (hgen : ∃ pre e, w.trace = pre ++ [e] ∧ Generated a.nbytes s.buf e)
    (h : insertBlock P s w = some (s', w')) : Inv a s'.args s'.header w'.trace := by
  obtain ⟨pre, e, htrace, he⟩ := hgen
  have hce : ¬ CreditRefused e := by
    obtain ⟨block, rfl, _⟩ := he
    exact id
  unfold insertBlock at h
  split at h
  · rename_i hno
    obtain ⟨n, v, hq, h⟩ := bind_eq_some.mp h
    cases h
    have hoff : a.noCredit = true ∨ ∃ e ∈ pre, CreditRefused e := by
      simpa [htrace, or_and_right, exists_or, hce] using hs.credit.mp hno
    rw [ask_trace hq]
    exact hs.snoc ⟨pre, e, he, .inl ⟨htrace, hoff⟩⟩ id id
  rename_i hcredit
  obtain ⟨hon, hnone⟩ := not_or.mp (mt hs.credit.mpr hcredit)
  have hlegal : ∀ ans, Legal a w.trace ⟨.addEntropy s.header s.buf, ans⟩ := by
    intro ans
    obtain ⟨hcount, hsize⟩ := hs.counts hn
    exact ⟨hcount, hsize, ⟨pre, e, htrace, he⟩, by simpa using hon,
      fun e he hc => hnone ⟨e, he, hc⟩⟩
  obtain ⟨ans, v, hq, h⟩ := bind_eq_some.mp h
  have hv := ask_trace hq
  cases ans with
  | error err =>
    dsimp only at h
    by_cases herr : err = eperm
    · subst herr
      rw [if_pos rfl] at h
      obtain ⟨n, u, hq', h⟩ := bind_eq_some.mp h
      cases h
      rw [ask_trace hq', hv]
      refine ⟨lawful_snoc.mpr ⟨lawful_snoc.mpr ⟨hs.lawful, hlegal _⟩, ?_⟩, hs.header, hs.nbytes,
        ?_, ?_⟩
      · exact ⟨pre, e, he, .inr ⟨s.header, by rw [htrace]⟩⟩
      · refine iff_of_true rfl (.inr ⟨⟨.addEntropy s.header s.buf, .error eperm⟩, ?_, rfl⟩)
        simp
      · simp [hs.reseed, or_and_right, exists_or, ReseedRefused]
    · rw [if_neg herr] at h
      cases h
      rw [hv]
      exact hs.snoc (hlegal _) herr id
  | ok _ =>
    replace hs := hs.snoc (hlegal (.ok ())) id id
    rw [← hv] at hs
    exact forceReseed_inv hs ⟨w.trace, s.header, s.buf, hv⟩ h

theorem seedStep_holds {y : Seeder ⊕ Exit} (hn : a.nbytes ≤ maxNbytes)
    (hs : Inv a s.args s.header w.trace) (h : seedStep P s w = some (y, w')) :
    Holds a y w'.trace := by
  unfold seedStep at h
  cases hphase : s.phase with
  | napping start total =>
    rw [hphase] at h
    exact sleepOn_holds hs h
  | seeding =>
    rw [hphase] at h
    obtain ⟨n, v, hq, h⟩ := bind_eq_some.mp h
    replace hs := hs.idle hq trivial
    split at h
    · cases h
      exact hs.lawful
    obtain ⟨⟨rv, block⟩, v', hq, h⟩ := bind_eq_some.mp h
    have hv := ask_trace hq
    have hlegal : Legal a v.trace ⟨.generateRandom s.args.nbytes, (rv, block)⟩ := hs.nbytes
    have hs' := hs.snoc hlegal id id
    rw [← hv] at hs'
    dsimp only at h
    split at h
    · obtain ⟨n, u, hq, h⟩ := bind_eq_some.mp h
      replace hs' := hs'.idle hq trivial
      split at h
      · cases h
        exact hs'.lawful
      · exact fallAsleep_holds (s := { s with buf := block.toList }) hs' h
    · rename_i hrv
      obtain ⟨s', u, hins, h⟩ := bind_eq_some.mp h
      have hgen : Generated a.nbytes block.toList _ := generated_of hs.nbytes block
      rw [← not_not.mp hrv] at hgen
      have hins' := insertBlock_inv (s := ⟨s.args, s.header, block.toList, .seeding⟩) hn hs'
        ⟨v.trace, _, hv, hgen⟩ hins
      exact fallAsleep_holds hins' h

/-- The bits that the kernel was told to count, and did. -/
def creditedBits : ToolReply → Int
  | ⟨.addEntropy header _, .ok _⟩ => header.entropyCount.toInt
  | _ => 0

def Credited : ToolReply → Bool
  | ⟨.addEntropy _ _, .ok _⟩ => true
  | _ => false

/-- The bytes that the module made. -/
def freshBytes : ToolReply → Nat
  | ⟨.generateRandom n, (rv, _)⟩ => if rv = ckrOk then n else 0
  | _ => 0

theorem creditedBits_of_legal (h : Legal a es e) :
    creditedBits e = if Credited e = true then 8 * (a.nbytes : Int) else 0 := by
  obtain ⟨q, ans⟩ := e
  cases q with
  | addEntropy header buf =>
    cases ans with
    | error _ => rfl
    | ok _ => exact h.1
  | _ => rfl

theorem credited_sum (h : Lawful (Legal a) es) :
    (es.map creditedBits).sum = 8 * a.nbytes * es.countP Credited := by
  induction es using List.reverseRecOn with
  | nil => simp
  | append_singleton es e ih =>
    obtain ⟨hes, he⟩ := lawful_snoc.mp h
    simp only [List.map_append, List.map_singleton, List.sum_append, List.sum_singleton, ih hes,
      creditedBits_of_legal he, List.countP_append, List.countP_singleton]
    split
    · push_cast
      ring
    · simp

/-- The last block is fresh: it has not been submitted. -/
def Fresh (n : Nat) (es : List ToolReply) : Prop :=
  ∃ pre e buf, es = pre ++ [e] ∧ Generated n buf e

/-- No block is credited twice, and a fresh one has not been. -/
theorem credited_le (h : Lawful (Legal a) es) :
    (es.map creditedBits).sum ≤ 8 * (es.map freshBytes).sum ∧
    (Fresh a.nbytes es →
      (es.map creditedBits).sum + 8 * a.nbytes ≤ 8 * (es.map freshBytes).sum) := by
  induction es using List.reverseRecOn with
  | nil =>
    refine ⟨by simp, ?_⟩
    rintro ⟨pre, e, buf, heq, _⟩
    simp at heq
  | append_singleton es e ih =>
    obtain ⟨hes, he⟩ := lawful_snoc.mp h
    obtain ⟨hle, hfresh⟩ := ih hes
    have hlast : Fresh a.nbytes (es ++ [e]) → ∃ buf, Generated a.nbytes buf e := by
      rintro ⟨pre, e', buf, heq, hgen⟩
      obtain ⟨_, he'⟩ := List.append_inj' heq rfl
      obtain rfl := List.singleton_inj.mp he'
      exact ⟨buf, hgen⟩
    simp only [List.map_append, List.map_singleton, List.sum_append, List.sum_singleton]
    by_cases hgen : ∃ buf, Generated a.nbytes buf e
    · obtain ⟨buf, block, rfl, _⟩ := hgen
      simp only [creditedBits, freshBytes, if_true]
      exact ⟨by omega, fun _ => by omega⟩
    · refine ⟨?_, fun h => absurd (hlast h) hgen⟩
      have hbits := creditedBits_of_legal he
      by_cases hc : Credited e = true
      · rw [if_pos hc] at hbits
        have hes' : Fresh a.nbytes es := by
          obtain ⟨q, ans⟩ := e
          cases q with
          | addEntropy header buf =>
            obtain ⟨_, _, ⟨pre, e, heq, he⟩, _⟩ := he
            exact ⟨pre, e, buf, heq, he⟩
          | _ => cases hc
        have := hfresh hes'
        omega
      · rw [if_neg hc] at hbits
        omega

theorem parseFrom_nbytes {parseF64 : String → Option F64} {args : List String}
    (ha : 0 < a.nbytes ∧ a.nbytes ≤ maxNbytes) {a' : Args}
    (h : parseFrom parseF64 a args = .ok a') : 0 < a'.nbytes ∧ a'.nbytes ≤ maxNbytes := by
  fun_induction parseFrom parseF64 a args
  case case2 =>
    cases h
    exact ha
  case case10 hv _ ih =>
    obtain ⟨hpos, hle⟩ := not_or.mp hv
    exact ih ⟨Nat.pos_of_ne_zero hpos, not_lt.mp hle⟩ h
  all_goals
    first
    | cases h
    | rename_i ih
      exact ih ha h

theorem parse_nbytes {parseF64 : String → Option F64} {argv : List String}
    (h : parse parseF64 argv = .ok a) : 0 < a.nbytes ∧ a.nbytes ≤ maxNbytes :=
  parseFrom_nbytes ⟨by decide, by decide⟩ h

/-- Over any run of the loop, whatever module and kernel answer: what is submitted for credit, what
is written, when the generator is reseeded, and how many bits are credited. -/
theorem crediting {parseF64 : String → Option F64} {argv : List String} {y : Seeder ⊕ Exit}
    (hparse : parse parseF64 argv = .ok a) (hstart : w.trace = [])
    (hrun : Thread Eq (seedStep P) (.inl (.start a)) w y w') :
    (∀ (pre : List ToolReply) (header : RandPoolInfoHeader) (buf : List UInt8) (ans) (post),
      w'.trace = pre ++ ⟨.addEntropy header buf, ans⟩ :: post →
      header.entropyCount.toInt = 8 * a.nbytes ∧ header.bufSize.toInt = a.nbytes ∧
      (∃ pre' e, pre = pre' ++ [e] ∧ Generated a.nbytes buf e) ∧
      a.noCredit = false ∧ ∀ e ∈ pre, ¬ CreditRefused e) ∧
    (∀ pre buf ans post, w'.trace = pre ++ ⟨.writeRandom buf, ans⟩ :: post →
      ∃ pre' e, Generated a.nbytes buf e ∧
        (pre = pre' ++ [e] ∧ (a.noCredit = true ∨ ∃ e ∈ pre', CreditRefused e) ∨
          ∃ header, pre = pre' ++ [e] ++ [⟨.addEntropy header buf, .error eperm⟩])) ∧
    (∀ pre ans post, w'.trace = pre ++ ⟨.reseedCrng, ans⟩ :: post →
      (∃ pre' header buf, pre = pre' ++ [⟨.addEntropy header buf, .ok ()⟩]) ∧
      a.noReseed = false ∧ ∀ e ∈ pre, ¬ ReseedRefused e) ∧
    (w'.trace.map creditedBits).sum = 8 * a.nbytes * w'.trace.countP Credited ∧
    (w'.trace.map creditedBits).sum ≤ 8 * (w'.trace.map freshBytes).sum := by
  obtain ⟨_, hn⟩ := parse_nbytes hparse
  have hholds : Holds a y w'.trace := by
    refine hrun.keeps (I := fun y (v : ToolWorld H) => Holds a y v.trace) ?_
      fun s v y v' hs h => seedStep_holds hn hs h
    rw [hstart]
    exact inv_start a
  have hlawful : Lawful (Legal a) w'.trace := by
    cases y with
    | inl s => exact hholds.lawful
    | inr _ => exact hholds
  exact ⟨fun pre header buf ans post h => hlawful pre _ post h,
    fun pre buf ans post h => hlawful pre _ post h, fun pre ans post h => hlawful pre _ post h,
    credited_sum hlawful, (credited_le hlawful).1⟩

/-- A module and a kernel that do what they are asked, but for the reseed. -/
def willing : ToolHost Unit where
  answer
    | .generateRandom n, e => ((ckrOk, Vector.replicate n 7), e)
    | .signalCount, e => (0, e)
    | .addEntropy _ _, e => (.ok (), e)
    | .reseedCrng, e => (.error eperm, e)
    | .writeRandom buf, e => (.ok buf.length, e)
    | .writeOut buf, e => (.ok ⟨buf.length, Nat.lt_succ_self _⟩, e)
    | .now, e => (0, e)
    | .sleep _, e => ((), e)

/-- The arguments of a seeder that is given only its module. -/
def plainArgs : Args := ⟨defaultInterval, defaultNbytes, false, false, false, "p11rand.so"⟩

theorem parse_plain :
    parse (fun _ => none) ["p11rand-seed", "p11rand.so"] = .ok plainArgs := rfl

theorem seedStep_willing : ∃ y w', seedStep willing (.start plainArgs) ⟨(), []⟩ = some (y, w') ∧
    w'.trace.countP Credited = 1 := by
  refine ⟨_, _, rfl, ?_⟩
  decide

theorem crediting_willing : ∃ w' : ToolWorld Unit, w'.trace.countP Credited = 1 ∧
    (w'.trace.map creditedBits).sum = 8 * (64 : Nat) * (1 : Nat) ∧
    (w'.trace.map creditedBits).sum ≤ 8 * (w'.trace.map freshBytes).sum := by
  obtain ⟨y, w', hstep, hcount⟩ := seedStep_willing
  obtain ⟨_, _, _, hsum, hle⟩ := crediting parse_plain (w := ⟨(), []⟩) rfl
    (.step rfl hstep (.idle rfl))
  rw [hcount] at hsum
  exact ⟨w', hcount, hsum, hle⟩

end P11Rand.Tools.Seed
