import P11Rand.Fields
import P11Rand.Tools.Read

/-! Standard output as a tool has it: the line-buffered writer that std puts over file descriptor
1. -/
namespace P11Rand.Tools.Stdout

open Effect Run

/-- What the buffer holds. -/
def capacity : Nat := 1024

def newline : UInt8 := 10

def ebadf : Nat := 9

/-- The descriptor, in a world with everything else, under the buffer. -/
structure Console (H : Type) where
  below : ToolWorld H
  buf : List UInt8

variable {H α : Type}

def under (x : Run (ToolWorld H) α) : Run (Console H) α := fun c =>
  (x c.below).map fun p => (p.1, { c with below := p.2 })

/-- `handle_ebadf`: a descriptor that is not open takes everything. -/
def handleEbadf (bytes : List UInt8) :
    Except IoError (Fin (bytes.length + 1)) → Except IoError Nat
  | .ok n => .ok n
  | .error e => if e = .other ebadf then .ok bytes.length else .error e

/-- `StdoutRaw::write`. -/
def rawWrite (P : ToolHost H) (bytes : List UInt8) : Run (Console H) (Except IoError Nat) := do
  let ans ← under (ask P (.writeOut bytes))
  return handleEbadf bytes ans

/-- One pass through the loop of `flush_buf`. -/
def flushStep (P : ToolHost H) (_ : Unit) : Run (Console H) (Unit ⊕ Except IoError Unit) := do
  let c ← get
  if c.buf.isEmpty then
    return .inr (.ok ())
  match ← rawWrite P c.buf with
  | .ok n =>
    if n = 0 then
      return .inr (.error .writeZero)
    modify fun c => { c with buf := c.buf.drop n }
    return .inl ()
  | .error .interrupted => return .inl ()
  | .error e => return .inr (.error e)

def flushBuf (P : ToolHost H) : Run (Console H) (Except IoError Unit) := loop (flushStep P) ()

/-- `flush_buf()?`, and what comes after it. -/
def flushThen (P : ToolHost H) (next : Run (Console H) (Except IoError α)) :
    Run (Console H) (Except IoError α) := do
  match ← flushBuf P with
  | .error e => return .error e
  | .ok () => next

def push (bytes : List UInt8) : Run (Console H) Unit :=
  modify fun c => { c with buf := c.buf ++ bytes }

/-- `write_to_buf`: as much as there is room for. -/
def writeToBuf (bytes : List UInt8) : Run (Console H) Nat := do
  let c ← get
  let amount := min (capacity - c.buf.length) bytes.length
  push (bytes.take amount)
  return amount

/-- The end of `write_cold`. -/
def bufWriteLarge (P : ToolHost H) (bytes : List UInt8) : Run (Console H) (Except IoError Nat) :=
  if bytes.length ≥ capacity then rawWrite P bytes
  else do
    push bytes
    return .ok bytes.length

/-- `BufWriter::write`. -/
def bufWrite (P : ToolHost H) (bytes : List UInt8) : Run (Console H) (Except IoError Nat) := do
  let c ← get
  if bytes.length < capacity - c.buf.length then
    push bytes
    return .ok bytes.length
  else if bytes.length > capacity - c.buf.length then flushThen P (bufWriteLarge P bytes)
  else bufWriteLarge P bytes

/-- What `LineWriterShim::write` buffers when `flushed` bytes went out of `bytes`, whose full lines
are the first `lines` bytes. -/
def tailOf (bytes : List UInt8) (lines flushed : Nat) : Option (List UInt8) :=
  if flushed ≥ lines then
    if bytes.length - flushed ≥ capacity then none else some (bytes.drop flushed)
  else if lines - flushed ≤ capacity then some ((bytes.take lines).drop flushed)
  else
    let scanArea := (bytes.drop flushed).take capacity
    match rposition (· == newline) scanArea with
    | some i => some (scanArea.take (i + 1))
    | none => some scanArea

/-- `LineWriterShim::write` from its own write on. -/
def writeLines (P : ToolHost H) (bytes : List UInt8) (lines : Nat) :
    Run (Console H) (Except IoError Nat) := do
  match ← rawWrite P (bytes.take lines) with
  | .error e => return .error e
  | .ok flushed =>
    if flushed = 0 then
      return .ok 0
    match tailOf bytes lines flushed with
    | none => return .ok flushed
    | some tail =>
      let buffered ← writeToBuf tail
      return .ok (flushed + buffered)

/-- `flush_if_completed_line()?`, and what comes after it. -/
def flushLineThen (P : ToolHost H) (next : Run (Console H) (Except IoError α)) :
    Run (Console H) (Except IoError α) := do
  let c ← get
  if c.buf.getLast? = some newline then flushThen P next else next

/-- `LineWriterShim::write`. -/
def lineWrite (P : ToolHost H) (bytes : List UInt8) : Run (Console H) (Except IoError Nat) :=
  match rposition (· == newline) bytes with
  | none => flushLineThen P (bufWrite P bytes)
  | some i => flushThen P (writeLines P bytes (i + 1))

/-- One pass through the loop of the descriptor's `write_all`. -/
def rawWriteAllStep (P : ToolHost H) (bytes : List UInt8) :
    Run (Console H) (List UInt8 ⊕ Except IoError Unit) := do
  if bytes.isEmpty then
    return .inr (.ok ())
  match ← rawWrite P bytes with
  | .ok n => return if n = 0 then .inr (.error .writeZero) else .inl (bytes.drop n)
  | .error .interrupted => return .inl bytes
  | .error e => return .inr (.error e)

/-- `StdoutRaw::write_all`: for a descriptor that is not open it ends at once. -/
def rawWriteAll (P : ToolHost H) (bytes : List UInt8) : Run (Console H) (Except IoError Unit) :=
  loop (rawWriteAllStep P) bytes

/-- The end of `write_all_cold`. -/
def bufWriteAllLarge (P : ToolHost H) (bytes : List UInt8) :
    Run (Console H) (Except IoError Unit) :=
  if bytes.length ≥ capacity then rawWriteAll P bytes
  else do
    push bytes
    return .ok ()

/-- `BufWriter::write_all`. -/
def bufWriteAll (P : ToolHost H) (bytes : List UInt8) : Run (Console H) (Except IoError Unit) := do
  let c ← get
  if bytes.length < capacity - c.buf.length then
    push bytes
    return .ok ()
  else if bytes.length > capacity - c.buf.length then flushThen P (bufWriteAllLarge P bytes)
  else bufWriteAllLarge P bytes

/-- How `LineWriterShim::write_all` writes full lines. -/
def writeAllLines (P : ToolHost H) (lines : List UInt8) :
    Run (Console H) (Except IoError Unit) := do
  let c ← get
  if c.buf.isEmpty then rawWriteAll P lines
  else
    match ← bufWriteAll P lines with
    | .error e => return .error e
    | .ok () => flushBuf P

/-- `LineWriterShim::write_all`. -/
def lineWriteAll (P : ToolHost H) (bytes : List UInt8) : Run (Console H) (Except IoError Unit) :=
  match rposition (· == newline) bytes with
  | none => flushLineThen P (bufWriteAll P bytes)
  | some i => do
    match ← writeAllLines P (bytes.take (i + 1)) with
    | .error e => return .error e
    | .ok () => bufWriteAll P (bytes.drop (i + 1))

/-- The bytes that std counts as written. -/
def taken : ToolReply → List UInt8
  | ⟨.writeOut buf, .ok n⟩ => buf.take n
  | ⟨.writeOut buf, .error e⟩ => if e = .other ebadf then buf else []
  | _ => []

/-- The bytes of a write. -/
def offered : ToolReply → List UInt8
  | ⟨.writeOut buf, _⟩ => buf
  | _ => []

def IsWrite : ToolReply → Prop
  | ⟨.writeOut _, _⟩ => True
  | _ => False

/-- A write that puts nothing out and is not simply made again. -/
def Fails : ToolReply → Prop
  | ⟨.writeOut _, .ok n⟩ => n.val = 0
  | ⟨.writeOut _, .error e⟩ => e ≠ .interrupted
  | _ => False

/-- A write to a descriptor that is not open. -/
def Closed : ToolReply → Prop
  | ⟨.writeOut _, .error e⟩ => e = .other ebadf
  | _ => False

def Piped : ToolReply → Prop
  | ⟨.writeOut _, .error e⟩ => e = .brokenPipe
  | _ => False

/-- The failures that std passes on. -/
def Reported (e : ToolReply) : Prop := Fails e ∧ ¬ Closed e

def Good (fs : List ToolReply) : Prop := ∀ e ∈ fs, ¬ Reported e

section Laws

variable {P : ToolHost H} {c c' c₁ : Console H} {e : ToolReply} {es fs gs : List ToolReply}
  {bytes more rest : List UInt8} {err : IoError} {n : Nat}

theorem under_eq_some {x : Run (ToolWorld H) α} {a : α} : under x c = some (a, c') ↔
    ∃ v, x c.below = some (a, v) ∧ c' = { c with below := v } := by
  simp [under, eq_comm]

theorem good_append : Good (fs ++ gs) ↔ Good fs ∧ Good gs := List.forall_mem_append

/-- Of `all`, the writes in `fs` put out what comes before `rest`. -/
structure Drained (all : List UInt8) (fs : List ToolReply) (rest : List UInt8) : Prop where
  writes : ∀ e ∈ fs, IsWrite e ∧ offered e ≠ []
  carried : fs.flatMap taken ++ rest = all

theorem drained_refl : Drained rest [] rest := ⟨by simp, by simp⟩

/-- What `fs` put out, and what is in the buffer then, is what was in the buffer and `bytes`. -/
structure Wrote (c c' : Console H) (fs : List ToolReply) (bytes : List UInt8) : Prop where
  trace : c'.below.trace = c.below.trace ++ fs
  drained : Drained (c.buf ++ bytes) fs c'.buf

theorem wrote_refl : Wrote c c [] [] := ⟨by simp, by simpa using drained_refl⟩

theorem Wrote.trans (h : Wrote c c₁ fs bytes) (h' : Wrote c₁ c' gs more) :
    Wrote c c' (fs ++ gs) (bytes ++ more) := by
  refine ⟨by rw [h'.trace, h.trace, List.append_assoc],
    List.forall_mem_append.mpr ⟨h.drained.writes, h'.drained.writes⟩, ?_⟩
  rw [List.flatMap_append, List.append_assoc, h'.drained.carried, ← List.append_assoc,
    h.drained.carried, List.append_assoc]

theorem wrote_push (bytes : List UInt8) : Wrote c { c with buf := c.buf ++ bytes } [] bytes :=
  ⟨by simp, drained_refl⟩

/-- What a single write answers. -/
def Answers (bytes : List UInt8) (e : ToolReply) : Except IoError Nat → Prop
  | .ok n => n ≤ bytes.length ∧ taken e = bytes.take n ∧ (Reported e ↔ n = 0)
  | .error err => taken e = [] ∧ (Reported e ↔ err ≠ .interrupted) ∧ (err = .brokenPipe → Piped e)

theorem rawWrite_answers {res : Except IoError Nat} (hne : bytes ≠ [])
    (h : rawWrite P bytes c = some (res, c')) : ∃ e, c'.buf = c.buf ∧
      c'.below.trace = c.below.trace ++ [e] ∧ IsWrite e ∧ offered e = bytes ∧
      Answers bytes e res := by
  obtain ⟨ans, v, hq, h⟩ := bind_eq_some.mp h
  obtain ⟨below, hask, rfl⟩ := under_eq_some.mp hq
  cases h
  refine ⟨⟨.writeOut bytes, ans⟩, rfl, ask_trace hask, trivial, rfl, ?_⟩
  cases ans with
  | ok n =>
    refine ⟨by omega, rfl, ?_⟩
    simp [Reported, Fails, Closed]
  | error err =>
    by_cases herr : err = .other ebadf
    · subst herr
      refine ⟨le_rfl, by simp [taken], ?_⟩
      simpa [Reported, Closed] using hne
    · rw [handleEbadf, if_neg herr]
      refine ⟨if_neg herr, ?_, id⟩
      simp [Reported, Fails, Closed, herr]

/-- A failure that is passed on: the last of the writes, and what it was to put out is left. -/
structure Stopped (err : IoError) (rest : List UInt8) (fs : List ToolReply) : Prop where
  final : err ≠ .interrupted
  left : rest ≠ []
  last : ∃ pre e, fs = pre ++ [e] ∧ Good pre ∧ Reported e ∧ offered e = rest
  piped : err = .brokenPipe → ∃ e ∈ fs, Piped e

theorem Stopped.after (h : Stopped err rest gs) (hfs : Good fs) : Stopped err rest (fs ++ gs) := by
  obtain ⟨pre, e, rfl, hpre, he, hrest⟩ := h.last
  refine ⟨h.final, h.left,
    ⟨fs ++ pre, e, by simp, good_append.mpr ⟨hfs, hpre⟩, he, hrest⟩, fun hp => ?_⟩
  obtain ⟨f, hf, hpipe⟩ := h.piped hp
  exact ⟨f, List.mem_append_right _ hf, hpipe⟩

/-- How far flushing came. -/
def Flushes (c c' : Console H) (fs : List ToolReply) (res : Except IoError Unit) : Prop :=
  Wrote c c' fs [] ∧
    match res with
    | .ok _ => c'.buf = [] ∧ Good fs
    | .error err => Stopped err c'.buf fs

/-- A loop that writes `rest` out, after one more write. -/
def Goes (all : List UInt8) (fs : List ToolReply) (rest : List UInt8) (e : ToolReply) :
    Except IoError Nat → Prop
  | .ok n => Drained all (fs ++ [e]) (rest.drop n) ∧
      if n = 0 then Stopped .writeZero rest (fs ++ [e]) else Good (fs ++ [e])
  | .error err => Drained all (fs ++ [e]) rest ∧
      if err = .interrupted then Good (fs ++ [e]) else Stopped err rest (fs ++ [e])

theorem Drained.goes {all : List UInt8} {res : Except IoError Nat} (h : Drained all fs rest)
    (hgood : Good fs) (hne : rest ≠ []) (hwrite : IsWrite e) (hoff : offered e = rest)
    (hans : Answers rest e res) : Goes all fs rest e res := by
  have hwrites : ∀ f ∈ fs ++ [e], IsWrite f ∧ offered f ≠ [] :=
    List.forall_mem_append.mpr ⟨h.writes, List.forall_mem_singleton.mpr ⟨hwrite, hoff ▸ hne⟩⟩
  have hgood' (hrep : ¬ Reported e) : Good (fs ++ [e]) :=
    good_append.mpr ⟨hgood, List.forall_mem_singleton.mpr hrep⟩
  cases res with
  | ok n =>
    obtain ⟨_, htaken, hrep⟩ := hans
    refine ⟨⟨hwrites, ?_⟩, ?_⟩
    · rw [List.flatMap_append, List.flatMap_singleton, htaken, List.append_assoc,
        List.take_append_drop]
      exact h.carried
    · split
      · rename_i hzero
        exact ⟨nofun, hne, ⟨fs, e, rfl, hgood, hrep.mpr hzero, hoff⟩, nofun⟩
      · rename_i hnz
        exact hgood' (mt hrep.mp hnz)
  | error err =>
    obtain ⟨htaken, hrep, hpipe⟩ := hans
    refine ⟨⟨hwrites, ?_⟩, ?_⟩
    · rw [List.flatMap_append, List.flatMap_singleton, htaken, List.append_nil]
      exact h.carried
    · split
      · rename_i hint
        exact hgood' fun h => hrep.mp h hint
      · rename_i hfinal
        exact ⟨hfinal, hne, ⟨fs, e, rfl, hgood, hrep.mpr hfinal, hoff⟩,
          fun hp => ⟨e, by simp, hpipe hp⟩⟩

def Flushing (c : Console H) : Unit ⊕ Except IoError Unit → Console H → Prop
  | .inl _, v => ∃ fs, Wrote c v fs [] ∧ Good fs
  | .inr res, v => ∃ fs, Flushes c v fs res

theorem flushStep_flushing {y : Unit ⊕ Except IoError Unit} (hc : Flushing c (.inl ()) c₁)
    (h : flushStep P () c₁ = some (y, c')) : Flushing c y c' := by
  obtain ⟨fs, hw, hgood⟩ := hc
  obtain ⟨b, v, hget, h⟩ := bind_eq_some.mp h
  cases hget
  split at h
  · rename_i hnil
    cases h
    exact ⟨fs, hw, by simpa using hnil, hgood⟩
  rename_i hne
  have hne : c₁.buf ≠ [] := by simpa using hne
  obtain ⟨res, v, hraw, h⟩ := bind_eq_some.mp h
  obtain ⟨e, hbuf, htrace, hwrite, hoff, hans⟩ := rawWrite_answers hne hraw
  have hgo := hw.drained.goes hgood hne hwrite hoff hans
  rw [hw.trace, List.append_assoc] at htrace
  cases res with
  | ok n =>
    obtain ⟨hd, hn⟩ := hgo
    dsimp only at h
    split at h
    · rename_i hzero
      cases h
      rw [hzero, List.drop_zero, ← hbuf] at hd
      rw [if_pos hzero, ← hbuf] at hn
      exact ⟨fs ++ [e], ⟨htrace, hd⟩, hn⟩
    · rename_i hnz
      cases h
      rw [← hbuf] at hd
      rw [if_neg hnz] at hn
      exact ⟨fs ++ [e], ⟨htrace, hd⟩, hn⟩
  | error err =>
    obtain ⟨hd, hn⟩ := hgo
    rw [← hbuf] at hd hn
    cases err with
    | interrupted =>
      cases h
      exact ⟨fs ++ [e], ⟨htrace, hd⟩, hn⟩
    | _ =>
      cases h
      exact ⟨fs ++ [e], ⟨htrace, hd⟩, hn⟩

theorem flushBuf_flushes {res : Except IoError Unit} (h : flushBuf P c = some (res, c')) :
    ∃ fs, Flushes c c' fs res := by
  exact loop_keeps (Flushing c) h ⟨[], wrote_refl, by simp [Good]⟩
    fun _ v y v' hI hs => flushStep_flushing hI hs

theorem flushThen_cases {next : Run (Console H) (Except IoError α)} {res : Except IoError α}
    (h : flushThen P next c = some (res, c')) :
    (∃ err fs, res = .error err ∧ Wrote c c' fs [] ∧ Stopped err c'.buf fs) ∨
      ∃ c₁ fs, Wrote c c₁ fs [] ∧ c₁.buf = [] ∧ Good fs ∧ next c₁ = some (res, c') := by
  obtain ⟨flushed, v, hflush, h⟩ := bind_eq_some.mp h
  obtain ⟨fs, hw, hres⟩ := flushBuf_flushes hflush
  cases flushed with
  | error err =>
    cases h
    exact .inl ⟨err, fs, rfl, hw, hres⟩
  | ok _ => exact .inr ⟨v, fs, hw, hres.1, hres.2, h⟩

/-- What a write to the buffered output comes to. -/
def Takes (bytes : List UInt8) (c c' : Console H) (fs : List ToolReply) :
    Except IoError Nat → Prop
  | .ok n => n ≤ bytes.length ∧ Wrote c c' fs (bytes.take n) ∧ (0 < n → Good fs)
  | .error err => Wrote c c' fs [] ∧ (err = .interrupted → Good fs) ∧
      (err = .brokenPipe → ∃ e ∈ fs, Piped e)

theorem takes_of_stopped (hw : Wrote c c' fs []) (h : Stopped err c'.buf fs) :
    Takes bytes c c' fs (.error err) := ⟨hw, fun herr => absurd herr h.final, h.piped⟩

theorem Takes.after {res : Except IoError Nat} (h : Takes bytes c₁ c' gs res)
    (hw : Wrote c c₁ fs []) (hfs : Good fs) : Takes bytes c c' (fs ++ gs) res := by
  cases res with
  | ok n =>
    obtain ⟨hn, hw', hgood⟩ := h
    exact ⟨hn, hw.trans hw', fun hpos => good_append.mpr ⟨hfs, hgood hpos⟩⟩
  | error err =>
    obtain ⟨hw', hgood, hpipe⟩ := h
    refine ⟨hw.trans hw', fun herr => good_append.mpr ⟨hfs, hgood herr⟩, fun herr => ?_⟩
    obtain ⟨e, he, hp⟩ := hpipe herr
    exact ⟨e, List.mem_append_right _ he, hp⟩

theorem push_takes :
    Takes bytes c { c with buf := c.buf ++ bytes } [] (.ok bytes.length) := by
  refine ⟨le_rfl, ?_, fun _ => by simp [Good]⟩
  rw [List.take_length]
  exact wrote_push bytes

/-- Past an empty buffer a write goes straight to the descriptor. -/
theorem rawWrite_takes {res : Except IoError Nat} (hne : bytes ≠ []) (hempty : c.buf = [])
    (h : rawWrite P bytes c = some (res, c')) :
    c'.buf = [] ∧ ∃ fs, Takes bytes c c' fs res := by
  obtain ⟨e, hbuf, htrace, hwrite, hoff, hans⟩ := rawWrite_answers hne h
  have hwrite' : ∀ f ∈ [e], IsWrite f ∧ offered f ≠ [] :=
    List.forall_mem_singleton.mpr ⟨hwrite, hoff ▸ hne⟩
  refine ⟨hbuf.trans hempty, [e], ?_⟩
  cases res with
  | ok n =>
    obtain ⟨hn, htaken, hrep⟩ := hans
    refine ⟨hn, ⟨htrace, hwrite', by simp [htaken, hbuf, hempty]⟩, fun hpos => ?_⟩
    exact List.forall_mem_singleton.mpr fun h => hpos.ne' (hrep.mp h)
  | error err =>
    obtain ⟨htaken, hrep, hpipe⟩ := hans
    refine ⟨⟨htrace, hwrite', by simp [htaken, hbuf]⟩, ?_, fun hp => ⟨e, by simp, hpipe hp⟩⟩
    rintro rfl
    exact List.forall_mem_singleton.mpr fun h => hrep.mp h rfl

theorem bufWriteLarge_takes {res : Except IoError Nat}
    (hc : capacity ≤ bytes.length → c.buf = [])
    (h : bufWriteLarge P bytes c = some (res, c')) : ∃ fs, Takes bytes c c' fs res := by
  unfold bufWriteLarge at h
  split at h
  · rename_i hlarge
    have hne : bytes ≠ [] := by
      rintro rfl
      cases hlarge
    exact (rawWrite_takes hne (hc hlarge) h).2
  · cases h
    exact ⟨[], push_takes⟩

theorem bufWrite_takes {res : Except IoError Nat} (h : bufWrite P bytes c = some (res, c')) :
    ∃ fs, Takes bytes c c' fs res := by
  obtain ⟨b, v, hget, h⟩ := bind_eq_some.mp h
  cases hget
  split at h
  · cases h
    exact ⟨[], push_takes⟩
  split at h
  · obtain ⟨err, fs, rfl, hw, hstop⟩ | ⟨c₁, fs, hw, hempty, hfs, h⟩ := flushThen_cases h
    · exact ⟨fs, takes_of_stopped hw hstop⟩
    · obtain ⟨gs, hs⟩ := bufWriteLarge_takes (fun _ => hempty) h
      exact ⟨fs ++ gs, hs.after hw hfs⟩
  · refine bufWriteLarge_takes (fun hlarge => ?_) h
    rw [← List.length_eq_zero_iff]
    unfold capacity at *
    omega

/-- The part that is buffered comes right after the part that went out. -/
theorem tailOf_prefix {lines flushed : Nat} (h : tailOf bytes lines flushed = some rest) :
    rest <+: bytes.drop flushed := by
  unfold tailOf at h
  split at h
  · split at h
    · cases h
    · cases h
      exact List.prefix_refl _
  split at h
  · cases h
    rw [List.drop_take]
    exact List.take_prefix _ _
  · dsimp only at h
    split at h
    · cases h
      exact (List.take_prefix _ _).trans (List.take_prefix _ _)
    · cases h
      exact List.take_prefix _ _

theorem writeToBuf_eq (h : writeToBuf bytes c = some (n, c')) :
    n ≤ bytes.length ∧ c' = { c with buf := c.buf ++ bytes.take n } := by
  obtain ⟨b, v, hget, h⟩ := bind_eq_some.mp h
  cases hget
  cases h
  exact ⟨Nat.min_le_right _ _, rfl⟩

theorem writeLines_takes {res : Except IoError Nat} {lines : Nat} (hpos : 0 < lines)
    (hle : lines ≤ bytes.length) (hempty : c.buf = [])
    (h : writeLines P bytes lines c = some (res, c')) : ∃ fs, Takes bytes c c' fs res := by
  obtain ⟨flushed, v, hraw, h⟩ := bind_eq_some.mp h
  have hlen : (bytes.take lines).length = lines := by
    rw [List.length_take]
    omega
  have hne : bytes.take lines ≠ [] := by
    rw [← List.length_pos_iff, hlen]
    exact hpos
  obtain ⟨hbuf, fs, hs⟩ := rawWrite_takes hne hempty hraw
  cases flushed with
  | error err =>
    cases h
    exact ⟨fs, hs⟩
  | ok n =>
    obtain ⟨hn, hw, hgood⟩ := hs
    rw [hlen] at hn
    rw [List.take_take, min_eq_left hn] at hw
    dsimp only at h
    split at h
    · rename_i hzero
      cases h
      subst hzero
      exact ⟨fs, Nat.zero_le _, hw, nofun⟩
    rename_i hnz
    cases htail : tailOf bytes lines n with
    | none =>
      rw [htail] at h
      cases h
      exact ⟨fs, by omega, hw, hgood⟩
    | some tail =>
      rw [htail] at h
      obtain ⟨k, v', hbuffer, h⟩ := bind_eq_some.mp h
      cases h
      obtain ⟨hk, rfl⟩ := writeToBuf_eq hbuffer
      obtain ⟨suffix, hsuffix⟩ := tailOf_prefix htail
      have hlentail := congrArg List.length hsuffix
      rw [List.length_append, List.length_drop] at hlentail
      have hpush := hw.trans (wrote_push (tail.take k))
      have htake : tail.take k = (bytes.drop n).take k := by
        rw [← hsuffix, List.take_append_of_le_length hk]
      rw [List.append_nil, htake, ← List.take_add] at hpush
      exact ⟨fs, by omega, htake ▸ hpush, fun _ => hgood (Nat.pos_of_ne_zero hnz)⟩

/-- What `write` answers is what it took over. -/
theorem lineWrite_takes {res : Except IoError Nat} (h : lineWrite P bytes c = some (res, c')) :
    ∃ fs, Takes bytes c c' fs res := by
  unfold lineWrite at h
  cases hpos : rposition (· == newline) bytes with
  | none =>
    rw [hpos] at h
    obtain ⟨b, v, hget, h⟩ := bind_eq_some.mp h
    cases hget
    split at h
    · obtain ⟨err, fs, rfl, hw, hstop⟩ | ⟨c₁, fs, hw, hempty, hfs, h⟩ := flushThen_cases h
      · exact ⟨fs, takes_of_stopped hw hstop⟩
      · obtain ⟨gs, hs⟩ := bufWrite_takes h
        exact ⟨fs ++ gs, hs.after hw hfs⟩
    · exact bufWrite_takes h
  | some i =>
    rw [hpos] at h
    obtain ⟨err, fs, rfl, hw, hstop⟩ | ⟨c₁, fs, hw, hempty, hfs, h⟩ := flushThen_cases h
    · exact ⟨fs, takes_of_stopped hw hstop⟩
    · obtain ⟨gs, hs⟩ := writeLines_takes (Nat.succ_pos i) (rposition_lt hpos) hempty h
      exact ⟨fs ++ gs, hs.after hw hfs⟩

/-- The writes of `write_all` go past the buffer. -/
def Draining (all : List UInt8) (c : Console H) (y : List UInt8 ⊕ Except IoError Unit)
    (v : Console H) : Prop :=
  ∃ fs rest, v.buf = c.buf ∧ v.below.trace = c.below.trace ++ fs ∧ Drained all fs rest ∧
    match y with
    | .inl rest' => rest' = rest ∧ Good fs
    | .inr (.ok _) => rest = [] ∧ Good fs
    | .inr (.error err) => Stopped err rest fs

theorem rawWriteAllStep_draining {all : List UInt8} {y : List UInt8 ⊕ Except IoError Unit}
    (hc : Draining all c (.inl bytes) c₁) (h : rawWriteAllStep P bytes c₁ = some (y, c')) :
    Draining all c y c' := by
  obtain ⟨fs, rest, hbuf, htrace, hd, rfl, hgood⟩ := hc
  unfold rawWriteAllStep at h
  split at h
  · rename_i hnil
    cases h
    exact ⟨fs, _, hbuf, htrace, hd, by simpa using hnil, hgood⟩
  rename_i hne
  have hne : bytes ≠ [] := by simpa using hne
  obtain ⟨res, v, hraw, h⟩ := bind_eq_some.mp h
  obtain ⟨e, hbuf', htrace', hwrite, hoff, hans⟩ := rawWrite_answers hne hraw
  have hgo := hd.goes hgood hne hwrite hoff hans
  rw [htrace, List.append_assoc] at htrace'
  rw [hbuf] at hbuf'
  cases res with
  | ok n =>
    obtain ⟨hd, hn⟩ := hgo
    cases h
    split
    · rename_i hzero
      rw [hzero, List.drop_zero] at hd
      rw [if_pos hzero] at hn
      exact ⟨fs ++ [e], _, hbuf', htrace', hd, hn⟩
    · rename_i hnz
      rw [if_neg hnz] at hn
      exact ⟨fs ++ [e], _, hbuf', htrace', hd, rfl, hn⟩
  | error err =>
    obtain ⟨hd, hn⟩ := hgo
    cases err with
    | interrupted =>
      cases h
      exact ⟨fs ++ [e], _, hbuf', htrace', hd, rfl, hn⟩
    | _ =>
      cases h
      exact ⟨fs ++ [e], _, hbuf', htrace', hd, hn⟩

theorem rawWriteAll_draining {res : Except IoError Unit}
    (h : rawWriteAll P bytes c = some (res, c')) : Draining bytes c (.inr res) c' := by
  exact loop_keeps (Draining bytes c) h
    ⟨[], bytes, rfl, by simp, drained_refl, rfl, by simp [Good]⟩
    fun _ v y v' hI hs => rawWriteAllStep_draining hI hs

/-- The newline is out or in the buffer. One failure may have been passed on, and the newline is
then still to come. -/
def NewlineKept (c c' : Console H) (fs : List ToolReply) : Prop :=
  Wrote c c' fs [newline] ∧ (Good fs ∨ ∃ err, Stopped err c'.buf fs)

/-- A failure was passed on before the newline reached the buffer. -/
def NewlineLost (c c' : Console H) (fs : List ToolReply) : Prop :=
  ∃ err rest, Stopped err rest fs ∧ Wrote c c' fs [] ∧ (c'.buf = rest ∨ c'.buf = [])

theorem bufWriteAllLarge_newline {res : Except IoError Unit}
    (h : bufWriteAllLarge P [newline] c = some (res, c')) :
    res = .ok () ∧ c' = { c with buf := c.buf ++ [newline] } := by
  unfold bufWriteAllLarge at h
  rw [if_neg (by decide)] at h
  cases h
  exact ⟨rfl, rfl⟩

theorem bufWriteAll_newline {res : Except IoError Unit}
    (h : bufWriteAll P [newline] c = some (res, c')) :
    (∃ err fs, res = .error err ∧ Wrote c c' fs [] ∧ Stopped err c'.buf fs) ∨
      ∃ fs, res = .ok () ∧ Wrote c c' fs [newline] ∧ Good fs := by
  obtain ⟨b, v, hget, h⟩ := bind_eq_some.mp h
  cases hget
  split at h
  · cases h
    exact .inr ⟨[], rfl, wrote_push _, by simp [Good]⟩
  split at h
  · obtain ⟨err, fs, rfl, hw, hstop⟩ | ⟨c₁, fs, hw, hempty, hfs, h⟩ := flushThen_cases h
    · exact .inl ⟨err, fs, rfl, hw, hstop⟩
    · obtain ⟨rfl, rfl⟩ := bufWriteAllLarge_newline h
      refine .inr ⟨fs, rfl, ?_, hfs⟩
      simpa using hw.trans (wrote_push [newline])
  · obtain ⟨rfl, rfl⟩ := bufWriteAllLarge_newline h
    exact .inr ⟨[], rfl, wrote_push _, by simp [Good]⟩

theorem writeAllLines_newline {res : Except IoError Unit}
    (h : writeAllLines P [newline] c = some (res, c')) :
    ∃ fs, NewlineKept c c' fs ∨ NewlineLost c c' fs := by
  obtain ⟨b, v, hget, h⟩ := bind_eq_some.mp h
  cases hget
  split at h
  · rename_i hnil
    have hnil : c.buf = [] := by simpa using hnil
    obtain ⟨fs, rest, hbuf, htrace, hd, hres⟩ := rawWriteAll_draining h
    rw [hnil] at hbuf
    cases res with
    | ok _ =>
      obtain ⟨rfl, hgood⟩ := hres
      exact ⟨fs, .inl ⟨⟨htrace, by rwa [hnil, hbuf]⟩, .inl hgood⟩⟩
    | error err =>
      have hnone : fs.flatMap taken = [] := by
        have hlen := congrArg List.length hd.carried
        have hpos := List.length_pos_iff.mpr hres.left
        rw [List.length_append, List.length_singleton] at hlen
        rw [← List.length_eq_zero_iff]
        omega
      refine ⟨fs, .inr ⟨err, rest, hres, ⟨htrace, hd.writes, ?_⟩, .inr hbuf⟩⟩
      rw [hnone, hbuf, hnil]
  · obtain ⟨res', v, hbuffer, h⟩ := bind_eq_some.mp h
    obtain ⟨err, fs, rfl, hw, hstop⟩ | ⟨fs, rfl, hw, hgood⟩ := bufWriteAll_newline hbuffer
    · cases h
      exact ⟨fs, .inr ⟨err, _, hstop, hw, .inl rfl⟩⟩
    · obtain ⟨gs, hw', hres⟩ := flushBuf_flushes h
      refine ⟨fs ++ gs, .inl ⟨by simpa using hw.trans hw', ?_⟩⟩
      cases res with
      | ok _ => exact .inl (good_append.mpr ⟨hgood, hres.2⟩)
      | error err => exact .inr ⟨err, hres.after hgood⟩

theorem bufWriteAll_nil {res : Except IoError Unit} (h : bufWriteAll P [] c = some (res, c')) :
    c' = c := by
  obtain ⟨b, v, hget, h⟩ := bind_eq_some.mp h
  cases hget
  split at h
  · cases h
    simp
  · rw [if_neg (by simp), bufWriteAllLarge, if_neg (by decide)] at h
    cases h
    simp

theorem lineWriteAll_newline {res : Except IoError Unit}
    (h : lineWriteAll P [newline] c = some (res, c')) :
    ∃ fs, NewlineKept c c' fs ∨ NewlineLost c c' fs := by
  obtain ⟨res', v, hlines, h⟩ := bind_eq_some.mp h
  have hv := writeAllLines_newline hlines
  cases res' with
  | error err =>
    cases h
    exact hv
  | ok _ =>
    rw [bufWriteAll_nil h]
    exact hv

end Laws

end P11Rand.Tools.Stdout
