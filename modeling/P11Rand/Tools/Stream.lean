import P11Rand.Tools.Read

/-! What `p11rand-read` writes, against what the module gave it. -/
namespace P11Rand.Tools.Read

open Effect Run

variable {H : Type} {P : ToolHost H} {w w' v v' : ToolWorld H} {a : Args} {p : Int64} {hex : Bool}
  {es : List ToolReply} {e : ToolReply} {buf rest tail : List UInt8}

/-- The block that a successful call of the module gave. -/
def block : ToolReply → Option (List UInt8)
  | ⟨.generateRandom _, (rv, block)⟩ => if rv = ckrOk then some block.toList else none
  | _ => none

def blocks (es : List ToolReply) : List (List UInt8) := es.filterMap block

def generated (es : List ToolReply) : List UInt8 := (blocks es).flatten

/-- The bytes that the output took. -/
def accepted : ToolReply → List UInt8
  | ⟨.writeOut buf, .ok n⟩ => buf.take n
  | _ => []

def written (es : List ToolReply) : List UInt8 := es.flatMap accepted

/-- The number of bytes that the module was asked for. -/
def requested : ToolReply → Option Nat
  | ⟨.generateRandom n, _⟩ => some n
  | _ => none

def requests (es : List ToolReply) : List Nat := es.filterMap requested

def hexDigit (d : Nat) : UInt8 := UInt8.ofNat (if d < 10 then 48 + d else 87 + d)

/-- Lowercase, the high nibble first. -/
def hexOf (b : UInt8) : List UInt8 := [hexDigit (b.toNat / 16), hexDigit (b.toNat % 16)]

def encode (hex : Bool) (bytes : List UInt8) : List UInt8 :=
  if hex then bytes.flatMap hexOf else bytes

theorem hexTable_getD (d : Nat) (h : d < 16) : hexTable.getD d 0 = hexDigit d := by
  interval_cases d <;> rfl

theorem hexPair_eq (b : UInt8) : hexPair b = hexOf b := by
  have hlt := b.toNat_lt
  have hhigh : (b >>> 4).toNat = b.toNat / 16 := by
    simp [UInt8.toNat_shiftRight, Nat.shiftRight_eq_div_pow]
  have hlow : (b &&& 0xf).toNat = b.toNat % 16 := by
    simp only [UInt8.toNat_and]
    exact Nat.and_two_pow_sub_one_eq_mod b.toNat 4
  rw [hexPair, hhigh, hlow, hexTable_getD _ (by omega), hexTable_getD _ (by omega), hexOf]

theorem encode_append (xs ys : List UInt8) :
    encode hex (xs ++ ys) = encode hex xs ++ encode hex ys := by
  cases hex <;> simp [encode]

theorem encode_eq_nil {xs : List UInt8} (h : encode hex xs = []) : xs = [] := by
  cases hex with
  | false => exact h
  | true =>
    cases xs with
    | nil => rfl
    | cons b xs => cases h

@[simp] theorem blocks_snoc (es : List ToolReply) (e : ToolReply) :
    blocks (es ++ [e]) = blocks es ++ (block e).toList := by
  cases h : block e <;> simp [blocks, h]

@[simp] theorem requests_snoc (es : List ToolReply) (e : ToolReply) :
    requests (es ++ [e]) = requests es ++ (requested e).toList := by
  cases h : requested e <;> simp [requests, h]

@[simp] theorem generated_snoc (es : List ToolReply) (e : ToolReply) :
    generated (es ++ [e]) = generated es ++ (block e).getD [] := by
  cases h : block e <;> simp [generated, h]

@[simp] theorem written_snoc (es : List ToolReply) (e : ToolReply) :
    written (es ++ [e]) = written es ++ accepted e := by
  simp [written]

/-- `rest` is what is still to be written of what was generated. -/
def Pending (hex : Bool) (es : List ToolReply) (rest : List UInt8) : Prop :=
  written es ++ rest = encode hex (generated es)

/-- What has been written is a prefix of the stream, also after `e`. -/
def Legal (hex : Bool) (es : List ToolReply) (e : ToolReply) : Prop :=
  ∃ rest, Pending hex (es ++ [e]) rest

theorem Pending.idle (h : Pending hex es rest) (hb : block e = none) (ha : accepted e = []) :
    Pending hex (es ++ [e]) rest := by
  simpa [Pending, hb, ha] using h

theorem Pending.generate {n : Nat} {b : Vector UInt8 n} (h : Pending hex es []) :
    Pending hex (es ++ [⟨.generateRandom n, (ckrOk, b)⟩]) (encode hex b.toList) := by
  rw [Pending, List.append_nil] at h
  simp [Pending, accepted, block, encode_append, h]

/-- From `w` on there were only writes; `rest` is what they leave of `all`. -/
structure Copies (all : List UInt8) (w v : ToolWorld H) (rest : List UInt8) : Prop where
  left : written v.trace ++ rest = all
  writes : ∃ fs, v.trace = w.trace ++ fs ∧ ∀ e ∈ fs, block e = none ∧ requested e = none

theorem copies_start {all : List UInt8} (h : written w.trace ++ rest = all) :
    Copies all w w rest := ⟨h, [], by simp⟩

theorem Copies.answered {all : List UInt8} {ans : Except IoError (Fin (buf.length + 1))}
    (h : Copies all w v rest) (hq : ask P (.writeOut buf) v = some (ans, v'))
    (hacc : accepted ⟨.writeOut buf, ans⟩ ++ tail = rest) : Copies all w v' tail := by
  obtain ⟨fs, htrace, hfs⟩ := h.writes
  have hv := ask_trace hq
  refine ⟨?_, fs ++ [⟨.writeOut buf, ans⟩], by rw [hv, htrace, List.append_assoc], ?_⟩
  · rw [hv, written_snoc, List.append_assoc, hacc]
    exact h.left
  · rw [List.forall_mem_append, List.forall_mem_singleton]
    exact ⟨hfs, rfl, rfl⟩

theorem Copies.grows {all : List UInt8} (h : Copies all w v rest) :
    written w.trace <+: written v.trace := by
  obtain ⟨fs, htrace, _⟩ := h.writes
  rw [htrace, written, written, List.flatMap_append]
  exact List.prefix_append _ _

theorem Copies.given {all : List UInt8} (h : Copies all w v rest) :
    blocks v.trace = blocks w.trace := by
  obtain ⟨fs, htrace, hfs⟩ := h.writes
  have hnone : fs.filterMap block = [] := List.filterMap_eq_nil_iff.mpr fun e he => (hfs e he).1
  rw [htrace, blocks, List.filterMap_append, hnone, List.append_nil, blocks]

theorem Copies.asked {all : List UInt8} (h : Copies all w v rest) :
    requests v.trace = requests w.trace := by
  obtain ⟨fs, htrace, hfs⟩ := h.writes
  have hnone : fs.filterMap requested = [] :=
    List.filterMap_eq_nil_iff.mpr fun e he => (hfs e he).2
  rw [htrace, requests, List.filterMap_append, hnone, List.append_nil, requests]

/-- While the stream is copied, what has been written stays a prefix of it. -/
theorem Copies.lawful (h : Copies (encode hex (generated w.trace)) w v rest)
    (hw : Lawful (Legal hex) w.trace) : Lawful (Legal hex) v.trace := by
  obtain ⟨fs, htrace, hfs⟩ := h.writes
  have hleft := h.left
  rw [htrace] at hleft ⊢
  clear h htrace
  induction fs using List.reverseRecOn generalizing rest with
  | nil => rwa [List.append_nil]
  | append_singleton fs e ih =>
    rw [← List.append_assoc] at hleft ⊢
    rw [List.forall_mem_append, List.forall_mem_singleton] at hfs
    have hgen : generated (w.trace ++ fs) = generated w.trace := by
      have hnone : fs.filterMap block = [] :=
        List.filterMap_eq_nil_iff.mpr fun e he => (hfs.1 e he).1
      rw [generated, generated, blocks, blocks, List.filterMap_append, hnone, List.append_nil]
    have hleft' : written (w.trace ++ fs) ++ (accepted e ++ rest) =
        encode hex (generated w.trace) := by
      rw [written_snoc, List.append_assoc] at hleft
      exact hleft
    refine lawful_snoc.mpr ⟨ih hfs.1 hleft', rest, ?_⟩
    · rw [Pending, generated_snoc, hfs.2.1, hgen, Option.getD_none, List.append_nil]
      exact hleft

/-- A write that succeeds leaves `tail`; one that fails leaves more. -/
def Leaves (all : List UInt8) (w : ToolWorld H) (tail : List UInt8) :
    Except IoError Unit → ToolWorld H → Prop
  | .ok _, v => Copies all w v tail
  | .error _, v => ∃ rest, rest ≠ [] ∧ Copies all w v (rest ++ tail)

theorem writeFullStep_leaves {all : List UInt8} {y : List UInt8 ⊕ Except IoError Unit}
    (hr : Copies all w v (buf ++ tail)) (h : writeFullStep P buf v = some (y, v')) :
    Sum.elim (fun buf' => Copies all w v' (buf' ++ tail)) (fun res => Leaves all w tail res v')
      y := by
  unfold writeFullStep at h
  split at h
  · rename_i hnil
    obtain rfl : buf = [] := by simpa using hnil
    cases h
    exact hr
  rename_i hne
  have hne : buf ≠ [] := by simpa using hne
  obtain ⟨ans, u, hq, h⟩ := bind_eq_some.mp h
  cases ans with
  | ok n =>
    have hacc : Copies all w u (buf.drop n ++ tail) := by
      apply hr.answered hq
      rw [← List.append_assoc]
      exact congrArg (· ++ tail) (List.take_append_drop n.val buf)
    cases h
    split
    · rename_i hzero
      rw [hzero, List.drop_zero] at hacc
      exact ⟨buf, hne, hacc⟩
    · exact hacc
  | error err =>
    have hidle : Copies all w u (buf ++ tail) := hr.answered hq rfl
    cases err with
    | interrupted =>
      cases h
      exact hidle
    | _ =>
      cases h
      exact ⟨buf, hne, hidle⟩

theorem writeFull_leaves {all : List UInt8} {res : Except IoError Unit}
    (hr : Copies all w v (buf ++ tail)) (h : writeFull P buf v = some (res, v')) :
    Leaves all w tail res v' := by
  refine loop_keeps (fun y u => Sum.elim
    (fun buf' => Copies all w u (buf' ++ tail)) (fun res => Leaves all w tail res u) y) h ?_
    fun buf u y u' hI hs => writeFullStep_leaves hI hs
  exact hr

/-- The staging buffer is flushed in time and at the end. -/
theorem writeHexFrom_leaves {all tmp : List UInt8} {res : Except IoError Unit}
    (hr : Copies all w v (tmp ++ buf.flatMap hexOf))
    (h : writeHexFrom P tmp buf v = some (res, v')) : Leaves all w [] res v' := by
  induction buf generalizing tmp v with
  | nil =>
    unfold writeHexFrom at h
    split at h
    · exact writeFull_leaves hr h
    · rename_i hzero
      obtain rfl : tmp = [] := by simpa using hzero
      cases h
      exact hr
  | cons b rest ih =>
    unfold writeHexFrom at h
    split at h
    · obtain ⟨r, u, hw, h⟩ := bind_eq_some.mp h
      have hleft := writeFull_leaves hr hw
      cases r with
      | ok _ =>
        rw [hexPair_eq] at h
        exact ih hleft h
      | error err =>
        cases h
        obtain ⟨rest', hne, hwr⟩ := hleft
        exact ⟨rest' ++ _, by simp [hne], by simpa using hwr⟩
    · rw [hexPair_eq] at h
      exact ih (by simpa using hr) h

theorem writeBlock_leaves {all b : List UInt8} {res : Except IoError Unit}
    (hr : Copies all w v (encode hex b)) (h : writeBlock P hex b v = some (res, v')) :
    Leaves all w [] res v' := by
  cases hex with
  | true => exact writeHexFrom_leaves hr h
  | false =>
    have hr' : Copies all w v (b ++ []) := by simpa [encode] using hr
    exact writeFull_leaves hr' h

theorem writeHex_leaves {b : List UInt8} {res : Except IoError Unit}
    (h : writeHex P b v = some (res, v')) :
    Leaves (written v.trace ++ b.flatMap hexOf) v [] res v' :=
  writeHexFrom_leaves (copies_start rfl) h

/-- What the output has of a slice: all its digits if it is told so, and the first of them, but not
all, if it is told of an error. -/
theorem writeHex_copies {b : List UInt8} {res : Except IoError Unit}
    (h : writeHex P b v = some (res, v')) : ∃ out rest, out ++ rest = b.flatMap hexOf ∧
      written v'.trace = written v.trace ++ out ∧ (res = .ok () ↔ rest = []) := by
  have hof : ∀ {rest : List UInt8}, Copies (written v.trace ++ b.flatMap hexOf) v v' rest →
      ∃ out, out ++ rest = b.flatMap hexOf ∧ written v'.trace = written v.trace ++ out := by
    intro rest hcopy
    obtain ⟨out, hout⟩ := hcopy.grows
    have hleft := hcopy.left
    rw [← hout, List.append_assoc] at hleft
    exact ⟨out, List.append_cancel_left hleft, hout.symm⟩
  have hleft := writeHex_leaves h
  cases res with
  | ok _ =>
    obtain ⟨out, hsum, hwritten⟩ := hof hleft
    exact ⟨out, [], hsum, hwritten, by simp⟩
  | error err =>
    obtain ⟨rest, hne, hcopy⟩ := hleft
    rw [List.append_nil] at hcopy
    obtain ⟨out, hsum, hwritten⟩ := hof hcopy
    exact ⟨out, rest, hsum, hwritten, by simp [hne]⟩

/-- From `w` on no write was of more bytes than the staging buffer has. -/
def Staged (w v : ToolWorld H) : Prop :=
  ∃ fs, v.trace = w.trace ++ fs ∧ ∀ e ∈ fs, ∃ b, e.request = .writeOut b ∧ b.length ≤ 1024

theorem Staged.start (w : ToolWorld H) : Staged w w := ⟨[], by simp⟩

theorem Staged.write {b : List UInt8} {ans : Except IoError (Fin (b.length + 1))}
    (hs : Staged w v) (hb : b.length ≤ 1024) (hq : ask P (.writeOut b) v = some (ans, v')) :
    Staged w v' := by
  obtain ⟨fs, htrace, hfs⟩ := hs
  refine ⟨fs ++ [⟨.writeOut b, ans⟩], by rw [ask_trace hq, htrace, List.append_assoc], ?_⟩
  rw [List.forall_mem_append, List.forall_mem_singleton]
  exact ⟨hfs, b, rfl, hb⟩

theorem writeFull_staged {b : List UInt8} {res : Except IoError Unit} (hs : Staged w v)
    (hb : b.length ≤ 1024) (h : writeFull P b v = some (res, v')) : Staged w v' := by
  refine loop_keeps (fun y u => Staged w u ∧ ∀ b', y = .inl b' → b'.length ≤ 1024) h
    ⟨hs, fun _ heq => by cases heq; exact hb⟩ (fun b u y u' hI hstep => ?_) |>.1
  obtain ⟨hu, hlen⟩ := hI
  replace hlen := hlen b rfl
  unfold writeFullStep at hstep
  split at hstep
  · cases hstep
    exact ⟨hu, nofun⟩
  obtain ⟨ans, x, hq, hstep⟩ := bind_eq_some.mp hstep
  have hx := hu.write hlen hq
  cases ans with
  | ok n =>
    cases hstep
    refine ⟨hx, fun b' hb' => ?_⟩
    split at hb'
    · cases hb'
    · cases hb'
      rw [List.length_drop]
      omega
  | error err =>
    cases err with
    | interrupted =>
      cases hstep
      exact ⟨hx, fun b' hb' => by cases hb'; exact hlen⟩
    | _ =>
      cases hstep
      exact ⟨hx, nofun⟩

theorem writeHexFrom_staged {tmp b : List UInt8} {res : Except IoError Unit} (hs : Staged w v)
    (hlen : tmp.length ≤ 1024) (h : writeHexFrom P tmp b v = some (res, v')) : Staged w v' := by
  induction b generalizing tmp v with
  | nil =>
    unfold writeHexFrom at h
    split at h
    · exact writeFull_staged hs hlen h
    · cases h
      exact hs
  | cons d rest ih =>
    unfold writeHexFrom at h
    split at h
    · obtain ⟨r, u, hw, h⟩ := bind_eq_some.mp h
      have hu := writeFull_staged hs hlen hw
      cases r with
      | ok _ => exact ih hu (by simp [hexPair]) h
      | error err =>
        cases h
        exact hu
    · refine ih hs ?_ h
      rw [List.length_append]
      simp only [hexPair, List.length_cons, List.length_nil]
      omega

/-- The arithmetic of a pass that is yet to produce something is exact. -/
structure Exact (a : Args) (p : Int64) : Prop where
  sub : (a.nTotal - p).toInt = a.nTotal.toInt - p.toInt
  want : (wanted a p : Int) = min 256 (a.nTotal.toInt - p.toInt)
  add : (p + Int64.ofNat (wanted a p)).toInt = p.toInt + wanted a p

theorem exact_of_lt (h0 : 0 ≤ p.toInt) (hlt : p.toInt < a.nTotal.toInt) : Exact a p := by
  have hmax := a.nTotal.toInt_lt
  have hleft : (a.nTotal - p).toInt = a.nTotal.toInt - p.toInt :=
    Int64.toInt_sub_of_le _ _ (Int64.le_iff_toInt_le.mpr h0) (Int64.le_iff_toInt_le.mpr hlt.le)
  have hwanted : (wanted a p : Int) = min 256 (a.nTotal.toInt - p.toInt) := by
    have h256 : (256 : Int64).toInt = 256 := rfl
    have hzero : (0 : Int64).toInt = 0 := rfl
    unfold wanted
    simp only [Int64.le_iff_toInt_le, Int64.lt_iff_toInt_lt, hleft, h256, hzero]
    split
    · rename_i hsmall
      have hnonneg : 0 ≤ a.nTotal - p := Int64.le_iff_toInt_le.mpr (by rw [hleft, hzero]; omega)
      rw [Int64.toNat_toUInt64_of_le hnonneg, Int64.toNatClampNeg, hleft]
      omega
    · omega
  refine ⟨hleft, hwanted, ?_⟩
  rw [Int64.toInt_add, Int64.toInt_ofNat_of_lt (by omega)]
  exact Int.bmod_eq_of_le (m := 2 ^ 64) (by omega) (by omega)

/-- What holds at the head of the loop: all that was generated has been written. -/
structure Streamed (a : Args) (p : Int64) (es : List ToolReply) : Prop where
  lawful : Lawful (Legal a.hex) es
  pending : Pending a.hex es []
  nonneg : 0 ≤ p.toInt
  le : p.toInt ≤ a.nTotal.toInt
  length : ((generated es).length : Int) = p.toInt
  nonempty : ∀ b ∈ blocks es, b ≠ []
  asked : ∀ n ∈ requests es, 1 ≤ n ∧ n ≤ 256
  sum : ((requests es).sum : Int) = p.toInt

/-- What holds in a pass once the module gave it the block `b`, before that is written. -/
structure Held (a : Args) (p : Int64) (done : List (List UInt8)) (b : List UInt8)
    (es : List ToolReply) : Prop where
  lawful : Lawful (Legal a.hex) es
  given : blocks es = done ++ [b]
  wrote : written es = encode a.hex done.flatten
  exact : Exact a p
  nonneg : 0 ≤ p.toInt
  lt : p.toInt < a.nTotal.toInt
  length : (done.flatten.length : Int) = p.toInt ∧ b.length = wanted a p
  nonempty : ∀ b ∈ done, b ≠ []
  asked : ∀ n ∈ requests es, 1 ≤ n ∧ n ≤ 256
  sum : ((requests es).sum : Int) = p.toInt + wanted a p

/-- What holds when the loop has ended: the blocks in `done` were written in full, and of one more,
if there is one, not everything. -/
structure Ended (a : Args) (p : Int64) (es : List ToolReply) : Prop where
  lawful : Lawful (Legal a.hex) es
  nonempty : ∀ b ∈ blocks es, b ≠ []
  asked : ∀ n ∈ requests es, 1 ≤ n ∧ n ≤ 256
  split : ∃ done last part rest, blocks es = done ++ last ∧
    written es = encode a.hex done.flatten ++ part ∧ part ++ rest = encode a.hex last.flatten ∧
    (last = [] ∨ ∃ b, last = [b] ∧ rest ≠ []) ∧ (done.flatten.length : Int) = p.toInt

theorem streamed_start (h : 0 ≤ a.nTotal.toInt) : Streamed a 0 [] :=
  ⟨lawful_nil, by cases h : a.hex <;> simp [Pending, generated, blocks, written, encode], le_rfl, h,
    rfl, by simp [blocks], by simp [requests], rfl⟩

theorem Streamed.signal {n : Int32} (h : Streamed a p w.trace)
    (hq : ask P .signalCount w = some (n, w')) : Streamed a p w'.trace := by
  have hp := h.pending.idle (e := ⟨.signalCount, n⟩) rfl rfl
  rw [ask_trace hq]
  exact ⟨lawful_snoc.mpr ⟨h.lawful, [], hp⟩, hp, h.nonneg, h.le,
    by simpa [block] using h.length, by simpa [block] using h.nonempty,
    by simpa [requested] using h.asked, by simpa [requested] using h.sum⟩

theorem Streamed.ended (h : Streamed a p es) : Ended a p es := by
  have hp := h.pending
  rw [Pending, List.append_nil] at hp
  exact ⟨h.lawful, h.nonempty, h.asked, blocks es, [], [], [], by simp,
    by simpa [generated] using hp, by cases a.hex <;> simp [encode], .inl rfl, h.length⟩

theorem Ended.pending (h : Ended a p es) : ∃ rest, Pending a.hex es rest := by
  obtain ⟨done, last, part, rest, hb, hw, hr, _, _⟩ := h.split
  refine ⟨rest, ?_⟩
  rw [Pending, hw, generated, hb, List.flatten_append, encode_append, ← hr, List.append_assoc]

theorem Ended.idle (h : Ended a p es) (hb : block e = none) (ha : accepted e = [])
    (hr : ∀ n ∈ requested e, 1 ≤ n ∧ n ≤ 256) : Ended a p (es ++ [e]) := by
  obtain ⟨rest, hp⟩ := h.pending
  refine ⟨lawful_snoc.mpr ⟨h.lawful, rest, hp.idle hb ha⟩, by simpa [hb] using h.nonempty, ?_,
    by simpa [hb, ha] using h.split⟩
  intro n hn
  rw [requests_snoc, List.mem_append, Option.mem_toList] at hn
  exact hn.elim (h.asked n) (hr n)

/-- The module gives a block. -/
theorem Streamed.generate {b : Vector UInt8 (wanted a p)} (h : Streamed a p w.trace)
    (hlt : p.toInt < a.nTotal.toInt)
    (hq : ask P (.generateRandom (wanted a p)) w = some ((ckrOk, b), w')) :
    Held a p (blocks w.trace) b.toList w'.trace := by
  have he := exact_of_lt h.nonneg hlt
  have hw := he.want
  have hp := h.pending
  rw [Pending, List.append_nil] at hp
  rw [ask_trace hq]
  refine ⟨lawful_snoc.mpr ⟨h.lawful, _, h.pending.generate⟩, by simp [block],
    by simpa [accepted, generated] using hp, he, h.nonneg, hlt, ⟨h.length, by simp⟩, h.nonempty,
    ?_, ?_⟩
  · intro n hn
    rw [requests_snoc, List.mem_append, Option.mem_toList] at hn
    rcases hn with hn | hn
    · exact h.asked n hn
    · cases hn
      omega
  · simpa [requested] using h.sum

section Held

variable {done : List (List UInt8)} {b : List UInt8}

theorem Held.pending (h : Held a p done b es) : Pending a.hex es (encode a.hex b) := by
  rw [Pending, h.wrote, generated, h.given, List.flatten_append, encode_append]
  simp

theorem Held.ne_nil (h : Held a p done b es) : b ≠ [] := by
  have hlen := h.length.2
  have hwant := h.exact.want
  have hlt := h.lt
  rintro rfl
  rw [List.length_nil] at hlen
  omega

theorem Held.signal {n : Int32} (h : Held a p done b w.trace)
    (hq : ask P .signalCount w = some (n, w')) : Held a p done b w'.trace := by
  have hp := h.pending.idle (e := ⟨.signalCount, n⟩) rfl rfl
  rw [ask_trace hq]
  exact ⟨lawful_snoc.mpr ⟨h.lawful, _, hp⟩, by simpa [block] using h.given,
    by simpa [accepted] using h.wrote, h.exact, h.nonneg, h.lt, h.length, h.nonempty,
    by simpa [requested] using h.asked, by simpa [requested] using h.sum⟩

theorem Held.all_nonempty (h : Held a p done b es) : ∀ b ∈ blocks es, b ≠ [] := by
  rw [h.given]
  intro c hc
  rcases List.mem_append.mp hc with hc | hc
  · exact h.nonempty c hc
  · rw [List.mem_singleton.mp hc]
    exact h.ne_nil

/-- The block is dropped, or a part of it is. -/
theorem Held.ended (h : Held a p done b w.trace)
    (hw : Copies (encode a.hex (generated w.trace)) w v rest) (hne : rest ≠ []) :
    Ended a p v.trace := by
  obtain ⟨part, hpart⟩ := hw.grows
  have hp := hw.left
  rw [← hpart, h.wrote, generated, h.given, List.flatten_append, encode_append,
    List.append_assoc] at hp
  refine ⟨hw.lawful h.lawful, hw.given ▸ h.all_nonempty, hw.asked ▸ h.asked, done, [b], part, rest,
    hw.given.trans h.given, ?_, List.append_cancel_left hp, .inr ⟨b, rfl, hne⟩, h.length.1⟩
  rw [← hpart, h.wrote]

/-- The block is written. -/
theorem Held.streamed (h : Held a p done b w.trace)
    (hw : Copies (encode a.hex (generated w.trace)) w v []) :
    Streamed a (p + Int64.ofNat (wanted a p)) v.trace := by
  have hadd := h.exact.add
  have hwant := h.exact.want
  have h0 := h.nonneg
  have hlt := h.lt
  obtain ⟨hdone, hb⟩ := h.length
  have hp := hw.left
  have hgen : generated v.trace = generated w.trace := congrArg List.flatten hw.given
  rw [← hgen] at hp
  refine ⟨hw.lawful h.lawful, hp, by omega, by omega, ?_, hw.given ▸ h.all_nonempty,
    hw.asked ▸ h.asked, ?_⟩
  · rw [generated, hw.given, h.given, List.flatten_append, List.length_append, hadd]
    simp only [List.flatten_singleton]
    omega
  · rw [hw.asked, hadd]
    exact h.sum

end Held

def Reads (a : Args) : Int64 ⊕ Int64 × UInt8 → List ToolReply → Prop
  | .inl p, es => Streamed a p es
  | .inr (p, _), es => Ended a p es

theorem readStep_reads {y : Int64 ⊕ Int64 × UInt8} (hs : Streamed a p w.trace)
    (h : readStep P a p w = some (y, w')) : Reads a y w'.trace := by
  obtain ⟨n, v, hq, h⟩ := bind_eq_some.mp h
  replace hs := hs.signal hq
  split at h
  · cases h
    exact hs.ended
  split at h
  · cases h
    exact hs.ended
  rename_i hgo
  have hlt : p.toInt < a.nTotal.toInt := by
    have hneg : ¬ a.nTotal < 0 := by
      rw [Int64.lt_iff_toInt_lt]
      exact not_lt.mpr (hs.nonneg.trans hs.le)
    exact Int64.lt_iff_toInt_lt.mp ((not_not.mp hgo).resolve_left hneg)
  obtain ⟨⟨rv, b⟩, u, hq, h⟩ := bind_eq_some.mp h
  dsimp only at h
  split at h
  · rename_i hrv
    have he := hs.ended.idle (e := ⟨.generateRandom _, (rv, b)⟩) (if_neg hrv) rfl (by
      rintro n ⟨⟩
      have hwant := (exact_of_lt hs.nonneg hlt).want
      omega)
    rw [← ask_trace hq] at he
    obtain ⟨n, u', hq', h⟩ := bind_eq_some.mp h
    have he' := he.idle (e := ⟨.signalCount, n⟩) rfl rfl (by simp [requested])
    rw [← ask_trace hq'] at he'
    split at h
    · cases h
      exact he'
    · cases h
      exact he'
  rename_i hrv
  rw [not_not.mp hrv] at hq
  have hheld := hs.generate hlt hq
  obtain ⟨n, u', hq', h⟩ := bind_eq_some.mp h
  replace hheld := hheld.signal hq'
  split at h
  · cases h
    exact hheld.ended (copies_start hheld.pending) fun hnil => hheld.ne_nil (encode_eq_nil hnil)
  obtain ⟨res, u'', hwrite, h⟩ := bind_eq_some.mp h
  have hleft := writeBlock_leaves (copies_start hheld.pending) hwrite
  cases res with
  | ok _ =>
    cases h
    exact hheld.streamed hleft
  | error err =>
    obtain ⟨rest, hne, hw⟩ := hleft
    rw [List.append_nil] at hw
    cases err with
    | brokenPipe =>
      cases h
      exact hheld.ended hw hne
    | _ =>
      cases h
      exact hheld.ended hw hne

theorem thread_reads {y : Int64 ⊕ Int64 × UInt8} (hN : 0 ≤ a.nTotal.toInt) (hstart : w.trace = [])
    (h : Thread Eq (readStep P a) (.inl 0) w y v) : Reads a y v.trace := by
  refine h.keeps (I := fun y (v : ToolWorld H) => Reads a y v.trace) ?_
    fun p v y v' hs hstep => readStep_reads hs hstep
  rw [hstart]
  exact streamed_start hN

/-- Something was produced exactly if the first block was written in full. -/
theorem Ended.produced_iff (h : Ended a p es) : 0 < p.toInt ↔
    ∃ b later, blocks es = b :: later ∧ encode a.hex b <+: written es := by
  obtain ⟨done, last, part, rest, hb, hw, hr, hlast, hlen⟩ := h.split
  constructor
  · intro hpos
    cases done with
    | nil =>
      simp only [List.flatten_nil, List.length_nil] at hlen
      omega
    | cons b done =>
      refine ⟨b, done ++ last, hb, ?_⟩
      rw [hw, List.flatten_cons, encode_append, List.append_assoc]
      exact List.prefix_append _ _
  · rintro ⟨b, later, hb', hpre⟩
    cases done with
    | nil =>
      rw [List.nil_append] at hb
      obtain rfl : last = b :: later := hb.symm.trans hb'
      obtain ⟨b', hb', hne⟩ := hlast.resolve_left (by simp)
      obtain ⟨rfl, rfl⟩ := List.cons_eq_cons.mp hb'
      have hnil : encode a.hex (List.flatten []) = [] := by cases a.hex <;> rfl
      rw [hw, hnil, List.nil_append] at hpre
      rw [List.flatten_singleton] at hr
      have hle := hpre.length_le
      have hpos := List.length_pos_iff.mpr hne
      rw [← hr, List.length_append] at hle
      omega
    | cons c done =>
      have hc := List.length_pos_iff.mpr (h.nonempty c (by simp [hb]))
      rw [List.flatten_cons, List.length_append] at hlen
      omega

/-- `e'` follows `e` by an interrupted write. -/
def Interrupted (P : ToolHost H) (e' e : H) : Prop :=
  ∃ buf, P.answer (.writeOut buf) e = (.error .interrupted, e')

/-- An interrupted write, as the tool sees it. -/
def Stalled (P : ToolHost H) (w' w : ToolWorld H) : Prop := Interrupted P w'.env w.env

/-- No signal arrives, no call of the module fails, and writes are short or interrupted, but not
interrupted for ever. -/
structure Smooth (P : ToolHost H) : Prop where
  signals : ∀ e, (P.answer .signalCount e).1 = 0
  generates : ∀ n e, (P.answer (.generateRandom n) e).1.1 = ckrOk
  writes : ∀ buf e, buf ≠ [] → (P.answer (.writeOut buf) e).1 = .error .interrupted ∨
    ∃ n : Fin (buf.length + 1), 0 < n.val ∧ (P.answer (.writeOut buf) e).1 = .ok n
  patient : ∀ e, Acc (Interrupted P) e

theorem writeFullStep_smooth (hP : Smooth P) (buf : List UInt8) (w : ToolWorld H) :
    Yields (writeFullStep P buf) w fun y w' => y = .inr (.ok ()) ∨ ∃ buf', y = .inl buf' ∧
      (buf'.length < buf.length ∨ buf'.length ≤ buf.length ∧ Stalled P w' w) := by
  unfold writeFullStep
  split
  · exact ⟨_, w, rfl, .inl rfl⟩
  rename_i hne
  have hne : buf ≠ [] := by simpa using hne
  have hpos := List.length_pos_iff.mpr hne
  rcases hP.writes buf w.env hne with hi | ⟨n, hn, ho⟩
  · have hq := ask_apply (P := P) (.writeOut buf) w
    rw [hi] at hq
    refine ⟨_, _, bind_of_eq hq, .inr ⟨buf, rfl, .inr ⟨le_rfl, buf, ?_⟩⟩⟩
    exact Prod.ext hi rfl
  · have hq := ask_apply (P := P) (.writeOut buf) w
    rw [ho] at hq
    refine ⟨_, _, (bind_of_eq hq).trans rfl, .inr ⟨buf.drop n, if_neg (by omega), .inl ?_⟩⟩
    rw [List.length_drop]
    omega

theorem writeFull_smooth (hP : Smooth P) (buf : List UInt8) (w : ToolWorld H) :
    Yields (writeFull P buf) w fun res _ => res = .ok () := by
  have : IsPreorder (ToolWorld H) fun _ _ => True :=
    { refl := fun _ => trivial, trans := fun _ _ _ _ _ => trivial }
  have hacc : ∀ v : ToolWorld H, True → Acc (Stalled P) v := fun v _ =>
    InvImage.accessible (fun u : ToolWorld H => u.env) (hP.patient v.env)
  refine progress_induction (R := fun _ _ => True) (P := fun buf w =>
    Yields (writeFull P buf) w fun res _ => res = .ok ()) List.length ?_ buf w hacc
  intro buf w ih
  obtain ⟨y, w', hstep, rfl | ⟨buf', rfl, hlt⟩⟩ := writeFullStep_smooth hP buf w
  · exact ⟨_, w', loop_of_inr hstep, rfl⟩
  · obtain ⟨res, v, hres, hok⟩ := ih buf' w' trivial hlt
    exact ⟨res, v, (loop_of_inl hstep).trans hres, hok⟩

theorem writeHexFrom_smooth (hP : Smooth P) (tmp buf : List UInt8) (w : ToolWorld H) :
    Yields (writeHexFrom P tmp buf) w fun res _ => res = .ok () := by
  induction buf generalizing tmp w with
  | nil =>
    unfold writeHexFrom
    split
    · exact writeFull_smooth hP tmp w
    · exact ⟨_, w, rfl, rfl⟩
  | cons b rest ih =>
    unfold writeHexFrom
    split
    · apply yields_bind
      obtain ⟨res, v, hw, rfl⟩ := writeFull_smooth hP tmp w
      exact ⟨_, v, hw, ih _ v⟩
    · exact ih _ w

theorem writeBlock_smooth (hP : Smooth P) (hex : Bool) (buf : List UInt8) (w : ToolWorld H) :
    Yields (writeBlock P hex buf) w fun res _ => res = .ok () := by
  cases hex with
  | true => exact writeHexFrom_smooth hP [] buf w
  | false => exact writeFull_smooth hP buf w

theorem ask_smooth_signal (hP : Smooth P) (w : ToolWorld H) :
    ∃ v, ask P .signalCount w = some (0, v) := by
  have hq := ask_apply (P := P) .signalCount w
  rw [hP.signals] at hq
  exact ⟨_, hq⟩

/-- A pass in which the module gives a block and the output takes it. -/
theorem readStep_of_write {w₁ w₂ w₃ w₄ : ToolWorld H} {b : Vector UInt8 (wanted a p)}
    (h₁ : ask P .signalCount w = some (0, w₁)) (hlt : p < a.nTotal)
    (h₂ : ask P (.generateRandom (wanted a p)) w₁ = some ((ckrOk, b), w₂))
    (h₃ : ask P .signalCount w₂ = some (0, w₃))
    (h₄ : writeBlock P a.hex b.toList w₃ = some (.ok (), w₄)) :
    readStep P a p w = some (.inl (p + Int64.ofNat (wanted a p)), w₄) := by
  unfold readStep
  rw [bind_of_eq h₁, if_neg (by simp), if_neg (by simp [hlt]), bind_of_eq h₂]
  dsimp only
  rw [if_neg (by simp), bind_of_eq h₃, if_neg (by decide), bind_of_eq h₄]
  rfl

/-- A pass that has something left to produce produces it. -/
theorem readStep_smooth (hP : Smooth P) (hlt : p < a.nTotal) (w : ToolWorld H) :
    ∃ v, readStep P a p w = some (.inl (p + Int64.ofNat (wanted a p)), v) := by
  obtain ⟨v₁, h₁⟩ := ask_smooth_signal hP w
  obtain ⟨⟨rv, b⟩, v₂, h₂, rfl⟩ : ∃ r v₂, ask P (.generateRandom (wanted a p)) v₁ = some (r, v₂) ∧
      r.1 = ckrOk := ⟨_, _, ask_apply _ v₁, hP.generates _ _⟩
  obtain ⟨v₃, h₃⟩ := ask_smooth_signal hP v₂
  obtain ⟨res, v₄, h₄, rfl⟩ := writeBlock_smooth hP a.hex b.toList v₃
  exact ⟨v₄, readStep_of_write h₁ hlt h₂ h₃ h₄⟩

/-- The rest of the stream is produced, whatever has been so far. -/
theorem loop_smooth (hP : Smooth P) {k : Nat} (hk : (a.nTotal.toInt - p.toInt).toNat = k)
    (hs : Streamed a p w.trace) :
    Yields (loop (readStep P a) p) w fun r v =>
      r = (a.nTotal, 0) ∧ Streamed a a.nTotal v.trace := by
  induction k using Nat.strongRecOn generalizing p w with
  | _ k ih =>
    by_cases hlt : p < a.nTotal
    · obtain ⟨v, hstep⟩ := readStep_smooth hP hlt w
      have hs' : Streamed a _ v.trace := readStep_reads hs hstep
      have he := exact_of_lt hs.nonneg (Int64.lt_iff_toInt_lt.mp hlt)
      have hadd := he.add
      have hwant := he.want
      have hlt' := Int64.lt_iff_toInt_lt.mp hlt
      obtain ⟨r, u, hr, hu⟩ := ih _ (by omega) rfl hs'
      exact ⟨r, u, (loop_of_inl hstep).trans hr, hu⟩
    · obtain ⟨v, hq⟩ := ask_smooth_signal hP w
      have hge := mt Int64.lt_iff_toInt_lt.mpr hlt
      obtain rfl : p = a.nTotal := Int64.toInt_inj.mp (le_antisymm hs.le (not_lt.mp hge))
      have hneg : ¬ a.nTotal < 0 := by
        rw [Int64.lt_iff_toInt_lt]
        exact not_lt.mpr hs.nonneg
      have hstep : readStep P a a.nTotal w = some (.inr (a.nTotal, 0), v) := by
        unfold readStep
        rw [bind_of_eq hq, if_neg (by simp), if_pos (by simp [hneg, hlt])]
        rfl
      exact ⟨_, v, loop_of_inr hstep, rfl, hs.signal hq⟩

/-- The newline that ends a stream of hex digits. -/
theorem newline_smooth (hP : Smooth P) (w : ToolWorld H) :
    Yields (writeFull P [10]) w fun _ w' => written w'.trace = written w.trace ++ [10] ∧
      blocks w'.trace = blocks w.trace ∧ requests w'.trace = requests w.trace := by
  obtain ⟨res, v, hw, rfl⟩ := writeFull_smooth hP [10] w
  have hc : Copies (written w.trace ++ [10]) w w ([10] ++ []) := copies_start rfl
  have hleft := writeFull_leaves hc hw
  refine ⟨_, v, hw, ?_, hleft.given, hleft.asked⟩
  rw [← hleft.left, List.append_nil]

theorem emitStream_of_loop {rv : UInt8} (h : loop (readStep P a) 0 w = some ((p, rv), v)) :
    emitStream P a w =
      if a.hex = true ∧ 0 < p.toInt then (writeFull P [10] >>= fun _ => pure rv) v
      else some (rv, v) := by
  have hpos : p > 0 ↔ 0 < p.toInt := Int64.lt_iff_toInt_lt
  unfold emitStream
  rw [bind_of_eq h]
  dsimp only
  simp only [hpos]
  split <;> rfl

theorem parseI64_lt {str : String} {n : Int} (h : parseI64 str = some n) : n < 2 ^ 63 := by
  unfold parseI64 at h
  split at h
  all_goals
    obtain ⟨k, hk, rfl⟩ := Option.map_eq_some_iff.mp h
    obtain ⟨m, hm, hmk⟩ := Option.bind_eq_some_iff.mp hk
    obtain rfl := Option.some_inj.mp hmk
    have hbound := of_decide_eq_true (Option.filter_eq_some_iff.mp hm).2
    omega

/-- The count given with `-n` fits; without a count, or for 0, the stream has no end. -/
theorem parseFrom_nTotal {args : List String} (ha : 1 ≤ a.nTotal.toInt ∨ a.nTotal = -1) {a' : Args}
    (h : parseFrom a args = .ok a') : 1 ≤ a'.nTotal.toInt ∨ a'.nTotal = -1 := by
  fun_induction parseFrom a args
  case case6 hv hneg ih =>
    have hlt := parseI64_lt hv
    refine ih ?_ h
    dsimp only
    split
    · exact .inr rfl
    · left
      rw [Int64.toInt_ofInt_of_le (by omega) (by omega)]
      omega
  all_goals
    first
    | (cases h; exact ha)
    | cases h
    | rename_i ih
      exact ih ha h

theorem parse_nTotal {argv : List String} (h : parse argv = .ok a) :
    1 ≤ a.nTotal.toInt ∨ a.nTotal = -1 :=
  parseFrom_nTotal (.inl (by decide)) h

/-- If nothing fails, the requests add up to what was asked for, and what the module gave is
written, whole and in order. Each pass computes exactly. However the loop ends, what was written is
a prefix of the stream, and a newline follows exactly if the first block was written. The staging
buffer neither overflows nor keeps, drops or repeats a digit, whatever the length of the slice. -/
theorem stream_emitted (hN : 1 ≤ a.nTotal.toInt) (hstart : w.trace = []) :
    (Smooth P → Yields (emitStream P a) w fun rv w' => rv = 0 ∧
      (∀ n ∈ requests w'.trace, 1 ≤ n ∧ n ≤ 256) ∧
      ((requests w'.trace).sum : Int) = a.nTotal.toInt ∧
      ((generated w'.trace).length : Int) = a.nTotal.toInt ∧
      written w'.trace = encode a.hex (generated w'.trace) ++ if a.hex then [10] else []) ∧
    (∀ p v, Thread Eq (readStep P a) (.inl 0) w (.inl p) v →
      0 ≤ p.toInt ∧ p.toInt ≤ a.nTotal.toInt ∧ (p.toInt < a.nTotal.toInt → Exact a p)) ∧
    (∀ p rv v, loop (readStep P a) 0 w = some ((p, rv), v) →
      (∀ pre post, v.trace = pre ++ post → written pre <+: encode a.hex (generated pre)) ∧
      (0 < p.toInt ↔
        ∃ b later, blocks v.trace = b :: later ∧ encode a.hex b <+: written v.trace) ∧
      emitStream P a w =
        if a.hex = true ∧ 0 < p.toInt then (writeFull P [10] >>= fun _ => pure rv) v
        else some (rv, v)) ∧
    ∀ buf v, (Smooth P → Yields (writeHex P buf) v fun res v' =>
        res = .ok () ∧ written v'.trace = written v.trace ++ buf.flatMap hexOf) ∧
      ∀ res v', writeHex P buf v = some (res, v') → Staged v v' ∧
        ∃ out rest, out ++ rest = buf.flatMap hexOf ∧ written v'.trace = written v.trace ++ out ∧
          (res = .ok () ↔ rest = []) := by
  refine ⟨fun hP => ?_, fun p v h => ?_, fun p rv v h => ?_, fun buf v => ⟨fun hP => ?_,
    fun res v' h => ⟨writeHexFrom_staged (.start v) (Nat.zero_le _) h, writeHex_copies h⟩⟩⟩
  · have hs : Streamed a 0 w.trace := by
      rw [hstart]
      exact streamed_start (by omega)
    obtain ⟨r, v, hloop, rfl, hv⟩ := loop_smooth hP rfl hs
    have hp := hv.pending
    rw [Pending, List.append_nil] at hp
    have hrun := emitStream_of_loop hloop
    cases hhex : a.hex with
    | false =>
      rw [if_neg (by simp [hhex])] at hrun
      exact ⟨_, v, hrun, rfl, hv.asked, hv.sum, hv.length, by simpa [hhex] using hp⟩
    | true =>
      obtain ⟨_, u, hline, hwritten, hgiven, hasked⟩ := newline_smooth hP v
      have hgen : generated u.trace = generated v.trace := congrArg List.flatten hgiven
      rw [if_pos ⟨hhex, by omega⟩, bind_of_eq hline] at hrun
      refine ⟨_, u, hrun, rfl, hasked ▸ hv.asked, hasked ▸ hv.sum, hgen ▸ hv.length, ?_⟩
      rw [hwritten, hgen, hp, hhex]
      rfl
  · have hs : Streamed a p v.trace := thread_reads (by omega) hstart h
    exact ⟨hs.nonneg, hs.le, exact_of_lt hs.nonneg⟩
  · have he : Ended a p v.trace := thread_reads (by omega) hstart (loop_thread h)
    refine ⟨fun pre post hsplit => ?_, he.produced_iff, emitStream_of_loop h⟩
    have hlawful := he.lawful
    rw [hsplit] at hlawful
    rcases List.eq_nil_or_concat pre with rfl | ⟨pre, e, rfl⟩
    · exact List.nil_prefix
    · rw [List.concat_eq_append] at hlawful ⊢
      obtain ⟨rest, hrest⟩ := (lawful_snoc.mp hlawful.of_append).2
      exact ⟨rest, hrest⟩
  · obtain ⟨_, v', h, rfl⟩ := writeHexFrom_smooth hP [] buf v
    obtain ⟨out, rest, hsum, hwritten, hend⟩ := writeHex_copies h
    obtain rfl := hend.mp rfl
    rw [List.append_nil] at hsum
    exact ⟨_, v', h, rfl, hsum ▸ hwritten⟩

/-- An output that takes no more than a hundred bytes at a time, and a module that never fails. -/
def narrow : ToolHost Unit where
  answer
    | .generateRandom n, e => ((ckrOk, Vector.replicate n 7), e)
    | .signalCount, e => (0, e)
    | .addEntropy _ _, e => (.ok (), e)
    | .reseedCrng, e => (.ok (), e)
    | .writeRandom buf, e => (.ok buf.length, e)
    | .writeOut buf, e => (.ok ⟨min 100 buf.length, Nat.lt_succ_of_le (Nat.min_le_right _ _)⟩, e)
    | .now, e => (0, e)
    | .sleep _, e => ((), e)

theorem narrow_smooth : Smooth narrow where
  signals _ := rfl
  generates _ _ := rfl
  writes buf _ hne := .inr ⟨_, lt_min (by decide) (List.length_pos_iff.mpr hne), rfl⟩
  patient _ := Acc.intro _ fun _ h => by
    obtain ⟨buf, h⟩ := h
    cases h

theorem stream_emitted_narrow :
    (Yields (emitStream narrow ⟨300, true, false, "p11rand.so"⟩) ⟨(), []⟩ fun rv w' => rv = 0 ∧
      (∀ n ∈ requests w'.trace, 1 ≤ n ∧ n ≤ 256) ∧
      ((requests w'.trace).sum : Int) = 300 ∧ ((generated w'.trace).length : Int) = 300 ∧
      written w'.trace = encode true (generated w'.trace) ++ [10]) ∧
    Yields (writeHex narrow (List.replicate 600 0xA5)) ⟨(), []⟩ fun res w' =>
      res = .ok () ∧ written w'.trace = (List.replicate 600 0xA5).flatMap hexOf := by
  obtain ⟨hstream, _, _, hslice⟩ := stream_emitted (P := narrow) (w := ⟨(), []⟩)
    (a := ⟨300, true, false, "p11rand.so"⟩) (by decide) rfl
  refine ⟨hstream narrow_smooth, ((hslice _ ⟨(), []⟩).1 narrow_smooth).mono fun res w' h => ?_⟩
  have hnil : written [] = [] := rfl
  rw [hnil, List.nil_append] at h
  exact h

end P11Rand.Tools.Read
