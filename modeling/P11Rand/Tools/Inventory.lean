import P11Rand.Fillable
import P11Rand.Holdings

/-! The sources that a host has: `p11rand-list.rs`, with `read_atr` of `iso7816.rs`. -/
namespace P11Rand

open Effect Run

variable {W : Type} {P : Platform W} {e e' : W} {w w' : World W}

/-- The machine can get from one state to the other by answering requests, whoever makes them. -/
def Platform.Leads (P : Platform W) : W → W → Prop :=
  Relation.ReflTransGen fun e e' => ∃ q : Request, e' = (P.answer q e).2

theorem Platform.Reaches.leads (h : P.Reaches e e') : P.Leads e e' := by
  refine Relation.ReflTransGen.mono ?_ _ _ h
  rintro _ _ ⟨q, _, rfl⟩
  exact ⟨q, rfl⟩

theorem Does.leads {A : Exchange → Prop} (h : Does P A w w') : P.Leads w.env w'.env := h.env.leads

namespace Iso7816

def upperHexDigit (n : Nat) : Char := Char.ofNat (if n < 10 then 48 + n else 55 + n)

/-- A byte as `{:02X}` formats it. -/
def upperHex (b : UInt8) : List Char :=
  [upperHexDigit (b.toNat / 16), upperHexDigit (b.toNat % 16)]

/-- The bytes of an ATR from the `i`-th on, each but the first of all after a space. -/
def atrFrom (i : Nat) : List UInt8 → List Char
  | [] => []
  | b :: bs => (if i > 0 then [' '] else []) ++ upperHex b ++ atrFrom (i + 1) bs

/-- `status2` is SCardStatus on a connection: the ATR that it reports. -/
def readAtr (P : Platform W) (status2 : Card → Run (World W) (Except PcscError (List UInt8)))
    (reader : String) : Run (World W) (Except Error String) := do
  if reader.toList.contains (Char.ofNat 0) then
    return .error .transport
  match ← connect P reader with
  | .error e => return .error e
  | .ok card =>
    match ← status2 card with
    | .error _ =>
      dropCard P card
      return .error .transport
    | .ok atr =>
      leaveCard P card
      if atr.isEmpty then
        return .error .transport
      return .ok (String.ofList (atrFrom 0 atr))

end Iso7816

namespace Tools.Inventory

structure Args where
  quiet : Bool
  verbose : Bool

def parseFrom (a : Args) : List String → Except UInt8 Args
  | [] => .ok a
  | arg :: rest =>
    if arg = "-q" then parseFrom { a with quiet := true } rest
    else if arg = "-v" then parseFrom { a with verbose := true } rest
    else if arg = "-h" ∨ arg = "--help" then .error 0
    else .error 2

/-- The arguments, or the code to exit with. -/
def parseArgs (argv : List String) : Except UInt8 Args := parseFrom ⟨false, false⟩ argv.tail

theorem parseFrom_quiet {args : List String} {a a' : Args} (h : parseFrom a args = .ok a') :
    a'.quiet = (a.quiet || args.contains "-q") := by
  induction args generalizing a with
  | nil =>
    cases h
    simp
  | cons arg rest ih =>
    unfold parseFrom at h
    split at h
    · rename_i harg
      rw [ih h, harg]
      simp
    split at h
    · rename_i _ harg
      rw [ih h, harg]
      simp
    split at h
    · cases h
    · cases h

theorem parseArgs_quiet {argv : List String} {a : Args} (h : parseArgs argv = .ok a) :
    a.quiet = argv.tail.contains "-q" := by
  rw [parseFrom_quiet h, Bool.false_or]

/-- What is printed on the standard output, or on the standard error. -/
inductive Line
  | out (text : String)
  | err (text : String)
  deriving DecidableEq

inductive Status
  | usable
  | noCard
  | unsupported
  | error
  | unusable
  deriving DecidableEq

def Status.text : Status → String
  | .usable => "usable"
  | .noCard => "no-card"
  | .unsupported => "unsupported"
  | .error => "error"
  | .unusable => "unusable"

/-- `{status:<8}` -/
def padded (status : String) : String :=
  status ++ String.ofList (List.replicate (8 - status.length) ' ')

def emit (quiet : Bool) (kind name status extra : String) : Line :=
  if quiet then
    if extra ≠ "" then .out (kind ++ "\t" ++ name ++ "\t" ++ status ++ "\t" ++ extra)
    else .out (kind ++ "\t" ++ name ++ "\t" ++ status)
  else if extra ≠ "" then .out ("  [" ++ padded status ++ "] " ++ name ++ "  (" ++ extra ++ ")")
  else .out ("  [" ++ padded status ++ "] " ++ name)

def cardStatus : Except Iso7816.Error Iso7816.Source → Status
  | .ok _ => .usable
  | .error .noCard => .noCard
  | .error .unsupported => .unsupported
  | .error .transport => .error

/-- A card that is there has an ATR to show. -/
def Status.hasCard : Status → Bool
  | .usable | .unsupported => true
  | _ => false

/-- A source that opened is dropped at once. -/
def dropOpened (P : Platform W) : Except Iso7816.Error Iso7816.Source → Run (World W) Unit
  | .ok src => Iso7816.dropCard P src.card
  | .error _ => return ()

def showAtr (P : Platform W) (status2 : Card → Run (World W) (Except PcscError (List UInt8)))
    (reader : String) (status : Status) : Run (World W) String := do
  if status.hasCard then
    match ← Iso7816.readAtr P status2 reader with
    | .ok atr => return "ATR=" ++ atr
    | .error _ => return ""
  else
    return ""

/-- The loop over the readers, with the number of usable ones so far. -/
def probeReaders (P : Platform W) (status2 : Card → Run (World W) (Except PcscError (List UInt8)))
    (quiet : Bool) : List String → UInt32 → Run (World W) (UInt32 × List Line)
  | [], usable => return (usable, [])
  | r :: rs, usable => do
    let opened ← Iso7816.openSource P r
    dropOpened P opened
    let status := cardStatus opened
    let extra ← showAtr P status2 r status
    let (usable, lines) ← probeReaders P status2 quiet rs
      (if status = .usable then usable + 1 else usable)
    return (usable, emit quiet "iso7816" r status.text extra :: lines)

/-- A complaint that -q suppresses. -/
def complain (quiet : Bool) (text : String) : List Line := if quiet then [] else [.err text]

/-- How many there are and how many are usable, with what is printed. -/
structure Survey where
  total : UInt32
  usable : UInt32
  lines : List Line

def surveyReaders (P : Platform W)
    (status2 : Card → Run (World W) (Except PcscError (List UInt8))) (quiet : Bool) :
    Run (World W) Survey := do
  match ← Iso7816.listReaders P with
  | .ok readers =>
    let (usable, lines) ← probeReaders P status2 quiet readers 0
    let heading := if !readers.isEmpty && !quiet then [Line.out "iso7816 (PC/SC):"] else []
    return ⟨UInt32.ofNat readers.length, usable, heading ++ lines⟩
  | .error _ => return ⟨0, 0, complain quiet "iso7816: enumeration failed"⟩

def surveyCards (P : Platform W) (status2 : Card → Run (World W) (Except PcscError (List UInt8)))
    (quiet : Bool) : Run (World W) Survey := do
  match ← Iso7816.globalInit P with
  | .ok () =>
    let survey ← surveyReaders P status2 quiet
    Iso7816.globalShutdown P
    return survey
  | .error _ =>
    return ⟨0, 0, complain quiet "iso7816: PC/SC context init failed (is pcscd running?)"⟩

def nodeStatus : Except Infnoise.Error Infnoise.Source → Status
  | .ok _ => .usable
  | .error _ => .unusable

/-- The loop over the device nodes. -/
def probeNodes (P : Platform W) (quiet : Bool) :
    List String → UInt32 → Run (World W) (UInt32 × List Line)
  | [], usable => return (usable, [])
  | p :: ps, usable => do
    let status := nodeStatus (← Infnoise.openSource P p)
    let (usable, lines) ← probeNodes P quiet ps (if status = .usable then usable + 1 else usable)
    return (usable, emit quiet "infnoise" p status.text "" :: lines)

def surveyNodes (P : Platform W) (quiet : Bool) (isoTotal : UInt32) : Run (World W) Survey := do
  match ← Infnoise.listPaths P with
  | .ok paths =>
    let (usable, lines) ← probeNodes P quiet paths 0
    let heading := if !paths.isEmpty && !quiet then
        (if isoTotal > 0 then [Line.out ""] else []) ++ [Line.out "infnoise (/dev/infnoiseN):"]
      else []
    return ⟨UInt32.ofNat paths.length, usable, heading ++ lines⟩
  | .error _ => return ⟨0, 0, complain quiet "infnoise: enumeration failed"⟩

def summary (cards nodes : Survey) : String :=
  if cards.total + nodes.total = 0 then "(no PC/SC readers and no FT240X devices found)"
  else "\nsummary: iso7816 " ++ toString cards.usable ++ "/" ++ toString cards.total ++
    " usable, infnoise " ++ toString nodes.usable ++ "/" ++ toString nodes.total ++ " usable"

/-- The exit code and what was printed. -/
def main (P : Platform W) (status2 : Card → Run (World W) (Except PcscError (List UInt8)))
    (a : Args) : Run (World W) (UInt8 × List Line) := do
  let cards ← surveyCards P status2 a.quiet
  let nodes ← surveyNodes P a.quiet cards.total
  let last := if a.quiet then [] else [Line.out (summary cards nodes)]
  return (if cards.usable + nodes.usable > 0 then 0 else 1, cards.lines ++ nodes.lines ++ last)

/-- A source that was probed; a card has an ATR to show, if that could be read. -/
structure Entry where
  kind : SlotKind
  name : String
  status : Status
  atr : Option (List UInt8)
  deriving DecidableEq

def kindText : SlotKind → String
  | .iso7816 => "iso7816"
  | .infnoise => "infnoise"

def atrText (atr : List UInt8) : String := "ATR=" ++ String.ofList (Iso7816.atrFrom 0 atr)

def Entry.extra (e : Entry) : String := e.atr.elim "" atrText

def Entry.line (quiet : Bool) (e : Entry) : Line :=
  emit quiet (kindText e.kind) e.name e.status.text e.extra

def usable (es : List Entry) : Nat := es.countP fun e => e.status = .usable

variable {status2 : Card → Run (World W) (Except PcscError (List UInt8))} {v : World W}
  {quiet : Bool} {Q : String → Bool → Prop} {D : Entry → Prop} {a : Args}

/-- What the opening of a card has told of it. -/
structure Status.Of (s : Status) (opened : Except Iso7816.Error Iso7816.Source) : Prop where
  usable : s = .usable ↔ ∃ src, opened = .ok src
  noCard : s = .noCard ↔ opened = .error .noCard
  unsupported : s = .unsupported ↔ opened = .error .unsupported
  error : s = .error ↔ opened = .error .transport

theorem cardStatus_of (opened : Except Iso7816.Error Iso7816.Source) :
    (cardStatus opened).Of opened := by
  match opened with
  | .ok _ => constructor <;> simp [cardStatus]
  | .error .noCard => constructor <;> simp [cardStatus]
  | .error .unsupported => constructor <;> simp [cardStatus]
  | .error .transport => constructor <;> simp [cardStatus]

/-- There is a card in the reader, though it may not be of use. -/
def Present (opened : Except Iso7816.Error Iso7816.Source) : Prop :=
  (∃ src, opened = .ok src) ∨ opened = .error .unsupported

theorem hasCard_iff (opened : Except Iso7816.Error Iso7816.Source) :
    (cardStatus opened).hasCard = true ↔ Present opened := by
  match opened with
  | .ok _ => simp [cardStatus, Status.hasCard, Present]
  | .error .noCard => simp [cardStatus, Status.hasCard, Present]
  | .error .unsupported => simp [cardStatus, Status.hasCard, Present]
  | .error .transport => simp [cardStatus, Status.hasCard, Present]

/-- The ATR is what SCardStatus answers on a connection to the reader, if that is any bytes. -/
def Reports (P : Platform W) (status2 : Card → Run (World W) (Except PcscError (List UInt8)))
    (reader : String) (w : World W) (atr : Option (List UInt8)) : Prop :=
  ∀ bytes, atr = some bytes ↔ bytes ≠ [] ∧ Char.ofNat 0 ∉ reader.toList ∧
    ∃ card v v', Iso7816.connect P reader w = some (.ok card, v) ∧
      status2 card v = some (.ok bytes, v')

/-- Some time from `e` on a card was probed in a context, and the entry says what came of it. -/
structure CardSeen (P : Platform W)
    (status2 : Card → Run (World W) (Except PcscError (List UInt8))) (e : W) (c : Entry) :
    Prop where
  kind : c.kind = .iso7816
  plain : c.atr ≠ some []
  probed : ∃ (w w' v : World W) (opened : _), P.Leads e w.env ∧ w.global.ctx.isSome = true ∧
    Iso7816.openSource P c.name w = some (opened, w') ∧ c.status.Of opened ∧ Later P w' v ∧
    (Present opened → Reports P status2 c.name v c.atr) ∧ (¬ Present opened → c.atr = none)

/-- Some time from `e` on a device node was opened, and the entry says what came of it. -/
structure NodeSeen (P : Platform W) (e : W) (n : Entry) : Prop where
  kind : n.kind = .infnoise
  atr : n.atr = none
  probed : ∃ (w w' : World W) (opened : _), P.Leads e w.env ∧
    Infnoise.openSource P n.name w = some (opened, w') ∧
    (n.status = .usable ↔ ∃ src, opened = .ok src) ∧
    (n.status = .unusable ↔ ∃ err, opened = .error err)

theorem CardSeen.earlier {c : Entry} (h : CardSeen P status2 e' c) (hl : P.Leads e e') :
    CardSeen P status2 e c := by
  obtain ⟨w, w', v, opened, hw, hrest⟩ := h.probed
  exact ⟨h.kind, h.plain, w, w', v, opened, hl.trans hw, hrest⟩

theorem NodeSeen.earlier {n : Entry} (h : NodeSeen P e' n) (hl : P.Leads e e') :
    NodeSeen P e n := by
  obtain ⟨w, w', opened, hw, hrest⟩ := h.probed
  exact ⟨h.kind, h.atr, w, w', opened, hl.trans hw, hrest⟩

/-- The devices of a kind were probed in their order. `Q` is what is known of opening one, and `D`
is what the entry says of it. -/
structure Probed (Q : String → Bool → Prop) (D : Entry → Prop) (names : List String)
    (es : List Entry) : Prop where
  names : es.map Entry.name = names
  opened : ∀ e ∈ es, Q e.name (e.status = .usable)
  seen : ∀ e ∈ es, D e

theorem probed_nil : Probed Q D [] [] := ⟨rfl, by simp, by simp⟩

theorem Probed.cons {names : List String} {es : List Entry} {e : Entry} (h : Probed Q D names es)
    (hQ : Q e.name (e.status = .usable)) (hD : D e) : Probed Q D (e.name :: names) (e :: es) := by
  constructor
  · rw [List.map_cons, h.names]
  · exact List.forall_mem_cons.mpr ⟨hQ, h.opened⟩
  · exact List.forall_mem_cons.mpr ⟨hD, h.seen⟩

theorem Probed.mono {D' : Entry → Prop} {names : List String} {es : List Entry}
    (h : Probed Q D names es) (hD : ∀ e, D e → D' e) : Probed Q D' names es :=
  ⟨h.names, h.opened, fun e he => hD e (h.seen e he)⟩

/-- Asking a card for its ATR is none of the other requests, and comes to an end. -/
def Harmless (P : Platform W) (status2 : Card → Run (World W) (Except PcscError (List UInt8))) :
    Prop := ∀ card, Total (Does P fun _ => False) (status2 card)

/-- Where nothing, or an error, is reported there is no ATR. -/
theorem reports_none {reader : String} (h : ∀ card v v' bytes, Char.ofNat 0 ∉ reader.toList →
    Iso7816.connect P reader w = some (.ok card, v) → status2 card v = some (.ok bytes, v') →
    bytes = []) : Reports P status2 reader w none := by
  intro bytes
  constructor
  · exact nofun
  · rintro ⟨hne, hname, card, v, v', hconnect, hbytes⟩
    exact absurd (h card v v' bytes hname hconnect hbytes) hne

theorem readAtr_yields (hstatus : Harmless P status2) (reader : String) (w : World W) :
    Yields (Iso7816.readAtr P status2 reader) w fun res v => Does P (fun _ => True) w v ∧
      ∃ atr, atr ≠ some [] ∧ Reports P status2 reader w atr ∧
        res.toOption = atr.map fun bytes => String.ofList (Iso7816.atrFrom 0 bytes) := by
  unfold Iso7816.readAtr
  split
  · rename_i hnul
    refine yields_pure ⟨Std.Refl.refl w, none, nofun, reports_none ?_, rfl⟩
    intro card v v' bytes hname
    exact absurd (by simpa using hnul) hname
  rename_i hnul
  have hname : Char.ofNat 0 ∉ reader.toList := by simpa using hnul
  have htotal : Total (Does P fun _ => True) (Iso7816.connect P reader) :=
    Iso7816.connect_total fun _ _ => trivial
  obtain ⟨res, v, hconnect, hv⟩ := htotal w
  refine yields_bind ⟨res, v, hconnect, ?_⟩
  cases res with
  | error e =>
    refine yields_pure ⟨hv, none, nofun, reports_none ?_, rfl⟩
    intro card x x' bytes _ hx
    rw [hconnect] at hx
    cases hx
  | ok card =>
    obtain ⟨res, u, hstat, hu⟩ := hstatus card v
    refine yields_bind ⟨res, u, hstat, ?_⟩
    have hwu := IsTrans.trans _ _ _ hv (hu.mono fun _ h => h.elim)
    -- the card and its answer are these
    have honly : ∀ card' x x' bytes, Iso7816.connect P reader w = some (.ok card', x) →
        status2 card' x = some (.ok bytes, x') → res = .ok bytes := by
      intro card' x x' bytes hx hbytes
      rw [hconnect] at hx
      cases hx
      rw [hstat] at hbytes
      cases hbytes
      rfl
    cases res with
    | error _ =>
      have hdrop : Total (Does P fun _ => True) (Iso7816.dropCard P card) :=
        Iso7816.dropCard_total fun _ => trivial
      refine yields_bind ((hdrop u).mono fun _ x hx => ?_)
      refine yields_pure ⟨IsTrans.trans _ _ _ hwu hx, none, nofun, reports_none ?_, rfl⟩
      intro card' y y' bytes _ hy hbytes
      cases honly card' y y' bytes hy hbytes
    | ok atr =>
      have hleave : Total (Does P fun _ => True) (Iso7816.leaveCard P card) :=
        Iso7816.leaveCard_total fun _ _ => trivial
      refine yields_bind ((hleave u).mono fun _ x hx => ?_)
      have hwx := IsTrans.trans _ _ _ hwu hx
      split
      · rename_i hnil
        refine yields_pure ⟨hwx, none, nofun, reports_none ?_, rfl⟩
        intro card' y y' bytes _ hy hbytes
        cases honly card' y y' bytes hy hbytes
        simpa using hnil
      · rename_i hne
        have hne : atr ≠ [] := by simpa using hne
        refine yields_pure ⟨hwx, some atr, by simpa using hne, fun bytes => ?_, rfl⟩
        constructor
        · rintro ⟨rfl⟩
          exact ⟨hne, hname, card, v, u, hconnect, hstat⟩
        · rintro ⟨_, _, card', y, y', hy, hbytes⟩
          cases honly card' y y' bytes hy hbytes
          rfl

theorem showAtr_yields (hstatus : Harmless P status2) (reader : String)
    (opened : Except Iso7816.Error Iso7816.Source) (w : World W) :
    Yields (showAtr P status2 reader (cardStatus opened)) w fun extra v =>
      Does P (fun _ => True) w v ∧ ∃ atr : Option (List UInt8), atr ≠ some [] ∧
        (Present opened → Reports P status2 reader w atr) ∧ (¬ Present opened → atr = none) ∧
        extra = atr.elim "" atrText := by
  unfold showAtr
  split
  · rename_i hcard
    have hpresent := (hasCard_iff opened).mp hcard
    refine yields_bind ((readAtr_yields hstatus reader w).mono fun res v hv => ?_)
    obtain ⟨hd, atr, hne, hreports, htext⟩ := hv
    cases res with
    | error _ =>
      obtain rfl : atr = none := Option.map_eq_none_iff.mp htext.symm
      exact yields_pure ⟨hd, none, hne, fun _ => hreports, fun h => absurd hpresent h, rfl⟩
    | ok text =>
      obtain ⟨bytes, rfl, rfl⟩ := Option.map_eq_some_iff.mp htext.symm
      exact yields_pure ⟨hd, some bytes, hne, fun _ => hreports, fun h => absurd hpresent h, rfl⟩
  · rename_i hcard
    have hpresent : ¬ Present opened := fun h => hcard ((hasCard_iff opened).mpr h)
    exact yields_pure ⟨Std.Refl.refl w, none, nofun, fun h => absurd h hpresent, fun _ => rfl, rfl⟩

theorem usable_cons (e : Entry) (es : List Entry) (n : UInt32) :
    (if e.status = .usable then n + 1 else n) + UInt32.ofNat (usable es) =
      n + UInt32.ofNat (usable (e :: es)) := by
  by_cases h : e.status = .usable
  · simp [usable, h, UInt32.add_assoc, UInt32.add_comm]
  · simp [usable, h]

theorem probeReaders_yields (hstatus : Harmless P status2) (hc : w.global.ctx.isSome = true)
    {names : List String} (hQ : ∀ name ∈ names, ∀ v, Later P w v →
      Post (Iso7816.openSource P name) v fun res _ => Q name res.isOk) (n : UInt32) :
    Yields (probeReaders P status2 quiet names n) w fun r v => Does P (fun _ => True) w v ∧
      ∃ es, Probed Q (CardSeen P status2 w.env) names es ∧
        r = (n + UInt32.ofNat (usable es), es.map (Entry.line quiet)) := by
  induction names generalizing w n with
  | nil => exact yields_pure ⟨Std.Refl.refl w, [], probed_nil, by simp [usable]⟩
  | cons name names ih =>
    have hopen : Total (Does P fun _ => True) (Iso7816.openSource P name) :=
      Iso7816.openSource_total fun _ _ => trivial
    obtain ⟨opened, v, ho, hv⟩ := hopen w
    have hopened := hQ name List.mem_cons_self w (Std.Refl.refl w) _ _ ho
    refine yields_bind ⟨opened, v, ho, ?_⟩
    have hdrop : Total (Does P fun _ => True) (dropOpened P opened) := by
      cases opened with
      | ok src => exact Iso7816.dropCard_total fun _ => trivial
      | error _ => exact total_pure _
    refine yields_bind ((hdrop v).mono fun _ u hu => ?_)
    refine yields_bind ((showAtr_yields hstatus name opened u).mono fun extra x hx => ?_)
    obtain ⟨hux, atr, hatr, hreports, hnone, rfl⟩ := hx
    have hwx := IsTrans.trans _ _ _ (IsTrans.trans _ _ _ hv hu) hux
    have hcx : x.global.ctx.isSome = true := by
      rw [hwx.global]
      exact hc
    refine yields_bind ((ih hcx (fun m hm y hy => hQ m (List.mem_cons_of_mem _ hm) y
      (IsTrans.trans _ _ _ hwx.later hy)) _).mono fun r y hr => ?_)
    obtain ⟨hxy, es, hprobed, rfl⟩ := hr
    let e : Entry := ⟨.iso7816, name, cardStatus opened, atr⟩
    refine yields_pure ⟨IsTrans.trans _ _ _ hwx hxy, e :: es, ?_, ?_⟩
    · refine (hprobed.mono fun e he => he.earlier hwx.leads).cons (e := e) ?_ ?_
      · have hiff : decide (cardStatus opened = .usable) = opened.isOk := by
          match opened with
          | .ok _ => rfl
          | .error .noCard => rfl
          | .error .unsupported => rfl
          | .error .transport => rfl
        simpa [e, hiff] using hopened
      · exact ⟨rfl, hatr, w, v, u, opened, .refl, hc, ho, cardStatus_of opened, hu.later, hreports,
          hnone⟩
    · exact congrArg (·, _) (usable_cons e es n)

theorem probeNodes_yields {names : List String}
    (hQ : ∀ name ∈ names, ∀ v, Later P w v → Post (Infnoise.openSource P name) v
      fun res _ => Q name res.isOk) (n : UInt32) :
    Yields (probeNodes P quiet names n) w fun r v => Does P (fun _ => True) w v ∧
      ∃ es, Probed Q (NodeSeen P w.env) names es ∧
        r = (n + UInt32.ofNat (usable es), es.map (Entry.line quiet)) := by
  induction names generalizing w n with
  | nil => exact yields_pure ⟨Std.Refl.refl w, [], probed_nil, by simp [usable]⟩
  | cons name names ih =>
    have hopen : Total (Does P fun _ => True) (Infnoise.openSource P name) :=
      Infnoise.openSource_total (fun _ _ => trivial) name
    obtain ⟨opened, v, ho, hv⟩ := hopen w
    have hopened := hQ name List.mem_cons_self w (Std.Refl.refl w) _ _ ho
    refine yields_bind ⟨opened, v, ho, ?_⟩
    refine yields_bind ((ih (fun m hm y hy => hQ m (List.mem_cons_of_mem _ hm) y
      (IsTrans.trans _ _ _ hv.later hy)) _).mono fun r y hr => ?_)
    obtain ⟨hvy, es, hprobed, rfl⟩ := hr
    let e : Entry := ⟨.infnoise, name, nodeStatus opened, none⟩
    refine yields_pure ⟨IsTrans.trans _ _ _ hv hvy, e :: es, ?_, ?_⟩
    · refine (hprobed.mono fun e he => he.earlier hv.leads).cons (e := e) ?_ ?_
      · have hiff : decide (nodeStatus opened = .usable) = opened.isOk := by cases opened <;> rfl
        simpa [e, hiff] using hopened
      · refine ⟨rfl, rfl, w, v, opened, .refl, ho, ?_, ?_⟩
        · cases opened <;> simp [e, nodeStatus]
        · cases opened <;> simp [e, nodeStatus]
    · exact congrArg (·, _) (usable_cons e es n)

theorem usable_eq {names : List String} {es : List Entry} {opens : String → Bool}
    (h : Probed (fun name ok => ok = opens name) D names es) :
    usable es = names.countP opens := by
  rw [← h.names, List.countP_map]
  exact List.countP_congr fun e he => by simp [← h.opened e he]

/-- A heading stands only over a table that has rows, and not with -q. -/
def headed (quiet : Bool) (es : List Entry) (heading : List Line) : List Line :=
  if !es.isEmpty && !quiet then heading else []

/-- The rows of the devices of a kind, under their heading. Where there is no list of them there is
a complaint. -/
def tabled (quiet : Bool) (listing : Option (List String)) (complaint : String)
    (heading : List Line) (es : List Entry) : List Line :=
  (if listing.isSome then [] else complain quiet complaint) ++ headed quiet es heading ++
    es.map (Entry.line quiet)

theorem tabled_quiet {listing : Option (List String)} {complaint : String} {heading : List Line}
    {es : List Entry} : tabled true listing complaint heading es = es.map (Entry.line true) := by
  simp [tabled, complain, headed]

/-- What the survey of the devices of a kind leads to: those that are listed were probed, and each
has its row. -/
structure Surveyed (Q : String → Bool → Prop) (D : Entry → Prop) (quiet : Bool)
    (heading : List Line) (listing : Option (List String)) (s : Survey) (es : List Entry) :
    Prop where
  probed : Probed Q D (listing.getD []) es
  total : s.total = UInt32.ofNat es.length
  usable : s.usable = UInt32.ofNat (usable es)
  lines : ∃ complaint, s.lines = tabled quiet listing complaint heading es

theorem Surveyed.mono {D' : Entry → Prop} {heading : List Line} {listing : Option (List String)}
    {s : Survey} {es : List Entry} (h : Surveyed Q D quiet heading listing s es)
    (hD : ∀ e, D e → D' e) : Surveyed Q D' quiet heading listing s es :=
  ⟨h.probed.mono hD, h.total, h.usable, h.lines⟩

theorem surveyed_none {heading : List Line} (text : String) :
    Surveyed Q D quiet heading none ⟨0, 0, complain quiet text⟩ [] := by
  refine ⟨probed_nil, rfl, rfl, text, ?_⟩
  simp [tabled, headed]

variable {R : Option (List String) → Prop}

theorem surveyReaders_yields (hstatus : Harmless P status2) (hc : w.global.ctx.isSome = true)
    (hR : Post (Iso7816.listReaders P) w fun res _ => R res.toOption)
    (hQ : ∀ names, R (some names) → ∀ name ∈ names, ∀ v, Later P w v →
      Post (Iso7816.openSource P name) v fun res _ => Q name res.isOk) :
    Yields (surveyReaders P status2 quiet) w fun s v => Does P (fun _ => True) w v ∧
      ∃ listing es, R listing ∧
        Surveyed Q (CardSeen P status2 w.env) quiet [.out "iso7816 (PC/SC):"] listing s es := by
  have hlist : Total (Does P fun _ => True) (Iso7816.listReaders P) :=
    Iso7816.listReaders_total fun _ _ => trivial
  obtain ⟨res, v, hres, hv⟩ := hlist w
  have hlisted := hR res v hres
  refine yields_bind ⟨res, v, hres, ?_⟩
  cases res with
  | error _ => exact yields_pure ⟨hv, none, [], hlisted, surveyed_none _⟩
  | ok readers =>
    have hcv : v.global.ctx.isSome = true := by
      rw [hv.global]
      exact hc
    refine yields_bind ((probeReaders_yields hstatus hcv (fun name hname u hu => hQ readers hlisted
      name hname u (IsTrans.trans _ _ _ hv.later hu)) 0).mono fun r u hr => ?_)
    obtain ⟨hvu, es, hprobed, rfl⟩ := hr
    refine yields_pure ⟨IsTrans.trans _ _ _ hv hvu, some readers, es, hlisted,
      hprobed.mono fun e he => he.earlier hv.leads, ?_, ?_, "", ?_⟩
    · rw [← hprobed.names, List.length_map]
    · exact UInt32.zero_add _
    · simp [tabled, headed, ← hprobed.names]

theorem surveyNodes_yields {total : UInt32}
    (hR : Post (Infnoise.listPaths P) w fun res _ => R res.toOption)
    (hQ : ∀ names, R (some names) → ∀ name ∈ names, ∀ v, Later P w v →
      Post (Infnoise.openSource P name) v fun res _ => Q name res.isOk) :
    Yields (surveyNodes P quiet total) w fun s v => Does P (fun _ => True) w v ∧
      ∃ listing es, R listing ∧ Surveyed Q (NodeSeen P w.env) quiet
        ((if total > 0 then [.out ""] else []) ++ [.out "infnoise (/dev/infnoiseN):"])
        listing s es := by
  have hlist : Total (Does P fun _ => True) (Infnoise.listPaths P) :=
    Infnoise.listPaths_total fun _ _ => trivial
  obtain ⟨res, v, hres, hv⟩ := hlist w
  have hlisted := hR res v hres
  refine yields_bind ⟨res, v, hres, ?_⟩
  cases res with
  | error _ => exact yields_pure ⟨hv, none, [], hlisted, surveyed_none _⟩
  | ok paths =>
    refine yields_bind ((probeNodes_yields (fun name hname u hu => hQ paths hlisted
      name hname u (IsTrans.trans _ _ _ hv.later hu)) 0).mono fun r u hr => ?_)
    obtain ⟨hvu, es, hprobed, rfl⟩ := hr
    refine yields_pure ⟨IsTrans.trans _ _ _ hv hvu, some paths, es, hlisted,
      hprobed.mono fun e he => he.earlier hv.leads, ?_, ?_, "", ?_⟩
    · rw [← hprobed.names, List.length_map]
    · exact UInt32.zero_add _
    · simp [tabled, headed, ← hprobed.names]

end Tools.Inventory
end P11Rand
