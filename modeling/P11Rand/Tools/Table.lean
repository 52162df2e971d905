import P11Rand.Listing
import P11Rand.Tools.Surveying

/-! What `p11rand-list -q` prints can be read in one way only. -/
namespace P11Rand

open Effect Run

/-- Two joined lists of pieces without the separator are the same only if their pieces are. -/
theorem intercalate_inj {x : Char} {ls ls' : List (List Char)} (h : ∀ l ∈ ls, x ∉ l)
    (hne : ls ≠ []) (h' : ∀ l ∈ ls', x ∉ l) (hne' : ls' ≠ [])
    (heq : [x].intercalate ls = [x].intercalate ls') : ls = ls' := by
  rw [← List.splitOn_intercalate x h hne, heq, List.splitOn_intercalate x h' hne']

theorem mem_intercalate {x y : Char} {ls : List (List Char)} (h : x ∈ [y].intercalate ls) :
    x = y ∨ ∃ l ∈ ls, x ∈ l := by
  induction ls with
  | nil => cases h
  | cons l ls ih =>
    cases ls with
    | nil => exact .inr ⟨l, List.mem_cons_self, by simpa using h⟩
    | cons l' ls =>
      rw [List.intercalate_cons_cons, List.mem_append, List.mem_append, List.mem_singleton] at h
      rcases h with (h | h) | h
      · exact .inr ⟨l, List.mem_cons_self, h⟩
      · exact .inl h
      · obtain h | ⟨m, hm, hx⟩ := ih h
        · exact .inl h
        · exact .inr ⟨m, List.mem_cons_of_mem _ hm, hx⟩

namespace Iso7816

variable {atr atr' : List UInt8}

theorem upperHexDigit_inj : ∀ n < 16, ∀ m < 16, upperHexDigit n = upperHexDigit m → n = m := by
  decide

/-- No hexadecimal digit is a separator. -/
theorem le_upperHexDigit : ∀ n < 16, 48 ≤ (upperHexDigit n).toNat := by decide

theorem upperHex_injective : Function.Injective upperHex := by
  intro b c h
  have hb := b.toNat_lt
  have hc := c.toNat_lt
  simp only [upperHex, List.cons.injEq, and_true] at h
  have hhigh := upperHexDigit_inj _ (by omega) _ (by omega) h.1
  have hlow := upperHexDigit_inj _ (by omega) _ (by omega) h.2
  exact UInt8.toNat_inj.mp (by omega)

theorem le_of_mem_upperHex {b : UInt8} {x : Char} (h : x ∈ upperHex b) : 48 ≤ x.toNat := by
  have hb := b.toNat_lt
  rcases List.mem_cons.mp h with rfl | h
  · exact le_upperHexDigit _ (by omega)
  · rw [List.mem_singleton.mp h]
    exact le_upperHexDigit _ (by omega)

theorem atrFrom_succ (i : Nat) (b : UInt8) (bs : List UInt8) :
    upperHex b ++ atrFrom (i + 1) bs = [' '].intercalate ((b :: bs).map upperHex) := by
  induction bs generalizing i b with
  | nil => simp [atrFrom]
  | cons c bs ih =>
    rw [atrFrom, if_pos (Nat.succ_pos i), List.append_assoc, ih]
    simp

/-- The bytes of an ATR stand with a space between them. -/
theorem atrFrom_eq (atr : List UInt8) :
    atrFrom 0 atr = [' '].intercalate (atr.map upperHex) := by
  cases atr with
  | nil => rfl
  | cons b bs => rw [← atrFrom_succ 0, atrFrom, if_neg (by simp), List.nil_append]

theorem atrFrom_inj (hne : atr ≠ []) (hne' : atr' ≠ []) (h : atrFrom 0 atr = atrFrom 0 atr') :
    atr = atr' := by
  have hspace : ∀ bytes : List UInt8, ∀ l ∈ bytes.map upperHex, ' ' ∉ l := by
    intro bytes l hl hmem
    obtain ⟨b, _, rfl⟩ := List.mem_map.mp hl
    exact absurd (le_of_mem_upperHex hmem) (by decide)
  rw [atrFrom_eq, atrFrom_eq] at h
  have hmap := intercalate_inj (hspace atr) (by simpa using hne) (hspace atr')
    (by simpa using hne') h
  exact List.map_injective_iff.mpr upperHex_injective hmap

theorem mem_atrFrom {i : Nat} {x : Char} (h : x ∈ atrFrom i atr) : x = ' ' ∨ 48 ≤ x.toNat := by
  induction atr generalizing i with
  | nil => cases h
  | cons b bs ih =>
    rw [atrFrom, List.mem_append, List.mem_append] at h
    rcases h with (h | h) | h
    · split at h
      · exact .inl (List.mem_singleton.mp h)
      · cases h
    · exact .inr (le_of_mem_upperHex h)
    · exact ih h

end Iso7816

namespace Tools.Inventory

/-- What ends up on the standard output. -/
def stdout : List Line → List Char
  | [] => []
  | .out text :: lines => text.toList ++ '\n' :: stdout lines
  | .err _ :: lines => stdout lines

/-- A name that leaves the table readable. -/
def PlainName (name : String) : Prop := '\t' ∉ name.toList ∧ '\n' ∉ name.toList

/-- An entry that leaves the table readable. -/
def Entry.Plain (e : Entry) : Prop := PlainName e.name ∧ e.atr ≠ some []

/-- The columns of an entry. -/
def Entry.fields (e : Entry) : List (List Char) :=
  [(kindText e.kind).toList, e.name.toList, e.status.text.toList] ++
    (e.atr.map fun atr => "ATR=".toList ++ Iso7816.atrFrom 0 atr).toList

variable {e e' : Entry} {es es' : List Entry}

theorem kindText_inj {k k' : SlotKind} (h : (kindText k).toList = (kindText k').toList) :
    k = k' := by
  cases k <;> cases k' <;> first | rfl | exact absurd h (by decide)

theorem statusText_inj {s s' : Status} (h : s.text.toList = s'.text.toList) : s = s' := by
  cases s <;> cases s' <;> first | rfl | exact absurd h (by decide)

/-- A line of the table: the columns with tabs between them. -/
theorem stdout_line (e : Entry) (lines : List Line) :
    stdout (e.line true :: lines) = ['\t'].intercalate e.fields ++ '\n' :: stdout lines := by
  obtain ⟨kind, name, status, atr⟩ := e
  cases atr with
  | none =>
    have hline : Entry.line true ⟨kind, name, status, none⟩ =
        .out (kindText kind ++ "\t" ++ name ++ "\t" ++ status.text) := rfl
    rw [hline, stdout]
    simp [Entry.fields]
  | some atr =>
    have hne : atrText atr ≠ "" := by
      intro h
      have hlen := congrArg String.length h
      simp [atrText] at hlen
    have hline : Entry.line true ⟨kind, name, status, some atr⟩ =
        .out (kindText kind ++ "\t" ++ name ++ "\t" ++ status.text ++ "\t" ++ atrText atr) := by
      change emit true _ _ _ (atrText atr) = _
      rw [emit, if_pos rfl, if_pos hne]
    rw [hline, stdout]
    simp [Entry.fields, atrText]

theorem stdout_lines (es : List Entry) : stdout (es.map (Entry.line true)) =
    ['\n'].intercalate (es.map (fun e => ['\t'].intercalate e.fields) ++ [[]]) := by
  induction es with
  | nil => rfl
  | cons e es ih =>
    rw [List.map_cons, stdout_line, ih, List.map_cons, List.cons_append,
      List.intercalate_cons_of_ne_nil (by simp)]
    simp

theorem separator_lt {x : Char} (hx : x = '\t' ∨ x = '\n') : x.toNat < 32 := by
  rcases hx with rfl | rfl <;> decide

/-- The columns of a plain entry hold neither separator. -/
theorem Entry.Plain.fields (h : e.Plain) {x : Char} (hx : x = '\t' ∨ x = '\n') :
    ∀ l ∈ e.fields, x ∉ l := by
  obtain ⟨kind, name, status, atr⟩ := e
  obtain ⟨⟨htab, hline⟩, _⟩ := h
  have hlt := separator_lt hx
  have hkind : x ∉ (kindText kind).toList := by
    rcases hx with rfl | rfl <;> cases kind <;> decide
  have hname : x ∉ name.toList := by
    rcases hx with rfl | rfl
    · exact htab
    · exact hline
  have hstatus : x ∉ status.text.toList := by
    rcases hx with rfl | rfl <;> cases status <;> decide
  have hatr : ∀ atr, x ∉ "ATR=".toList ++ Iso7816.atrFrom 0 atr := by
    intro atr hmem
    rcases List.mem_append.mp hmem with h | h
    · rcases hx with rfl | rfl <;> exact absurd h (by decide)
    · rcases Iso7816.mem_atrFrom h with rfl | h
      · exact absurd hlt (by decide)
      · omega
  intro l hl
  rcases List.mem_append.mp hl with hl | hl
  · simp only [List.mem_cons, List.not_mem_nil, or_false] at hl
    rcases hl with rfl | rfl | rfl
    · exact hkind
    · exact hname
    · exact hstatus
  · obtain ⟨a, ha⟩ := Option.mem_toList.mp hl |> Option.map_eq_some_iff.mp
    rw [← ha.2]
    exact hatr a

theorem fields_inj (h : e.Plain) (h' : e'.Plain) (heq : e.fields = e'.fields) : e = e' := by
  obtain ⟨kind, name, status, atr⟩ := e
  obtain ⟨kind', name', status', atr'⟩ := e'
  simp only [Entry.fields, List.cons_append, List.nil_append, List.cons.injEq] at heq
  obtain ⟨hkind, hname, hstatus, hatr⟩ := heq
  obtain rfl := kindText_inj hkind
  obtain rfl := String.toList_inj.mp hname
  obtain rfl := statusText_inj hstatus
  cases atr with
  | none =>
    cases atr' with
    | none => rfl
    | some _ => simp at hatr
  | some atr =>
    cases atr' with
    | none => simp at hatr
    | some atr' =>
      have hatr : Iso7816.atrFrom 0 atr = Iso7816.atrFrom 0 atr' := by simpa using hatr
      have hne : atr ≠ [] := fun hnil => h.2 (congrArg some hnil)
      have hne' : atr' ≠ [] := fun hnil => h'.2 (congrArg some hnil)
      rw [Iso7816.atrFrom_inj hne hne' hatr]

theorem Entry.Plain.line (h : e.Plain) : '\n' ∉ ['\t'].intercalate e.fields := by
  intro hmem
  obtain hx | ⟨l, hl, hx⟩ := mem_intercalate hmem
  · exact absurd hx (by decide)
  · exact h.fields (.inr rfl) l hl hx

theorem line_inj (h : e.Plain) (h' : e'.Plain)
    (heq : ['\t'].intercalate e.fields = ['\t'].intercalate e'.fields) : e = e' :=
  fields_inj h h' <| intercalate_inj (h.fields (.inl rfl)) (by simp [Entry.fields])
    (h'.fields (.inl rfl)) (by simp [Entry.fields]) heq

theorem lines_inj (h : ∀ e ∈ es, e.Plain) (h' : ∀ e ∈ es', e.Plain)
    (heq : es.map (fun e => ['\t'].intercalate e.fields) =
      es'.map fun e => ['\t'].intercalate e.fields) : es = es' := by
  induction es generalizing es' with
  | nil => exact (List.map_eq_nil_iff.mp heq.symm).symm
  | cons e es ih =>
    cases es' with
    | nil => cases heq
    | cons e' es' =>
      obtain ⟨he, hes⟩ := List.forall_mem_cons.mp h
      obtain ⟨he', hes'⟩ := List.forall_mem_cons.mp h'
      obtain ⟨hline, hrest⟩ := List.cons.inj heq
      rw [line_inj he he' hline, ih hes hes' hrest]

/-- Plain entries that print the same table are the same. -/
theorem table_inj (h : ∀ e ∈ es, e.Plain) (h' : ∀ e ∈ es', e.Plain)
    (heq : stdout (es.map (Entry.line true)) = stdout (es'.map (Entry.line true))) : es = es' := by
  have hlines : ∀ es : List Entry, (∀ e ∈ es, e.Plain) →
      ∀ l ∈ es.map (fun e => ['\t'].intercalate e.fields) ++ [[]], '\n' ∉ l := by
    intro es hes l hl
    rcases List.mem_append.mp hl with hl | hl
    · obtain ⟨e, he, rfl⟩ := List.mem_map.mp hl
      exact (hes e he).line
    · rw [List.mem_singleton.mp hl]
      exact List.not_mem_nil
  rw [stdout_lines, stdout_lines] at heq
  have hpieces := intercalate_inj (hlines es h) (by simp) (hlines es' h') (by simp) heq
  exact lines_inj h h' (List.append_cancel_right hpieces)

theorem char_ne_separator {b : UInt8} {x : Char} (hb : 32 ≤ b.toNat) (hx : x = '\t' ∨ x = '\n') :
    Char.ofNat b.toNat ≠ x := by
  rintro rfl
  have hlt := separator_lt hx
  have hbyte := congrArg UInt8.toNat (Infnoise.byte_of_char b)
  rw [UInt8.toNat_ofNat'] at hbyte
  omega

/-- The name of a device node is plain. -/
theorem plain_pathOf {name : List UInt8} (h : Infnoise.DeviceNode name) :
    PlainName (Infnoise.pathOf name) := by
  obtain ⟨digits, rfl, _, hdigits⟩ := h
  have hletters : ∀ b ∈ Infnoise.asciiBytes Infnoise.devPrefix, 32 ≤ b.toNat := by
    simp [Infnoise.asciiBytes, Infnoise.devPrefix]
  have hbytes : ∀ b ∈ Infnoise.asciiBytes Infnoise.devPrefix ++ digits, 32 ≤ b.toNat := by
    intro b hb
    rcases List.mem_append.mp hb with hb | hb
    · exact hletters b hb
    · have hascii := hdigits b hb
      simp only [Infnoise.isAsciiDigit, Bool.and_eq_true, decide_eq_true_eq] at hascii
      omega
  have hno : ∀ x, x = '\t' ∨ x = '\n' → x ∉ (Infnoise.pathOf (Infnoise.asciiBytes
      Infnoise.devPrefix ++ digits)).toList := by
    intro x hx hmem
    rw [Infnoise.pathOf, Infnoise.asciiString, String.toList_append, String.toList_ofList,
      List.mem_append] at hmem
    rcases hmem with h | h
    · rcases hx with rfl | rfl <;> exact absurd h (by decide)
    · obtain ⟨b, hb, hchar⟩ := List.mem_map.mp h
      exact char_ne_separator (hbytes b hb) hx hchar
  exact ⟨hno _ (.inl rfl), hno _ (.inr rfl)⟩

variable {W : Type} {P : Platform W} {w : World W}

theorem listPaths_plain : Post (Infnoise.listPaths P) w fun res _ =>
    ∀ names, res = .ok names → ∀ name ∈ names, PlainName name := by
  intro res v h names hnames name hname
  subst hnames
  obtain ⟨ans, u, hq, h⟩ := bind_eq_some.mp h
  match ans with
  | .error .notFound =>
    cases h
    cases hname
  | .error .other => cases h
  | .ok entries =>
    cases h
    obtain ⟨⟨key, path⟩, hnode, rfl⟩ := List.mem_map.mp hname
    have hnode := (List.mem_insertionSort _).mp hnode
    obtain ⟨node, _, hnode⟩ := List.mem_filterMap.mp hnode
    have hdevice : Infnoise.DeviceNode node := Infnoise.nodeOf_isSome.mp (by rw [hnode]; rfl)
    rw [Infnoise.nodeOf_node hdevice] at hnode
    cases hnode
    exact plain_pathOf hdevice

variable {status2 : Card → Run (World W) (Except PcscError (List UInt8))} {a : Args}
  {Q Q' : String → Bool → Prop} {R R' : Option (List String) → Prop}

/-- With `-q` the entries can be read back from the standard output: the devices that were listed,
in order, with what came of probing them. Reader names that break lines or columns aside, no other
entries print the same. -/
theorem quiet_output_determines {argv : List String} (hargv : parseArgs argv = .ok a)
    (hquiet : "-q" ∈ argv.tail) (hstatus : Harmless P status2) (hg : w.global = ⟨none, 0⟩)
    (hcards : Known P .iso7816 R Q w.env) (hnodes : Known P .infnoise R' Q' w.env)
    (hplain : ∀ names, R (some names) → ∀ name ∈ names, PlainName name) :
    Yields (main P status2 a) w fun r _ => ∃ listing cards listing' nodes,
      (listing = none ∧ ¬ P.Establishes w.env ∨ R listing) ∧
      Probed Q (CardSeen P status2 w.env) (listing.getD []) cards ∧ R' listing' ∧
      Probed Q' (NodeSeen P w.env) (listing'.getD []) nodes ∧
      (∀ e ∈ cards ++ nodes, e.Plain) ∧
      stdout r.2 = stdout ((cards ++ nodes).map (Entry.line true)) ∧
      ∀ es : List Entry, (∀ e ∈ es, e.Plain) → stdout (es.map (Entry.line true)) = stdout r.2 →
        es = cards ++ nodes := by
  have hquiet : a.quiet = true := by
    rw [parseArgs_quiet hargv]
    simpa using hquiet
  have hnodes : Known P .infnoise (fun l => R' l ∧ ∀ names, l = some names →
      ∀ name ∈ names, PlainName name) Q' w.env := by
    refine ⟨fun u hu hc => (hnodes.lists u hu hc).and ?_, fun u hu hc names hR =>
      hnodes.opens u hu hc names hR.1⟩
    intro res v h names hnames
    obtain ⟨found, x, hlist, h⟩ := bind_eq_some.mp h
    cases h
    cases found with
    | error _ => cases hnames
    | ok found =>
      cases hnames
      exact listPaths_plain _ _ hlist names rfl
  refine (main_yields hstatus hg hcards hnodes).mono fun r v hr => ?_
  obtain ⟨_, _, _, listing, cards, listing', nodes, s, s', hR, ⟨hR', hlisted⟩, hsaid⟩ := hr
  rw [hquiet] at hsaid
  have hprobed := hsaid.cards.probed
  have hprobed' := hsaid.nodes.probed
  have hall : ∀ e ∈ cards ++ nodes, e.Plain := by
    intro e he
    rcases List.mem_append.mp he with he | he
    · have hname : e.name ∈ listing.getD [] := hprobed.names ▸ List.mem_map_of_mem he
      refine ⟨?_, (hprobed.seen e he).plain⟩
      cases listing with
      | none => cases hname
      | some names => exact hplain names (hR.resolve_left fun h => nomatch h.1) _ hname
    · have hname : e.name ∈ listing'.getD [] := hprobed'.names ▸ List.mem_map_of_mem he
      refine ⟨?_, by simp [(hprobed'.seen e he).atr]⟩
      cases listing' with
      | none => cases hname
      | some names => exact hlisted names rfl _ hname
  have hprinted : r.2 = (cards ++ nodes).map (Entry.line true) := by
    obtain ⟨_, hlines⟩ := hsaid.cards.lines
    obtain ⟨_, hlines'⟩ := hsaid.nodes.lines
    rw [hsaid.lines, hlines, hlines', tabled_quiet, tabled_quiet, List.map_append]
    exact List.append_nil _
  refine ⟨listing, cards, listing', nodes, hR, hprobed, hR', hprobed', hall,
    congrArg stdout hprinted, ?_⟩
  intro es hes heq
  exact table_inj hes hall (heq.trans (congrArg stdout hprinted))

theorem quiet_output_determines_smartcard :
    parseArgs ["p11rand-list", "-q"] = .ok ⟨true, false⟩ ∧
    Yields (main Bench.smartcard.machine (fun _ => pure (.ok [0x3B, 0x00])) ⟨true, false⟩)
      (Bench.start none) fun r _ =>
        stdout r.2 = "iso7816\treader 0\tusable\tATR=3B 00\n".toList ∧
        ∀ es : List Entry, (∀ e ∈ es, e.Plain) → stdout (es.map (Entry.line true)) = stdout r.2 →
          es = [⟨.iso7816, "reader 0", .usable, some [0x3B, 0x00]⟩] := by
  have hstatus : Harmless Bench.smartcard.machine fun _ => pure (.ok [0x3B, 0x00]) :=
    fun _ => total_pure _
  have hsteady := Bench.smartcard.steady
  have hplain : ∀ names, some names = some ["reader 0"] → ∀ name ∈ names, PlainName name := by
    rintro _ ⟨rfl⟩ name hname
    rw [List.mem_singleton.mp hname]
    exact ⟨by decide, by decide⟩
  have hargv : parseArgs ["p11rand-list", "-q"] = .ok ⟨true, false⟩ := rfl
  refine ⟨hargv, ?_⟩
  obtain ⟨r, v, hr, listing, cards, _, nodes, hR, hprobed, rfl, hprobed', _, hprinted, honly⟩ :=
    quiet_output_determines (w := Bench.start none) hargv (by simp) hstatus rfl
      (hsteady.known .iso7816) (hsteady.known .infnoise) hplain
  obtain rfl := hR.resolve_left fun h => h.2 ⟨⟨0⟩, rfl⟩
  obtain rfl : nodes = [] := List.map_eq_nil_iff.mp hprobed'.names
  have hone : cards.map Entry.name = ["reader 0"] := hprobed.names
  obtain ⟨c, rfl⟩ := List.length_eq_one_iff.mp (by simpa using congrArg List.length hone)
  obtain ⟨hname, _⟩ := List.cons.inj hone
  have hrow := Bench.row_of (by simp) (hprobed.seen c List.mem_cons_self) (by rw [hname]; decide) ?_
  · rw [hname] at hrow
    subst hrow
    exact ⟨r, v, hr, hprinted.trans (by decide), honly⟩
  · have hopens : decide (c.status = .usable) = Bench.smartcard.cards.opens c.name :=
      hprobed.opened c List.mem_cons_self
    rw [hname] at hopens
    exact of_decide_eq_true hopens

end Tools.Inventory
end P11Rand
