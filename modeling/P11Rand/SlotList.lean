import P11Rand.Probing

/-! The size protocol of `C_GetSlotList`: its two passes over the slots agree. -/
namespace P11Rand

open Effect Run

variable {W : Type} {P : Platform W} {w w' : World W} {cfg : Config} {m m' : Module}
  {answers fs : List Bool} {tokenPresent : UInt8} {count : CkUlong}

/-- The presence probes of so many slots, in order. -/
def probes (P : Platform W) (cfg : Config) : Nat → Run (World W) (List Bool)
  | 0 => return []
  | n + 1 => do
    let present := (← fillable P cfg).toOption.getD false
    return present :: (← probes P cfg n)

/-- Which of so many slots a call lists: all of them, or those that its probes found present. -/
def listing (P : Platform W) (cfg : Config) (filter : Bool) (n : Nat) :
    Run (World W) (List Bool) :=
  if filter then probes P cfg n else return List.replicate n true

/-- The ids of the slots that are flagged. -/
def flagged (fs : List Bool) : List CkUlong :=
  (fs.zipIdx.filter Prod.fst).map fun e => UInt64.ofNat e.2

/-- The slots with the presence that the probes found. -/
def refreshed (slots : List SlotState) (answers : List Bool) : List SlotState :=
  slots.zipWith (fun s tokenPresent => { s with tokenPresent }) answers

theorem probes_total (n : Nat) : Total (Does P fun _ => True) (probes P cfg n) := by
  induction n with
  | zero => exact total_pure _
  | succ n ih => exact total_bind (fillable_total cfg) fun _ => total_bind ih fun _ => total_pure _

theorem probes_length {n : Nat} (h : probes P cfg n w = some (answers, w')) :
    answers.length = n := by
  induction n generalizing answers w with
  | zero =>
    cases h
    rfl
  | succ n ih =>
    obtain ⟨_, v, _, h⟩ := bind_eq_some.mp h
    obtain ⟨rest, u, hrest, h⟩ := bind_eq_some.mp h
    cases h
    exact congrArg (· + 1) (ih hrest)

theorem listing_total (P : Platform W) (cfg : Config) (filter : Bool) (n : Nat) :
    Total (Does P fun _ => True) (listing P cfg filter n) := by
  cases filter with
  | true => exact probes_total n
  | false => exact total_pure _

theorem listing_length {filter : Bool} {n : Nat} (h : listing P cfg filter n w = some (fs, w')) :
    fs.length = n := by
  cases filter with
  | true => exact probes_length h
  | false =>
    cases h
    exact List.length_replicate

theorem length_flagged (fs : List Bool) : (flagged fs).length = fs.count true := by
  have hfst : fs.zipIdx.countP Prod.fst = (fs.zipIdx.map Prod.fst).countP (· == true) := by
    rw [List.countP_map]
    exact List.countP_congr fun e _ => by simp
  rw [flagged, List.length_map, ← List.countP_eq_length_filter, hfst, List.zipIdx_map_fst]
  rfl

theorem mem_flagged {id : CkUlong} :
    id ∈ flagged fs ↔ ∃ i, fs[i]? = some true ∧ id = UInt64.ofNat i := by
  simp only [flagged, List.mem_map, List.mem_filter, Prod.exists]
  constructor
  · rintro ⟨b, i, ⟨hmem, rfl⟩, rfl⟩
    exact ⟨i, List.mem_zipIdx_iff_getElem?.mp hmem, rfl⟩
  · rintro ⟨i, hi, rfl⟩
    exact ⟨true, i, ⟨List.mem_zipIdx_iff_getElem?.mpr hi, rfl⟩, rfl⟩

theorem flagged_ascending (hlen : fs.length ≤ 2 ^ 64) : (flagged fs).Pairwise (· < ·) := by
  have hidx : (fs.zipIdx.filter Prod.fst).Pairwise fun e e' => e.2 < e'.2 ∧ e'.2 < fs.length := by
    apply List.Pairwise.filter
    rw [← List.pairwise_map (f := Prod.snd) (R := fun i j => i < j ∧ j < fs.length)]
    rw [List.zipIdx_map_snd]
    refine List.Pairwise.imp_of_mem (fun {i j} _ hj hlt => ⟨hlt, ?_⟩) List.pairwise_lt_range'
    have := List.mem_range'_1.mp hj
    omega
  rw [flagged, List.pairwise_map]
  refine hidx.imp fun {e e'} ⟨hlt, hbound⟩ => ?_
  have hsize : UInt64.size = 2 ^ 64 := rfl
  rw [UInt64.lt_iff_toNat_lt, UInt64.toNat_ofNat_of_lt', UInt64.toNat_ofNat_of_lt']
  all_goals omega

/-- The ids that the second pass writes. -/
def chosen (filter : Bool) (ss : List (SlotState × Nat)) : List CkUlong :=
  (ss.filter fun s => !filter || s.1.tokenPresent).map fun s => UInt64.ofNat s.2

theorem chosen_cons (filter : Bool) (s : SlotState × Nat) (ss : List (SlotState × Nat)) :
    chosen filter (s :: ss) =
      if filter && !s.1.tokenPresent then chosen filter ss
      else UInt64.ofNat s.2 :: chosen filter ss := by
  cases filter <;> cases h : s.1.tokenPresent <;> simp [chosen, h]

/-- The second pass counts what it writes, wherever it writes it. -/
theorem writeSlots_snd (filter : Bool) (ss : List (SlotState × Nat)) (out : Nat)
    (list : List CkUlong) :
    (Module.writeSlots filter ss out list).2 = out + (chosen filter ss).length := by
  induction ss generalizing out list with
  | nil => rfl
  | cons s ss ih =>
    rw [Module.writeSlots, chosen_cons]
    split
    · exact ih out list
    · rw [ih, List.length_cons]
      omega

theorem writeSlots_fst (filter : Bool) (ss : List (SlotState × Nat)) (out : Nat)
    (list : List CkUlong) (h : out + (chosen filter ss).length ≤ list.length) :
    (Module.writeSlots filter ss out list).1 =
      list.take out ++ chosen filter ss ++ list.drop (out + (chosen filter ss).length) := by
  induction ss generalizing out list with
  | nil => simp [Module.writeSlots, chosen]
  | cons s ss ih =>
    rw [Module.writeSlots]
    rw [chosen_cons] at h ⊢
    split
    · rename_i hskip
      rw [if_pos hskip] at h
      exact ih out list h
    · rename_i hskip
      rw [if_neg hskip, List.length_cons] at h
      have hlt : out < list.length := by omega
      have htake : (list.set out (UInt64.ofNat s.2)).take (out + 1) =
          list.take out ++ [UInt64.ofNat s.2] := by
        rw [List.take_add_one, List.take_set_of_le le_rfl, List.getElem?_set_self hlt]
        rfl
      have hdrop : (list.set out (UInt64.ofNat s.2)).drop (out + 1 + (chosen filter ss).length) =
          list.drop (out + 1 + (chosen filter ss).length) := List.drop_set_of_lt (by omega)
      have hroom : out + 1 + (chosen filter ss).length ≤
          (list.set out (UInt64.ofNat s.2)).length := by
        rw [List.length_set]
        omega
      have hlen : out + ((chosen filter ss).length + 1) = out + 1 + (chosen filter ss).length := by
        omega
      rw [ih _ _ hroom, htake, hdrop, List.length_cons, hlen]
      simp

/-- Without the filter the first pass counts every slot and probes none. -/
theorem countSlots_all (is : List Nat) (want : Nat) :
    Module.countSlots P cfg false is m want w = some ((want + is.length, m), w) := by
  induction is generalizing want with
  | nil => rfl
  | cons i is ih =>
    rw [Module.countSlots, if_neg (by decide), ih, List.length_cons, Nat.add_right_comm,
      Nat.add_assoc]

/-- With it the first pass probes every slot, counts those that are present and stores that. -/
theorem countSlots_probes (old todo : List SlotState) (want : Nat) (hm : m.slots = old ++ todo)
    (h : probes P cfg todo.length w = some (answers, w')) :
    Module.countSlots P cfg true (List.range' old.length todo.length) m want w = some
      ((want + answers.count true, { m with slots := old ++ refreshed todo answers }), w') := by
  induction todo generalizing old m want w answers with
  | nil =>
    cases h
    simp [Module.countSlots, refreshed, ← hm]
  | cons s todo ih =>
    obtain ⟨res, v, hf, h⟩ := bind_eq_some.mp h
    obtain ⟨rest, u, hrest, h⟩ := bind_eq_some.mp h
    cases h
    generalize hpresent : res.toOption.getD false = present
    have hset : m.setTokenPresent old.length present v =
        some ({ m with slots := (old ++ [⟨s.name, present⟩]) ++ todo }, v) := by
      simp [Module.setTokenPresent, hm]
    have hslot : m.refreshSlot P cfg old.length w =
        some ((present, { m with slots := (old ++ [⟨s.name, present⟩]) ++ todo }), v) := by
      refine (bind_of_eq hf).trans ?_
      rw [hpresent]
      exact bind_of_eq hset
    rw [List.length_cons, List.range'_succ, Module.countSlots, if_pos rfl, bind_of_eq hslot]
    have hnext (want : Nat) := ih (old ++ [⟨s.name, present⟩]) want
      (m := { m with slots := (old ++ [⟨s.name, present⟩]) ++ todo }) rfl hrest
    rw [List.length_append, List.length_singleton] at hnext
    cases present with
    | true =>
      refine (hnext (want + 1)).trans ?_
      simp [refreshed, Nat.add_right_comm, Nat.add_assoc]
    | false =>
      refine (hnext want).trans ?_
      simp [refreshed]

theorem chosen_refreshed (slots : List SlotState) (answers : List Bool) (k : Nat)
    (h : answers.length = slots.length) :
    chosen true ((refreshed slots answers).zipIdx k) =
      ((answers.zipIdx k).filter Prod.fst).map fun e => UInt64.ofNat e.2 := by
  induction slots generalizing answers k with
  | nil =>
    rw [List.length_eq_zero_iff.mp h]
    rfl
  | cons s slots ih =>
    cases answers with
    | nil => cases h
    | cons a answers =>
      have hrest := ih answers (k + 1) (Nat.succ.inj h)
      rw [refreshed, List.zipWith_cons_cons, List.zipIdx_cons, List.zipIdx_cons, chosen_cons]
      cases a with
      | true => exact congrArg (UInt64.ofNat k :: ·) hrest
      | false => exact hrest

/-- The module after the first pass. -/
def Module.afterProbes (m : Module) (filter : Bool) (fs : List Bool) : Module :=
  if filter then { m with slots := refreshed m.slots fs } else m

/-- The first pass counts the slots that the call lists. -/
theorem countSlots_eq {filter : Bool} (h : listing P cfg filter m.slots.length w = some (fs, w')) :
    Module.countSlots P cfg filter (List.range m.slots.length) m 0 w =
      some (((flagged fs).length, m.afterProbes filter fs), w') := by
  have hlen := listing_length h
  rw [length_flagged]
  cases filter with
  | true =>
    have hcount := countSlots_probes [] m.slots 0 rfl h
    rw [Nat.zero_add, List.nil_append] at hcount
    rw [List.range_eq_range']
    exact hcount
  | false =>
    cases h
    rw [countSlots_all]
    simp [Module.afterProbes]

/-- The second pass writes exactly these. -/
theorem chosen_afterProbes {filter : Bool}
    (h : listing P cfg filter m.slots.length w = some (fs, w')) :
    chosen filter (m.afterProbes filter fs).slots.zipIdx = flagged fs := by
  have hlen := listing_length h
  cases filter with
  | true => exact chosen_refreshed m.slots fs 0 hlen
  | false =>
    cases h
    have hall : ((List.replicate m.slots.length true).zipIdx.filter Prod.fst) =
        (List.replicate m.slots.length true).zipIdx := by
      rw [List.filter_eq_self]
      rintro ⟨b, i⟩ hmem
      exact List.eq_of_mem_replicate (List.fst_mem_of_mem_zipIdx hmem)
    have hids {α : Type} (l : List α) :
        l.zipIdx.map (fun e => UInt64.ofNat e.2) = (List.range' 0 l.length).map UInt64.ofNat := by
      rw [← List.zipIdx_map_snd, List.map_map]
      rfl
    rw [flagged, hall, hids, List.length_replicate, ← hids]
    simp [Module.afterProbes, chosen]

theorem afterProbes_slots {filter : Bool}
    (h : listing P cfg filter m.slots.length w = some (fs, w')) :
    ∃ slots, m.afterProbes filter fs = { m with slots } ∧ slots.length = m.slots.length := by
  have hlen := listing_length h
  cases filter with
  | true =>
    refine ⟨_, rfl, ?_⟩
    rw [refreshed, List.length_zipWith]
    omega
  | false => exact ⟨_, rfl, rfl⟩

/-- What a call answers when it lists some ids: their number, and them if they fit. -/
def answered (ids : List CkUlong) (pList : Option (List CkUlong)) (count : CkUlong) :
    Rv × Option (List CkUlong) × Option CkUlong :=
  match pList with
  | none => (.ok, none, some (UInt64.ofNat ids.length))
  | some list =>
    if count.toNat < ids.length then (.bufferTooSmall, some list, some (UInt64.ofNat ids.length))
    else (.ok, some (ids ++ list.drop ids.length), some (UInt64.ofNat ids.length))

/-- A call lists what its probes say. -/
theorem cGetSlotList_eq (tokenPresent : UInt8) (pList : Option (List CkUlong)) (count : CkUlong)
    (hinit : m.initialized = true)
    (hroom : ∀ list, pList = some list → count.toNat ≤ list.length)
    (h : listing P cfg (tokenPresent == ckTrue) m.slots.length w = some (fs, w')) :
    m.cGetSlotList P cfg tokenPresent pList (some count) w =
      some (((answered (flagged fs) pList count).1, m.afterProbes (tokenPresent == ckTrue) fs,
        (answered (flagged fs) pList count).2), w') := by
  have hcount := countSlots_eq h
  have hchosen := chosen_afterProbes h
  unfold Module.cGetSlotList
  dsimp only
  rw [if_neg (by simp [hinit])]
  refine (bind_of_eq hcount).trans ?_
  cases pList with
  | none => rfl
  | some list =>
    have hroom := hroom list rfl
    dsimp only [answered]
    split
    · rfl
    · rename_i hfits
      have hfst := writeSlots_fst (tokenPresent == ckTrue)
        (m.afterProbes (tokenPresent == ckTrue) fs).slots.zipIdx 0 list (by rw [hchosen]; omega)
      have hsnd := writeSlots_snd (tokenPresent == ckTrue)
        (m.afterProbes (tokenPresent == ckTrue) fs).slots.zipIdx 0 list
      rw [hchosen, Nat.zero_add] at hfst hsnd
      rw [pure_apply, hfst, hsnd]
      rfl

/-- The ids, in strictly increasing order, of the slots that a call lists: with the filter those
that its own probes found present, and else all. -/
structure Listed (P : Platform W) (cfg : Config) (m : Module) (filter : Bool) (w w' : World W)
    (ids : List CkUlong) : Prop where
  ascending : ids.Pairwise (· < ·)
  valid : ∀ id ∈ ids, id.toNat < m.slots.length
  present : filter = true → ∃ answers, probes P cfg m.slots.length w = some (answers, w') ∧
    ∀ i < m.slots.length, UInt64.ofNat i ∈ ids ↔ answers[i]? = some true
  all : filter = false → w' = w ∧ ∀ i < m.slots.length, UInt64.ofNat i ∈ ids

theorem mem_flagged_ofNat {i : Nat} (hlen : fs.length < 2 ^ 64) (hi : i < fs.length) :
    UInt64.ofNat i ∈ flagged fs ↔ fs[i]? = some true := by
  rw [mem_flagged]
  constructor
  · rintro ⟨j, hj, hij⟩
    have hjlt := (List.getElem?_eq_some_iff.mp hj).1
    have htoNat := congrArg UInt64.toNat hij
    rw [UInt64.toNat_ofNat_of_lt' (lt_trans hi hlen),
      UInt64.toNat_ofNat_of_lt' (lt_trans hjlt hlen)] at htoNat
    rwa [htoNat]
  · exact fun h => ⟨i, h, rfl⟩

theorem listed_of_listing {filter : Bool} (hslots : m.slots.length < 2 ^ 64)
    (h : listing P cfg filter m.slots.length w = some (fs, w')) :
    Listed P cfg m filter w w' (flagged fs) := by
  have hlen := listing_length h
  rw [← hlen] at hslots
  refine ⟨flagged_ascending hslots.le, fun id hid => ?_, ?_, ?_⟩
  · obtain ⟨i, hi, rfl⟩ := mem_flagged.mp hid
    have hlt := (List.getElem?_eq_some_iff.mp hi).1
    rw [UInt64.toNat_ofNat_of_lt' (lt_trans hlt hslots)]
    omega
  · rintro rfl
    refine ⟨fs, h, fun i hi => mem_flagged_ofNat hslots ?_⟩
    omega
  · rintro rfl
    cases h
    refine ⟨rfl, fun i hi => (mem_flagged_ofNat hslots (by simpa using hi)).mpr ?_⟩
    simp [hi]

theorem toNat_length_flagged (fs : List Bool) (hlen : fs.length < 2 ^ 64) :
    (UInt64.ofNat (flagged fs).length).toNat = (flagged fs).length := by
  have hle := List.count_le_length (a := true) (l := fs)
  rw [length_flagged]
  exact UInt64.toNat_ofNat_of_lt' (lt_of_le_of_lt hle hlen)

/-- Where the probes answer as before, the same slots are listed. -/
theorem listing_same {filter : Bool} {n : Nat} {v : World W}
    (h : listing P cfg filter n w = some (fs, w'))
    (hsame : filter = true →
      (probes P cfg n w).map Prod.fst = (probes P cfg n v).map Prod.fst) :
    ∃ v', listing P cfg filter n v = some (fs, v') := by
  cases filter with
  | true =>
    have hsame := hsame rfl
    rw [show probes P cfg n w = some (fs, w') from h] at hsame
    obtain ⟨⟨answers, v'⟩, hv, hans⟩ := Option.map_eq_some_iff.mp hsame.symm
    obtain rfl : answers = fs := hans
    exact ⟨v', hv⟩
  | false =>
    cases h
    exact ⟨v, rfl⟩

/-- A fetch with the number that is listed. -/
theorem cGetSlotList_fetch {n : CkUlong} {list : List CkUlong} (hinit : m.initialized = true)
    (hlen : n.toNat = (flagged fs).length) (hroom : n.toNat ≤ list.length)
    (h : listing P cfg (tokenPresent == ckTrue) m.slots.length w = some (fs, w')) :
    ∃ m' ids, m.cGetSlotList P cfg tokenPresent (some list) (some n) w =
      some ((.ok, m', some ids, some n), w') := by
  have hcall := cGetSlotList_eq tokenPresent (some list) n hinit
    (fun l hl => by cases hl; exact hroom) h
  have hfits : ¬ n.toNat < (flagged fs).length := by omega
  have hn : UInt64.ofNat (flagged fs).length = n := by
    rw [← hlen]
    exact UInt64.ofNat_toNat
  simp only [answered, if_neg hfits, hn] at hcall
  exact ⟨_, _, hcall⟩

/-- The size protocol. A call reports the number of slots that match, writes nothing if that is
more than the caller has room for and else exactly that many ids; the two passes agree on that
number; and a fetch with the number that a query reported succeeds if the probes answer alike. -/
theorem cGetSlotList_sound (P : Platform W) (cfg : Config) (hinit : m.initialized = true)
    (hslots : m.slots.length < 2 ^ 64) (tokenPresent : UInt8) :
    (∀ pList count w, (∀ list, pList = some list → count.toNat ≤ list.length) →
      ∃ rv m' list n w', m.cGetSlotList P cfg tokenPresent pList (some count) w =
          some ((rv, m', list, some n), w') ∧
        ∃ ids, Listed P cfg m (tokenPresent == ckTrue) w w' ids ∧ n.toNat = ids.length ∧
          (pList = none → rv = .ok ∧ list = none) ∧
          ∀ l, pList = some l →
            (count.toNat < ids.length → rv = .bufferTooSmall ∧ list = some l) ∧
            (ids.length ≤ count.toNat → rv = .ok ∧ list = some (ids ++ l.drop ids.length))) ∧
    (∀ want m' w w', Module.countSlots P cfg (tokenPresent == ckTrue)
        (List.range m.slots.length) m 0 w = some ((want, m'), w') →
      ∀ list, (Module.writeSlots (tokenPresent == ckTrue) m'.slots.zipIdx 0 list).2 = want) ∧
    ∀ count n m' w w' v, m.cGetSlotList P cfg tokenPresent none (some count) w =
        some ((.ok, m', none, some n), w') →
      (tokenPresent = ckTrue → (probes P cfg m.slots.length w).map Prod.fst =
        (probes P cfg m.slots.length v).map Prod.fst) →
      ∀ list, n.toNat ≤ list.length → ∃ m'' ids v',
        m'.cGetSlotList P cfg tokenPresent (some list) (some n) v =
          some ((.ok, m'', some ids, some n), v') := by
  refine ⟨fun pList count w hroom => ?_, fun want m' w w' hcount list => ?_,
    fun count n m' w w' v hquery hsame list hroom => ?_⟩
  · obtain ⟨fs, w', h, _⟩ :=
      listing_total P cfg (tokenPresent == ckTrue) m.slots.length w
    have hlen := listing_length h
    have hcall := cGetSlotList_eq tokenPresent pList count hinit hroom h
    have hlisted := listed_of_listing hslots h
    have hcard := toNat_length_flagged fs (by omega)
    cases pList with
    | none =>
      refine ⟨_, _, _, _, _, hcall, _, hlisted, hcard, fun _ => ⟨rfl, rfl⟩, ?_⟩
      intro l hl
      cases hl
    | some list =>
      dsimp only [answered] at hcall
      by_cases hfits : count.toNat < (flagged fs).length
      · rw [if_pos hfits] at hcall
        refine ⟨_, _, _, _, _, hcall, _, hlisted, hcard, by simp, ?_⟩
        intro l hl
        cases hl
        exact ⟨fun _ => ⟨rfl, rfl⟩, fun hle => absurd hfits (Nat.not_lt.mpr hle)⟩
      · rw [if_neg hfits] at hcall
        refine ⟨_, _, _, _, _, hcall, _, hlisted, hcard, by simp, ?_⟩
        intro l hl
        cases hl
        exact ⟨fun hlt => absurd hlt hfits, fun _ => ⟨rfl, rfl⟩⟩
  · obtain ⟨fs, v, h, _⟩ :=
      listing_total P cfg (tokenPresent == ckTrue) m.slots.length w
    rw [countSlots_eq h] at hcount
    cases hcount
    rw [writeSlots_snd, chosen_afterProbes h, Nat.zero_add]
  · obtain ⟨fs, u, h, _⟩ :=
      listing_total P cfg (tokenPresent == ckTrue) m.slots.length w
    have hlen := listing_length h
    have hcall := cGetSlotList_eq tokenPresent none count hinit (by simp) h
    rw [hquery] at hcall
    cases hcall
    obtain ⟨v', hv⟩ := listing_same (v := v) h fun hfilter => hsame (by simpa using hfilter)
    have hcard := toNat_length_flagged fs (by omega)
    obtain ⟨slots, hm', hslots'⟩ := afterProbes_slots h
    rw [← hslots'] at hv
    rw [hm']
    obtain ⟨m'', ids, hfetch⟩ := cGetSlotList_fetch (m := { m with slots }) hinit hcard hroom hv
    exact ⟨m'', ids, v', hfetch⟩

theorem cGetSlotList_sound_smartcard :
    ∃ rv m' list n w', Bench.cardModule.cGetSlotList Bench.smartcard.machine Bench.oneCard ckTrue
        (some [7]) (some 1) (Bench.running []) = some ((rv, m', list, some n), w') ∧
      ∃ ids, Listed Bench.smartcard.machine Bench.oneCard Bench.cardModule true
          (Bench.running []) w' ids ∧ n.toNat = ids.length ∧
        (ids.length ≤ 1 → rv = .ok ∧ list = some (ids ++ [7].drop ids.length)) := by
  obtain ⟨rv, m', list, n, w', hcall, ids, hlisted, hn, _, hlist⟩ :=
    (cGetSlotList_sound (m := Bench.cardModule) Bench.smartcard.machine Bench.oneCard rfl
      (by decide) ckTrue).1 (some [7]) 1 (Bench.running []) (by simp)
  exact ⟨rv, m', list, n, w', hcall, ids, hlisted, hn, (hlist [7] rfl).2⟩

end P11Rand
