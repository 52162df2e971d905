import P11Rand.Bench
import P11Rand.KeySort

/-! What the listing of the `/dev/infnoiseN` nodes holds, and when it is in numeric order. -/
namespace P11Rand.Infnoise

open Effect Run

variable {W : Type} {P : Platform W} {w : World W} {name digits : List UInt8}

/-- The name is `infnoise` and then a number. -/
def DeviceNode (name : List UInt8) : Prop :=
  ∃ digits, name = asciiBytes devPrefix ++ digits ∧ digits ≠ [] ∧
    ∀ b ∈ digits, isAsciiDigit b = true

/-- That number. -/
def number (name : List UInt8) : Nat := digitsValue (name.drop (asciiBytes devPrefix).length)

def pathOf (name : List UInt8) : String := devDir ++ "/" ++ asciiString name

/-- The number at the end of a path. -/
def pathNumber (path : String) : Nat :=
  number ((asciiBytes path).drop (asciiBytes (devDir ++ "/")).length)

/-- The key and path that are listed for a node. -/
def entryOf (name : List UInt8) : Nat × String :=
  (KeySort.key number (2 ^ 64) name, pathOf name)

theorem nodeOf_node (h : DeviceNode name) :
    nodeOf name = some (entryOf name) := by
  obtain ⟨digits, rfl, hne, hdigits⟩ := h
  unfold nodeOf
  rw [if_neg (by simp), List.drop_left]
  dsimp only
  rw [if_neg (by simpa [hne] using hdigits)]
  unfold parseU64 entryOf KeySort.key number pathOf
  rw [List.drop_left]
  split <;> rfl

theorem nodeOf_isSome : (nodeOf name).isSome = true ↔ DeviceNode name := by
  constructor
  · intro h
    unfold nodeOf at h
    split at h
    · cases h
    rename_i hpre
    dsimp only at h
    split at h
    · cases h
    rename_i hsuffix
    obtain ⟨digits, rfl⟩ := List.isPrefixOf_iff_prefix.mp (not_not.mp hpre)
    rw [List.drop_left] at hsuffix
    obtain ⟨hne, hdigits⟩ := not_or.mp hsuffix
    exact ⟨digits, rfl, by simpa using hne, by simpa using hdigits⟩
  · intro h
    rw [nodeOf_node h]
    rfl

instance : DecidablePred DeviceNode := fun _ => decidable_of_iff _ nodeOf_isSome

theorem filterMap_nodeOf (names : List (List UInt8)) :
    names.filterMap nodeOf = (names.filter DeviceNode).map entryOf := by
  induction names with
  | nil => rfl
  | cons name names ih =>
    by_cases h : DeviceNode name
    · rw [List.filterMap_cons_some (nodeOf_node h), List.filter_cons_of_pos (by simpa using h), ih]
      rfl
    · have hnone : nodeOf name = none := by
        rw [← Option.not_isSome_iff_eq_none, nodeOf_isSome]
        exact h
      rw [List.filterMap_cons_none hnone, List.filter_cons_of_neg (by simpa using h), ih]

theorem asciiBytes_append (s t : String) : asciiBytes (s ++ t) = asciiBytes s ++ asciiBytes t := by
  simp [asciiBytes]

theorem byte_of_char (b : UInt8) : UInt8.ofNat (Char.ofNat b.toNat).toNat = b := by
  have hlt := b.toNat_lt
  have hvalid : b.toNat.isValidChar := .inl (by omega)
  rw [Char.ofNat, dif_pos hvalid]
  exact UInt8.ofNat_toNat

theorem asciiBytes_asciiString (bytes : List UInt8) : asciiBytes (asciiString bytes) = bytes := by
  simp only [asciiBytes, asciiString, String.toList_ofList, List.map_map]
  exact (List.map_congr_left fun b _ => byte_of_char b).trans (List.map_id bytes)

theorem pathNumber_pathOf (name : List UInt8) : pathNumber (pathOf name) = number name := by
  rw [pathNumber, pathOf, asciiBytes_append (devDir ++ "/"), asciiBytes_asciiString,
    List.drop_left]

/-- The device nodes among the entries that could be read. -/
def nodes (entries : List (Option (List UInt8))) : List (List UInt8) :=
  (entries.filterMap id).filter DeviceNode

/-- The listing: each device node once, by key. -/
theorem listPaths_eq {entries : List (Option (List UInt8))}
    (h : (P.answer .readDir w.env).1 = .ok entries) :
    Yields (listPaths P) w fun res _ => res = .ok
      (((nodes entries).insertionSort fun x y =>
        KeySort.key number (2 ^ 64) x ≤ KeySort.key number (2 ^ 64) y).map pathOf) := by
  have hq := request_apply (P := P) .readDir w
  rw [h] at hq
  refine ⟨_, _, (bind_of_eq hq).trans rfl, ?_⟩
  dsimp only
  have hsort := List.map_insertionSort
    (fun x y => KeySort.key number (2 ^ 64) x ≤ KeySort.key number (2 ^ 64) y)
    (fun a b : Nat × String => a.1 ≤ b.1) entryOf (nodes entries)
    fun _ _ _ _ => Iff.rfl
  rw [filterMap_nodeOf, ← nodes, ← hsort, List.map_map]
  rfl

/-- The listing holds every device node exactly once, and is in numeric order exactly if no number
overflows, or only zeros and overflowing numbers are listed and the directory has them in order. -/
theorem listPaths_ascending_iff {entries : List (Option (List UInt8))}
    (h : (P.answer .readDir w.env).1 = .ok entries) :
    Yields (listPaths P) w fun res _ => ∃ paths, res = .ok paths ∧
      paths.Perm ((nodes entries).map pathOf) ∧
      (paths.Pairwise (fun p q => pathNumber p ≤ pathNumber q) ↔
        (∀ name ∈ nodes entries, number name < 2 ^ 64) ∨
        (∀ name ∈ nodes entries, number name = 0 ∨ 2 ^ 64 ≤ number name) ∧
          (nodes entries).Pairwise fun x y => number x ≤ number y) := by
  obtain ⟨res, w', hl, rfl⟩ := listPaths_eq h
  refine ⟨_, w', hl, _, rfl, (List.perm_insertionSort _ _).map _, ?_⟩
  rw [List.pairwise_map]
  simp only [pathNumber_pathOf]
  exact KeySort.ascending_iff _

/-- Two nodes; the number of the second is the first that no `u64` holds. -/
def overflowing : Bench where
  readers := []
  nodes := [asciiBytes "infnoise5", asciiBytes "infnoise18446744073709551616"]
  file _ := none
  data _ _ := .interrupted
  sha3_256 _ := zeroDigest

theorem listPaths_ascending_iff_generators :
    Yields (listPaths Bench.generators.machine) (Bench.start none) fun res _ => ∃ paths,
      res = .ok paths ∧ paths.Perm ((nodes (Bench.generators.nodes.map some)).map pathOf) ∧
      (paths.Pairwise (fun p q => pathNumber p ≤ pathNumber q) ↔
        (∀ name ∈ nodes (Bench.generators.nodes.map some), number name < 2 ^ 64) ∨
        (∀ name ∈ nodes (Bench.generators.nodes.map some),
          number name = 0 ∨ 2 ^ 64 ≤ number name) ∧
          (nodes (Bench.generators.nodes.map some)).Pairwise fun x y => number x ≤ number y) := by
  have hdir : (Bench.generators.machine.answer .readDir ()).1 =
    .ok (Bench.generators.nodes.map some) := rfl
  exact listPaths_ascending_iff (w := Bench.start none) hdir

/-- The overflowing number is listed as 0. -/
theorem listPaths_overflowing : ∃ w, listPaths overflowing.machine (Bench.start none) =
      some (.ok ["/dev/infnoise18446744073709551616", "/dev/infnoise5"], w) ∧
    ¬ ["/dev/infnoise18446744073709551616", "/dev/infnoise5"].Pairwise
      fun p q => pathNumber p ≤ pathNumber q := by
  refine ⟨_, rfl, ?_⟩
  decide

end P11Rand.Infnoise
