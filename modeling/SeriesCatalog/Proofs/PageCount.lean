/-
  Series catalog — the number of pages of an index.

  All pages of a level are full but the last, and the entries of an internal level
  lead to the pages of the next.  So each level has as many pages as the entries
  of the tier over a power of the degree, rounded up.

  * `Page.Stacked.length_level`: the number of pages on a level of a tier;
  * `Page.Stacked.pageCount_eq`: the number of pages of a tree, by the levels of
    its top tier and the trees below that;
  * `Page.build_pageCount`: the number of pages of an index that is built, by its
    devices and by the records of each, and how it is logged.
-/
import Mathlib.Algebra.BigOperators.Group.Finset.Basic
import Mathlib.Algebra.Order.Floor.Div
import Mathlib.GroupTheory.GroupAction.Ring
import Mathlib.Order.Interval.Finset.Nat
import SeriesCatalog.Proofs.Depth

namespace SeriesCatalog.Page

variable {α : Type} {records : List (Path × α)} {options : BuildOptions} {tier : Tier}
  {page root : Page α} {level : List (Page α)} {d n k : Nat}

/-! ## Pages, level by level -/

theorem pageCountBelow_eq (entries : List (ChildEntry (Page α))) :
    pageCountBelow entries = (entries.map fun e => e.child.pageCount).sum := by
  induction entries with
  | nil => rfl
  | cons e entries ih => rw [pageCountBelow, ih, List.map_cons, List.sum_cons]

theorem pageCount_eq (page : Page α) :
    page.pageCount = 1 + (page.children.map fun e => e.child.pageCount).sum := by
  cases page with
  | internal tier entries => rw [pageCount, pageCountBelow_eq, children]
  | deviceLeaf entries => rw [pageCount, pageCountBelow_eq, children]
  | measurementLeaf entries => rw [pageCount, children]; rfl

theorem sum_pageCount (level : List (Page α)) :
    (level.map pageCount).sum =
      level.length + ((level.flatMap children).map fun e => e.child.pageCount).sum := by
  induction level with
  | nil => rfl
  | cons page level ih =>
    rw [List.map_cons, List.sum_cons, ih, pageCount_eq, List.flatMap_cons, List.map_append,
      List.sum_append, List.length_cons]
    omega

theorem map_child_children (h : page.kind = .internal tier) :
    page.children.map ChildEntry.child = page.under := by
  cases page with
  | internal tier' entries => rfl
  | deviceLeaf entries | measurementLeaf entries => simp [kind] at h

theorem sum_pageCount_of_internal (h : ∀ page ∈ level, page.kind = .internal tier) :
    (level.map pageCount).sum = level.length + ((level.flatMap under).map pageCount).sum := by
  have below : (level.flatMap children).map ChildEntry.child = level.flatMap under := by
    rw [List.map_flatMap]
    exact List.flatMap_congr fun page hp => map_child_children (h page hp)
  rw [sum_pageCount, ← below, List.map_map]
  rfl

/-- Above a level, the pages of a tree are those of the levels over it. -/
theorem pageCount_eq_levels
    (internal : ∀ k < n, ∀ page ∈ root.level k, page.kind = .internal tier) :
    root.pageCount =
      ∑ k ∈ Finset.range n, (root.level k).length + ((root.level n).map pageCount).sum := by
  induction n with
  | zero => simp [Page.level]
  | succ n ih =>
    rw [ih fun k hk => internal k (Nat.lt_succ_of_lt hk),
      sum_pageCount_of_internal (internal n (Nat.lt_succ_self n)), Finset.sum_range_succ,
      Page.level, Nat.add_assoc]

/-! ## The number of pages on a level -/

theorem ceilDiv_ceilDiv {a b : Nat} (ha : 0 < a) (hb : 0 < b) (count : Nat) :
    (count ⌈/⌉ a) ⌈/⌉ b = count ⌈/⌉ (a * b) :=
  eq_of_forall_ge_iff fun c => by
    rw [ceilDiv_le_iff_le_mul hb, ceilDiv_le_iff_le_mul ha,
      ceilDiv_le_iff_le_mul (Nat.mul_pos ha hb), Nat.mul_assoc]

theorem Even.length_eq (hd : 0 < d) (even : Even d level) :
    level.length = (level.flatMap names).length ⌈/⌉ d := by
  rcases List.eq_nil_or_concat level with rfl | ⟨front, last, rfl⟩
  · simp
  have full : ∀ page ∈ front, page.names.length = d := fun page hp =>
    even.full page (by rwa [List.concat_eq_append, List.dropLast_concat])
  have lastNamed := List.length_pos_iff.2 (even.nonempty last (by simp))
  have lastBounded := even.bounded last (by simp)
  have total : (List.flatMap names (front.concat last)).length =
      last.names.length + front.length * d := by
    rw [List.concat_eq_append, List.flatMap_append, List.length_append, List.flatMap_singleton,
      List.length_flatMap, List.map_congr_left full, List.map_const', List.sum_replicate,
      smul_eq_mul, Nat.add_comm]
  rw [total, Nat.ceilDiv_eq_add_pred_div]
  have whole : last.names.length + front.length * d + d - 1 =
      last.names.length - 1 + (front.length + 1) * d := by
    rw [Nat.succ_mul]
    omega
  rw [whole, Nat.add_mul_div_right _ _ hd, Nat.div_eq_of_lt (by omega), Nat.zero_add,
    List.length_concat]

theorem length_names_of_internal (h : ∀ page ∈ level, page.kind = .internal tier) :
    (level.flatMap names).length = (level.flatMap under).length := by
  rw [List.length_flatMap, List.length_flatMap]
  refine congrArg List.sum (List.map_congr_left fun page hp => ?_)
  rw [← map_child_children (h page hp), List.length_map,
    length_children_of_kind (by simp [h page hp])]

/-- **The number of pages on a level** is that of the entries in the leaves over a power of the
    degree, rounded up. -/
theorem Stacked.length_level (hd : 0 < d) (stacked : Stacked tier d n root) (hk : k ≤ n) :
    (root.level k).length = root.leafNames.length ⌈/⌉ d ^ (n + 1 - k) := by
  -- from the leaves upwards: the entries of a level are the pages of the one below
  induction rise : n - k generalizing k with
  | zero =>
    obtain rfl : k = n := by omega
    rw [(stacked.even k hk).length_eq hd, leafNames, stacked.leaves, Nat.add_sub_cancel_left,
      pow_one]
  | succ i ih =>
    rw [(stacked.even k hk).length_eq hd, length_names_of_internal (stacked.internal k (by omega)),
      ← Page.level, ih (by omega) (by omega), ceilDiv_ceilDiv (Nat.pow_pos hd) hd, ← pow_succ]
    congr 2
    omega

/-! ## The number of pages of a tree -/

/-- **The pages of a tree** are those on the levels of its top tier, and those of the trees below
    the device entries. -/
theorem Stacked.pageCount_eq (hd : 0 < d) (stacked : Stacked tier d n root) :
    root.pageCount = ∑ i ∈ Finset.Icc 1 (n + 1), root.leafNames.length ⌈/⌉ d ^ i +
      (root.deviceEntries.map fun e => e.child.pageCount).sum := by
  have levels : ∑ k ∈ Finset.range (n + 1), (root.level k).length =
      ∑ i ∈ Finset.Icc 1 (n + 1), root.leafNames.length ⌈/⌉ d ^ i := by
    refine Finset.sum_nbij' (fun k => n + 1 - k) (fun i => n + 1 - i) ?_ ?_ ?_ ?_ ?_
    · simp only [Finset.mem_range, Finset.mem_Icc]; omega
    · simp only [Finset.mem_range, Finset.mem_Icc]; omega
    · simp only [Finset.mem_range]; omega
    · simp only [Finset.mem_Icc]; omega
    · intro k hk
      exact stacked.length_level hd (Nat.le_of_lt_succ (Finset.mem_range.1 hk))
  rw [pageCount_eq_levels stacked.internal, sum_pageCount, ← Nat.add_assoc,
    ← Finset.sum_range_succ, levels, deviceEntries, stacked.leaves]

theorem leafNames_of_devices (h : ∀ leaf ∈ root.leaves, leaf.kind = .leaf .device) :
    root.leafNames = root.deviceEntries.map ChildEntry.name := by
  rw [leafNames, deviceEntries, List.map_flatMap]
  refine List.flatMap_congr fun leaf hleaf => ?_
  have kind := h leaf hleaf
  cases leaf with
  | deviceLeaf entries => rfl
  | internal tier entries | measurementLeaf entries => simp [Page.kind] at kind

theorem leafNames_of_measurements (h : ∀ leaf ∈ root.leaves, leaf.kind = .leaf .measurement) :
    root.deviceEntries = [] ∧ root.leafNames = root.recordEntries.map RecordEntry.name := by
  rw [leafNames, deviceEntries, recordEntries, List.map_flatMap]
  refine ⟨List.flatMap_eq_nil_iff.2 fun leaf hleaf => children_eq_nil_of_kind (h leaf hleaf),
    List.flatMap_congr fun leaf hleaf => ?_⟩
  have kind := h leaf hleaf
  cases leaf with
  | measurementLeaf entries => rfl
  | internal tier entries | deviceLeaf entries => simp [Page.kind] at kind

theorem Stacked.pageCount_measurement (hd : 0 < d) (stacked : Stacked .measurement d n root) :
    root.pageCount = ∑ i ∈ Finset.Icc 1 (n + 1), root.recordEntries.length ⌈/⌉ d ^ i := by
  obtain ⟨none, names⟩ :=
    leafNames_of_measurements fun leaf hleaf => stacked.leaf leaf (stacked.leaves ▸ hleaf)
  rw [stacked.pageCount_eq hd, none, names]
  simp

variable {a : Nat} {b : Text → Nat}

theorem Leveled.pageCount_eq (hd : 0 < d) (leveled : Leveled d a b root) :
    root.pageCount = ∑ i ∈ Finset.Icc 1 (a + 1), root.deviceEntries.length ⌈/⌉ d ^ i +
      (root.deviceEntries.map fun e =>
        ∑ i ∈ Finset.Icc 1 (b e.name + 1), e.child.recordEntries.length ⌈/⌉ d ^ i).sum := by
  have names := leafNames_of_devices fun leaf hleaf =>
    leveled.devices.leaf leaf (leveled.devices.leaves ▸ hleaf)
  have below : root.deviceEntries.map (fun e => e.child.pageCount) =
      root.deviceEntries.map fun e =>
        ∑ i ∈ Finset.Icc 1 (b e.name + 1), e.child.recordEntries.length ⌈/⌉ d ^ i :=
    List.map_congr_left fun e he => (leveled.measurements e he).pageCount_measurement hd
  rw [leveled.devices.pageCount_eq hd, names, List.length_map, below]

/-! ## Indexes -/

theorem Indexes.pageCount_eq (hd : 0 < d) (indexes : Indexes records root)
    (leveled : Leveled d a b root) :
    root.pageCount = ∑ i ∈ Finset.Icc 1 (a + 1), (deviceNames records).length ⌈/⌉ d ^ i +
      ((deviceNames records).map fun device =>
        ∑ i ∈ Finset.Icc 1 (b device + 1), (ofDevice records device).length ⌈/⌉ d ^ i).sum := by
  have below : root.deviceEntries.map (fun e =>
        ∑ i ∈ Finset.Icc 1 (b e.name + 1), e.child.recordEntries.length ⌈/⌉ d ^ i) =
      (root.deviceEntries.map ChildEntry.name).map fun device =>
        ∑ i ∈ Finset.Icc 1 (b device + 1), (ofDevice records device).length ⌈/⌉ d ^ i := by
    rw [List.map_map]
    refine List.map_congr_left fun e he => ?_
    rw [indexes.length_recordEntries he]
    rfl
  rw [leveled.pageCount_eq hd, indexes.length_deviceEntries, below,
    (indexes.names_perm.map _).sum_eq]

theorem log_build (h : (build records options).result = .ok root) :
    ∃ d, options.maxDegree = .ofNat d ∧ (build records options).log =
      if options.logger.info then
        [⟨.info, "[index] built " ++ Text.ofNat root.pageCount ++ " pages for " ++
          Text.ofNat records.length ++ " series across " ++
          Text.ofNat (deviceNames records).length ++ " devices (maxDegree " ++
          (Number.ofNat d).text ++ ")"⟩]
      else [] := by
  have devices := (indexes_build h).length_deviceEntries
  obtain ⟨degree, directory, checked, filed, rfl⟩ := build_eq_ok_iff.1 h
  rw [deviceEntries_ofDirectory, List.length_map, Std.TreeMap.length_toList] at devices
  refine ⟨degree.toNat, Setting.check_eq_ok_iff.1 checked, ?_⟩
  rw [build, checked]
  simp only [filed, buildMessage, devices]
  rfl

/-- **The number of pages of an index**, and what is logged of it.  Let `d` be the degree, `a` the
    number of levels that the devices need, one at least, and `b device` the number that the records
    of a device need.  Each tier has, from its leaves to its top page, as many pages as it has
    entries over `d`, `d ^ 2` and so on, rounded up.  The message of a build gives the number of
    pages, of records and of devices, and the degree. -/
theorem build_pageCount (h : (build records options).result = .ok root) :
    ∃ d a b, options.maxDegree = .ofNat d ∧ 2 ≤ d ∧ LevelCounts d records a b ∧
    root.pageCount = ∑ i ∈ Finset.Icc 1 (a + 1), (deviceNames records).length ⌈/⌉ d ^ i +
      ((deviceNames records).map fun device =>
        ∑ i ∈ Finset.Icc 1 (b device + 1), (ofDevice records device).length ⌈/⌉ d ^ i).sum ∧
    (build records options).log =
      if options.logger.info then
        [⟨.info, "[index] built " ++ Text.ofNat root.pageCount ++ " pages for " ++
          Text.ofNat records.length ++ " series across " ++
          Text.ofNat (deviceNames records).length ++ " devices (maxDegree " ++
          (Number.ofNat d).text ++ ")"⟩]
      else [] := by
  obtain ⟨d, a, b, hdegree, hd, counts, leveled⟩ := build_leveled h
  obtain ⟨d', hdegree', logged⟩ := log_build h
  obtain rfl : d' = d := Number.ofNat_injective (hdegree'.symm.trans hdegree)
  refine ⟨d', a, b, hdegree, hd, counts, ?_, logged⟩
  exact (indexes_build h).pageCount_eq (by omega) leveled

/-- Pages of two entries, and a logger for what is built. -/
def pairsLogged : BuildOptions := { maxDegree := .ofNat 2, logger := { info := true } }

/-- Five devices take six pages; three records of one of them take three more, and the single
    records of the others one page each. -/
theorem pageCount_of_fiveDevices : ∃ root,
    (build Walker.fiveDevices pairsLogged).result = .ok root ∧ root.pageCount = 13 ∧
      (build Walker.fiveDevices pairsLogged).log =
        [⟨.info, "[index] built 13 pages for 7 series across 5 devices (maxDegree 2)"⟩] := by
  obtain ⟨root, built⟩ : ∃ root, (build Walker.fiveDevices pairsLogged).result = .ok root :=
    ⟨_, build_eq_ok_iff.2 ⟨⟨2, by decide⟩, _, rfl, rfl, rfl⟩⟩
  obtain ⟨d, a, b, hdegree, -, counts, pages, logged⟩ := build_pageCount built
  obtain rfl : 2 = d := Number.ofNat_injective hdegree
  have devices : a = 2 := counts.devices.unique (isLeast_levelCount (Nat.le_refl 2) 1 5)
  have measurements : ∀ device, b device =
      levelCount 2 0 (ofDevice Walker.fiveDevices device).length := fun device =>
    (counts.measurements device).unique (isLeast_levelCount (Nat.le_refl 2) 0 _)
  simp only [devices, measurements] at pages
  have thirteen : root.pageCount = 13 := pages.trans (by decide)
  have five : (deviceNames Walker.fiveDevices).length = 5 := by decide
  have two : (Number.ofNat 2).text = "2" := by decide +kernel
  rw [thirteen, five, two] at logged
  exact ⟨root, built, thirteen, logged⟩

end SeriesCatalog.Page
