/-
  Series catalog — the depth of an index.

  The pages on the way to a record are those of the levels of both tiers, and the
  number of levels is logarithmic in the number of entries.

  * `Page.isLeast_levelCount`: the number of levels in a tier, as the least one
    under which the leaves have room for all entries;
  * `Page.build_leveled`: the levels of an index, by its devices and by the
    records of each device;
  * `Page.Leveled.exists_height_eq`: an index is as high as the way to a record of one of
    its devices is long;
  * `Walker.locate_depth`: how many pages a lookup visits, and which limits on
    the depth cut it off.
-/
import Mathlib.Algebra.Order.Ring.Nat
import Mathlib.Data.List.Dedup
import Mathlib.Order.Bounds.Basic
import SeriesCatalog.Proofs.Limits
import SeriesCatalog.Proofs.Lookup

namespace SeriesCatalog

variable {α : Type} {records : List (Path × α)} {options : BuildOptions} {root : Page α}
  {d n m : Nat}

/-- The names of the devices of records, each once. -/
def deviceNames (records : List (Path × α)) : List Text :=
  (records.map fun entry => entry.1.devicePrefix).dedup

theorem nodup_deviceNames (records : List (Path × α)) : (deviceNames records).Nodup :=
  List.nodup_dedup _

theorem mem_deviceNames {device : Text} :
    device ∈ deviceNames records ↔ ∃ entry ∈ records, entry.1.devicePrefix = device := by
  simp [deviceNames]

namespace Page

/-! ## The number of levels -/

/-- **The number of levels is logarithmic**: it is the least one, from `least` on, under which the
    leaves have room for all entries. -/
theorem isLeast_levelCount (hd : 2 ≤ d) (least count : Nat) :
    IsLeast {n | least ≤ n ∧ count ≤ d ^ (n + 1)} (levelCount d least count) := by
  constructor
  · refine ⟨Nat.le_max_left _ _, (Nat.clog_le_iff_le_pow hd).1 ?_⟩
    rw [levelCount]
    omega
  · intro n hn
    obtain ⟨enough, room⟩ := hn
    have room := (Nat.clog_le_iff_le_pow hd).2 room
    rw [levelCount]
    omega

/-- The numbers of levels in an index of records with at most `d` entries in a page: `a` in the
    device tier, where one level is raised in any case, and `b device` in the tier of a device. -/
structure LevelCounts (d : Nat) (records : List (Path × α)) (a : Nat) (b : Text → Nat) : Prop where
  devices : IsLeast {n | 1 ≤ n ∧ (deviceNames records).length ≤ d ^ (n + 1)} a
  measurements : ∀ device,
    IsLeast {n | 0 ≤ n ∧ (ofDevice records device).length ≤ d ^ (n + 1)} (b device)

/-- With up to `2 ^ 32` devices of up to `2 ^ 32` records each, no way is longer than 64 pages. -/
theorem LevelCounts.way_le {a : Nat} {b : Text → Nat} (counts : LevelCounts d records a b)
    (hd : 2 ≤ d) (few : (deviceNames records).length ≤ 2 ^ 32) {device : Text}
    (small : (ofDevice records device).length ≤ 2 ^ 32) : a + b device + 2 ≤ 64 := by
  have room : 2 ^ 32 ≤ d ^ (31 + 1) := Nat.pow_le_pow_left hd 32
  have ha : a ≤ 31 := counts.devices.2 ⟨by omega, few.trans room⟩
  have hb : b device ≤ 31 := (counts.measurements device).2 ⟨by omega, small.trans room⟩
  omega

/-! ## The entries of an index -/

theorem Indexes.names_perm (indexes : Indexes records root) :
    (root.deviceEntries.map ChildEntry.name).Perm (deviceNames records) := by
  have distinct : (root.deviceEntries.map ChildEntry.name).Nodup :=
    List.pairwise_map.2 indexes.distinct.distinct
  refine (List.perm_ext_iff_of_nodup distinct (nodup_deviceNames records)).2 ?_
  intro device
  rw [indexes.devices, mem_deviceNames]

theorem Indexes.length_deviceEntries (indexes : Indexes records root) :
    root.deviceEntries.length = (deviceNames records).length := by
  simpa using indexes.names_perm.length_eq

theorem Indexes.length_recordEntries {e : ChildEntry (Page α)} (indexes : Indexes records root)
    (he : e ∈ root.deviceEntries) :
    e.child.recordEntries.length = (ofDevice records e.name).length := by
  rw [(indexes.records e he).length_eq, measurementEntries, List.length_map]

/-- A tree with `a` levels in the device tier, and `b device` in the tier of a device. -/
structure Leveled (d a : Nat) (b : Text → Nat) (root : Page α) : Prop where
  devices : Stacked .device d a root
  measurements : ∀ e ∈ root.deviceEntries, Stacked .measurement d (b e.name) e.child

/-- **The levels of an index** are as many as its entries need. -/
theorem build_leveled (h : (build records options).result = .ok root) :
    ∃ d a b, options.maxDegree = .ofNat d ∧ 2 ≤ d ∧ LevelCounts d records a b ∧
      Leveled d a b root := by
  have indexes := indexes_build h
  have devices := indexes.length_deviceEntries
  obtain ⟨degree, directory, hdegree, hfiled, rfl⟩ := build_eq_ok_iff.1 h
  obtain ⟨holds, nonempty⟩ := Directory.holds_ofRecords hfiled
  refine ⟨degree.toNat, levelCount degree.toNat 1 (deviceNames records).length,
    fun device => levelCount degree.toNat 0 (ofDevice records device).length,
    Setting.check_eq_ok_iff.1 hdegree, Degree.two_le degree, ⟨?_, ?_⟩, ⟨?_, ?_⟩⟩
  · exact isLeast_levelCount (Degree.two_le degree) 1 _
  · exact fun device => isLeast_levelCount (Degree.two_le degree) 0 _
  · rw [← devices, deviceEntries_ofDirectory]
    refine ofDeviceEntries_stacked (List.pairwise_map.2 (ascending_toList directory)) ?_
    simpa using toList_ne_nil holds nonempty
  · intro e he
    have measurements := indexes.length_recordEntries he
    obtain ⟨file, hfile, he⟩ := mem_deviceEntries_ofDirectory.1 he
    show Stacked .measurement degree.toNat
      (levelCount degree.toNat 0 (ofDevice records e.name).length) e.child
    rw [← measurements, he, recordEntries_deviceEntry]
    exact ofRecordEntries_stacked file.ascending_entries (holds.entries_ne_nil hfile)

/-! ## Chains and trails -/

theorem count_chainKinds (n m : Nat) : (chainKinds n m).count (.internal .device) = n := by
  simp [chainKinds, List.count_append, List.count_replicate]

variable {a : Nat} {b : Text → Nat}

theorem Leveled.exists_height_eq (leveled : Leveled d a b root) :
    ∃ e ∈ root.deviceEntries, root.height = a + b e.name + 2 := by
  obtain ⟨kinds, descent, hlength⟩ := exists_descent_height root
  obtain ⟨e, he, below, hbelow, rfl⟩ := leveled.devices.exists_below descent
  refine ⟨e, he, ?_⟩
  rw [← hlength, (leveled.measurements e he).measurement_chain hbelow]
  simp
  omega

theorem Leveled.trail (leveled : Leveled d a b root) {device measurement : Text} {record : α}
    (h : Trail device measurement record root (chainKinds n m)) : n = a ∧ m = b device := by
  obtain ⟨m', hm'⟩ :=
    leveled.devices.device_chain (fun e he => ⟨_, leveled.measurements e he⟩) h.descent
  obtain ⟨e, he, rfl, below⟩ := h.exists_device
  have hbelow := (leveled.measurements e he).measurement_chain below.descent
  constructor
  · simpa [count_chainKinds] using congrArg (List.count (.internal .device)) hm'
  · simpa using congrArg List.length hbelow

end Page

/-! ## Lookups -/

namespace Walker

variable {a : Nat} {b : Text → Nat}

/-- **The way to a record** is as long as the index has levels. -/
theorem exists_run (reachable : ∀ entry ∈ records, entry.1.Reachable)
    (h : (Page.build records options).result = .ok root) (leveled : Page.Leveled d a b root)
    {p : Path} {record : α} (mem : (p, record) ∈ records) {q : AnyPath}
    (device : q.devicePrefix = p.devicePrefix) (terminal : q.terminal = p.terminal) :
    q.devicePrefix ≠ [] ∧ ∃ s, Stand.Reaches q.devicePrefix q.terminal (.start root) s ∧
      Stand.Ends q.devicePrefix q.terminal s (.found record) ∧
        s.depth + 1 = a + b q.devicePrefix + 2 := by
  -- a walker that may come to the bottom makes the run
  let w : Walker := { maxDepth := ⟨root.height, root.height_pos⟩ }
  have located : (w.locate root q).result = .ok (some record) := by
    rw [locate_eq_lookup reachable h (Nat.le_refl _)]
    exact congrArg Except.ok
      ((Page.indexes_build h).lookup_eq_some_iff.2 ⟨p, mem, device.symm, terminal.symm⟩)
  obtain ⟨named, s, reaches, -, ends⟩ :=
    (outcome_eq_iff (by simp) (by simp)).1 (answer_eq_some_iff.1 located)
  obtain ⟨n, m, hdepth, trail⟩ := reaches.trail_of_device ends rfl
  obtain ⟨rfl, rfl⟩ := leveled.trail trail
  refine ⟨named, s, reaches, ends, ?_⟩
  rw [hdepth]
  simp only [Stand.start]
  omega

theorem locate_indexed (reachable : ∀ entry ∈ records, entry.1.Reachable)
    (h : (Page.build records options).result = .ok root) (leveled : Page.Leveled d a b root)
    {p : Path} {record : α} (mem : (p, record) ∈ records) {q : AnyPath}
    (device : q.devicePrefix = p.devicePrefix) (terminal : q.terminal = p.terminal) :
    (∃ s, Stand.Reaches q.devicePrefix q.terminal (.start root) s ∧
      Stand.Ends q.devicePrefix q.terminal s (.found record) ∧
        s.depth + 1 = a + b q.devicePrefix + 2) ∧
    ∀ w : Walker, w.locate root q =
      if w.maxDepth.toNat < a + b q.devicePrefix + 2 then
        { result := .error (.limitExceeded (.depth q.fullPath w.maxDepth.toNat)) }
      else { result := .ok (some record) } := by
  obtain ⟨named, s, reaches, ends, hdepth⟩ := exists_run reachable h leveled mem device terminal
  refine ⟨⟨s, reaches, ends, hdepth⟩, ?_⟩
  intro w
  rw [← hdepth]
  exact locate_of_run named reaches ends w

/-- A path that is not indexed is not found, on any way that a walker can go to the bottom. -/
theorem locate_unindexed (reachable : ∀ entry ∈ records, entry.1.Reachable)
    (h : (Page.build records options).result = .ok root) (leveled : Page.Leveled d a b root)
    {q : AnyPath} (unindexed : ∀ entry ∈ records,
      entry.1.devicePrefix = q.devicePrefix → entry.1.terminal ≠ q.terminal)
    {w : Walker} (deep : ∀ device ∈ deviceNames records, a + b device + 2 ≤ w.maxDepth.toNat) :
    w.locate root q = { result := .ok none } := by
  have indexes := Page.indexes_build h
  obtain ⟨e, he, height⟩ := leveled.exists_height_eq
  have name : e.name ∈ deviceNames records := by
    rw [mem_deviceNames]
    exact (indexes.devices e.name).1 (List.mem_map_of_mem he)
  have high : root.height ≤ w.maxDepth.toNat := height ▸ deep e.name name
  have none : root.lookup q.devicePrefix q.terminal = none := by
    refine Option.eq_none_iff_forall_ne_some.2 ?_
    intro record hrecord
    obtain ⟨p, mem, device, terminal⟩ := indexes.lookup_eq_some_iff.1 hrecord
    exact unindexed (p, record) mem device terminal
  rw [locate_eq_lookup reachable h high q, none]

/-- **The depth of an index is logarithmic.**  Let `d` be the degree, `a` the number of levels that
    the devices need, one at least, and `b device` the number that the records of a device need.  A
    lookup of an indexed path visits `a + b device + 2` pages; a walker that may visit fewer fails,
    and any other finds the record.  A path that is not indexed is never too deep for a walker that
    may visit as many pages as the way to any record has.  With up to `2 ^ 32` devices of up to
    `2 ^ 32` records each, no lookup is too deep for a walker without a limit of its own. -/
theorem locate_depth (reachable : ∀ entry ∈ records, entry.1.Reachable)
    (h : (Page.build records options).result = .ok root) :
    ∃ d a b, options.maxDegree = .ofNat d ∧ 2 ≤ d ∧ Page.LevelCounts d records a b ∧
    (∀ p record, (p, record) ∈ records → ∀ q : AnyPath,
      q.devicePrefix = p.devicePrefix → q.terminal = p.terminal →
        (∃ s, Stand.Reaches q.devicePrefix q.terminal (.start root) s ∧
          Stand.Ends q.devicePrefix q.terminal s (.found record) ∧
            s.depth + 1 = a + b q.devicePrefix + 2) ∧
        ∀ w : Walker, w.locate root q =
          if w.maxDepth.toNat < a + b q.devicePrefix + 2 then
            { result := .error (.limitExceeded (.depth q.fullPath w.maxDepth.toNat)) }
          else { result := .ok (some record) }) ∧
    (∀ q : AnyPath,
      (∀ entry ∈ records, entry.1.devicePrefix = q.devicePrefix → entry.1.terminal ≠ q.terminal) →
        ∀ w : Walker, (∀ device ∈ deviceNames records, a + b device + 2 ≤ w.maxDepth.toNat) →
          w.locate root q = { result := .ok none }) ∧
    ((deviceNames records).length ≤ 2 ^ 32 →
      (∀ device, (ofDevice records device).length ≤ 2 ^ 32) →
        ∀ w : Walker, w.maxDepth = Setting.maxDepth.standard →
          ∀ q fault, (w.locate root q).result ≠ .error (.limitExceeded fault)) := by
  obtain ⟨d, a, b, hdegree, hd, counts, leveled⟩ := Page.build_leveled h
  refine ⟨d, a, b, hdegree, hd, counts, ?_, ?_, ?_⟩
  · intro p record mem q device terminal
    exact locate_indexed reachable h leveled mem device terminal
  · intro q unindexed w deep
    exact locate_unindexed reachable h leveled unindexed deep
  · intro few small w standard q fault
    have short : ∀ device, a + b device + 2 ≤ w.maxDepth.toNat := by
      intro device
      rw [standard]
      exact counts.way_le hd few (small device)
    by_cases known : ∃ entry ∈ records,
        entry.1.devicePrefix = q.devicePrefix ∧ entry.1.terminal = q.terminal
    · obtain ⟨⟨p, record⟩, mem, device, terminal⟩ := known
      have located := (locate_indexed reachable h leveled mem device.symm terminal.symm).2 w
      rw [located, if_neg (Nat.not_lt.2 (short _))]
      simp
    · have unindexed : ∀ entry ∈ records,
          entry.1.devicePrefix = q.devicePrefix → entry.1.terminal ≠ q.terminal :=
        fun entry he device terminal => known ⟨entry, he, device, terminal⟩
      rw [locate_unindexed reachable h leveled unindexed fun device _ => short device]
      simp

/-- Records of five devices, three of them of one device. -/
def fiveDevices : List (Path × Nat) :=
  [({ nodes := ["a", "s"] }, 1), ({ nodes := ["a", "t"] }, 2), ({ nodes := ["a", "u"] }, 3),
    ({ nodes := ["b", "s"] }, 4), ({ nodes := ["c", "s"] }, 5), ({ nodes := ["d", "s"] }, 6),
    ({ nodes := ["e", "s"] }, 7)]

/-- In pages of two entries, the way to one of the three records has five pages. -/
theorem locate_in_five_pages : ∃ root,
    (Page.build fiveDevices { maxDegree := .ofNat 2 }).result = .ok root ∧
      Walker.locate { maxDepth := ⟨4, by decide⟩ } root (.plain { nodes := ["a", "u"] }) =
        { result := .error (.limitExceeded (.depth "a.u" 4)) } ∧
      Walker.locate { maxDepth := ⟨5, by decide⟩ } root (.plain { nodes := ["a", "u"] }) =
        { result := .ok (some 3) } := by
  have reachable : ∀ entry ∈ fiveDevices, entry.1.Reachable := by
    have proper : ∀ entry ∈ fiveDevices, entry.1.written = none ∧ entry.1.nodes ≠ [] ∧
        ∀ node ∈ entry.1.nodes, node ≠ [] := by decide
    rintro ⟨⟨nodes, written⟩, record⟩ he
    obtain ⟨rfl, nonempty, whole⟩ := proper _ he
    exact .of_proper ⟨nonempty, whole⟩
  obtain ⟨root, built⟩ : ∃ root,
      (Page.build fiveDevices { maxDegree := .ofNat 2 }).result = .ok root :=
    ⟨_, Page.build_eq_ok_iff.2 ⟨⟨2, by decide⟩, _, rfl, rfl, rfl⟩⟩
  obtain ⟨d, a, b, hdegree, -, counts, found, -, -⟩ := locate_depth reachable built
  obtain rfl : 2 = d := Number.ofNat_injective hdegree
  have devices : a = 2 := counts.devices.unique (Page.isLeast_levelCount (Nat.le_refl 2) 1 5)
  have measurements : b "a" = 1 :=
    (counts.measurements "a").unique (Page.isLeast_levelCount (Nat.le_refl 2) 0 3)
  have mem : ({ nodes := ["a", "u"] }, 3) ∈ fiveDevices := by decide
  have located := (found _ _ mem (.plain { nodes := ["a", "u"] }) rfl rfl).2
  have way : a + b (AnyPath.plain { nodes := ["a", "u"] }).devicePrefix + 2 = 5 := by
    show a + b "a" + 2 = 5
    omega
  rw [way] at located
  exact ⟨root, built, located _, located _⟩

end Walker

end SeriesCatalog
