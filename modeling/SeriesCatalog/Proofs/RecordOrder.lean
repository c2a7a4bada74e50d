/-
  Series catalog — the order in which records come.

  A directory keeps names in their own order, so that the order of the records
  is seen in one place only: the first record of a device gives its nodes.

  * `Directory.Holds.exists_same_file`: the entries of a device are the same,
    whatever order its records were filed in;
  * `Page.deviceEntries_stripped_subset`, `Page.deviceEntries_subset`: so are the
    entries of all devices, but for the nodes of a device that is split in two
    ways;
  * `Page.build_perm`: builds of the same records in two orders.
-/
import SeriesCatalog.Proofs.Faults
import SeriesCatalog.Proofs.Stripped

namespace SeriesCatalog

variable {α : Type} {records records' : List (Path × α)} {directory directory' : Directory α}
  {file : DeviceFile α} {device : Text} {degree : Degree} {options : BuildOptions}

/-- **Ascending entries are known by which entries they are.** -/
theorem Ascending.eq_of_subset {ε : Type} {name : ε → Text} {entries entries' : List ε}
    (ascending : Ascending name entries) (ascending' : Ascending name entries')
    (sub : entries ⊆ entries') (sub' : entries' ⊆ entries) : entries = entries' := by
  have nodup : ∀ {l : List ε}, Ascending name l → l.Nodup := fun hl =>
    hl.distinct.imp fun differ he => differ (congrArg name he)
  have same : entries.Perm entries' :=
    (List.perm_ext_iff_of_nodup (nodup ascending) (nodup ascending')).2
      fun e => ⟨fun he => sub he, fun he => sub' he⟩
  refine same.eq_of_pairwise (fun a b _ _ hab hba => ?_) ascending ascending'
  exact absurd (Std.lt_trans hab hba) Std.lt_irrefl

/-! ## Records -/

/-- The records of each device split it alike. -/
def SplitAlike (records : List (Path × α)) : Prop :=
  ∀ a ∈ records, ∀ b ∈ records, a.1.devicePrefix = b.1.devicePrefix →
    a.1.nodes.device = b.1.nodes.device

theorem SplitAlike.perm (alike : SplitAlike records) (h : records.Perm records') :
    SplitAlike records' :=
  fun a ha b hb => alike a (h.mem_iff.2 ha) b (h.mem_iff.2 hb)

theorem SplitAlike.firstSplit?_eq {nodes nodes' : Nodes} (alike : SplitAlike records)
    (h : records.Perm records') (first : firstSplit? records device = some nodes)
    (first' : firstSplit? records' device = some nodes') : nodes = nodes' := by
  obtain ⟨a, ha, hdevice, rfl⟩ := firstSplit?_eq_some first
  obtain ⟨b, hb, rfl, rfl⟩ := firstSplit?_eq_some first'
  exact alike a ha b (h.mem_iff.2 hb) hdevice

theorem keys_perm (h : records.Perm records') : (keys records).Perm (keys records') :=
  h.map _

theorem measurementEntries_perm (h : records.Perm records') (device : Text) :
    (measurementEntries records device).Perm (measurementEntries records' device) :=
  (h.filter _).map _

/-! ## Directories -/

namespace Directory

/-- **A file of one order has its like in the other**, with the same entries. -/
theorem Holds.exists_same_file (h : records.Perm records') (holds : directory.Holds records)
    (holds' : directory'.Holds records') (found : directory[device]? = some file) :
    ∃ file', directory'[device]? = some file' ∧ file'.entries = file.entries := by
  obtain ⟨entry, mem, hdevice, -⟩ := firstSplit?_eq_some (holds.firstSplit found)
  have split : (firstSplit? records' device).isSome :=
    firstSplit?_isSome_iff.2 ⟨entry, h.mem_iff.1 mem, hdevice⟩
  rw [← holds'.nodes, nodesOf?, Option.isSome_map, Option.isSome_iff_exists] at split
  obtain ⟨file', found'⟩ := split
  have same : file'.entries.Perm file.entries :=
    ((holds'.entries found').trans (measurementEntries_perm h.symm device)).trans
      (holds.entries found).symm
  exact ⟨file', found', file'.ascending_entries.eq_of_subset file.ascending_entries
    same.subset same.symm.subset⟩

end Directory

/-! ## Indexes -/

namespace Page

theorem deviceEntry_eq (degree : Degree) (device : Text) (file : DeviceFile α) :
    deviceEntry degree device file =
      ⟨device, ofRecordEntries degree file.entries, some file.nodes⟩ :=
  rfl

theorem stripped_ofDirectory (degree : Degree) (directory : Directory α) :
    (ofDirectory degree directory).stripped =
      ofDeviceEntries degree ((ofDirectory degree directory).deviceEntries.map strippedDevice) := by
  rw [deviceEntries_ofDirectory, ← stripped_ofDeviceEntries, ofDirectory]

/-- The step from one device to all: without its nodes, an entry of one order is one of the
    other. -/
theorem deviceEntries_stripped_subset (h : records.Perm records') (holds : directory.Holds records)
    (holds' : directory'.Holds records') :
    (ofDirectory degree directory).deviceEntries.map strippedDevice ⊆
      (ofDirectory degree directory').deviceEntries.map strippedDevice := by
  intro x hx
  obtain ⟨e, he, rfl⟩ := List.mem_map.1 hx
  obtain ⟨file, found, he⟩ := mem_deviceEntries_ofDirectory.1 he
  obtain ⟨file', found', same⟩ := holds.exists_same_file h holds' found
  refine List.mem_map.2 ⟨deviceEntry degree e.name file',
    mem_deviceEntries_ofDirectory.2 ⟨file', found', rfl⟩, ?_⟩
  rw [he, deviceEntry_eq, deviceEntry_eq, same]
  rfl

theorem deviceEntries_subset (h : records.Perm records') (alike : SplitAlike records)
    (holds : directory.Holds records) (holds' : directory'.Holds records') :
    (ofDirectory degree directory).deviceEntries ⊆
      (ofDirectory degree directory').deviceEntries := by
  intro e he
  obtain ⟨file, found, he⟩ := mem_deviceEntries_ofDirectory.1 he
  obtain ⟨file', found', same⟩ := holds.exists_same_file h holds' found
  have split := alike.firstSplit?_eq h (holds.firstSplit found) (holds'.firstSplit found')
  refine mem_deviceEntries_ofDirectory.2 ⟨file', found', he.trans ?_⟩
  rw [deviceEntry_eq, deviceEntry_eq, same, split]

theorem stripped_ofDirectory_eq (h : records.Perm records') (holds : directory.Holds records)
    (holds' : directory'.Holds records') :
    (ofDirectory degree directory).stripped = (ofDirectory degree directory').stripped := by
  have ascending (directory : Directory α) : Ascending ChildEntry.name
      ((ofDirectory degree directory).deviceEntries.map strippedDevice) :=
    List.pairwise_map.2 (ascending_deviceEntries degree directory)
  rw [stripped_ofDirectory, stripped_ofDirectory,
    (ascending directory).eq_of_subset (ascending directory')
      (deviceEntries_stripped_subset h holds holds')
      (deviceEntries_stripped_subset h.symm holds' holds)]

theorem ofDirectory_eq (h : records.Perm records') (alike : SplitAlike records)
    (holds : directory.Holds records) (holds' : directory'.Holds records') :
    ofDirectory degree directory = ofDirectory degree directory' := by
  have same := (ascending_deviceEntries degree directory).eq_of_subset
    (ascending_deviceEntries degree directory') (deviceEntries_subset h alike holds holds')
    (deviceEntries_subset h.symm (alike.perm h) holds' holds)
  rw [deviceEntries_ofDirectory, deviceEntries_ofDirectory] at same
  rw [ofDirectory, same, ofDirectory]

/-! ## Builds -/

theorem exists_build_perm {root : Page α} (h : records.Perm records')
    (built : (build records options).result = .ok root) :
    ∃ root', (build records' options).result = .ok root' := by
  obtain ⟨checked, nonempty, deep, distinct⟩ := exists_build_iff.1 ⟨root, built⟩
  refine exists_build_iff.2 ⟨checked, fun none => nonempty ?_, fun entry he => ?_, ?_⟩
  · exact List.perm_nil.1 (none ▸ h)
  · exact deep entry (h.mem_iff.2 he)
  · exact (keys_perm h).nodup_iff.1 distinct

/-- **The order of the records is not seen in an index.**  In two orders, a build fails for its
    arguments in both or succeeds in both.  Then the trees are the same without the nodes of devices;
    with them they are the same too, if the records of each device split it alike. -/
theorem build_perm (h : records.Perm records') (options : BuildOptions) :
    ((∃ fault, (build records options).result = .error (.invalidArgument fault)) ∧
      ∃ fault, (build records' options).result = .error (.invalidArgument fault)) ∨
    ∃ root root', (build records options).result = .ok root ∧
      (build records' options).result = .ok root' ∧ root.stripped = root'.stripped ∧
        (SplitAlike records → root = root') := by
  cases built : (build records options).result with
  | ok root =>
    right
    obtain ⟨root', built'⟩ := exists_build_perm h built
    refine ⟨root, root', rfl, built', ?_⟩
    obtain ⟨degree, directory, checked, hfiled, rfl⟩ := build_eq_ok_iff.1 built
    obtain ⟨_, directory', checked', hfiled', rfl⟩ := build_eq_ok_iff.1 built'
    obtain rfl := Except.ok.inj (checked.symm.trans checked')
    obtain ⟨holds, -⟩ := Directory.holds_ofRecords hfiled
    obtain ⟨holds', -⟩ := Directory.holds_ofRecords hfiled'
    exact ⟨stripped_ofDirectory_eq h holds holds', fun alike => ofDirectory_eq h alike holds holds'⟩
  | error error =>
    left
    obtain ⟨fault, rfl⟩ := build_eq_error built
    refine ⟨⟨fault, rfl⟩, ?_⟩
    cases built' : (build records' options).result with
    | ok root' =>
      obtain ⟨root, again⟩ := exists_build_perm h.symm built'
      rw [again] at built
      contradiction
    | error error' =>
      obtain ⟨fault', rfl⟩ := build_eq_error built'
      exact ⟨fault', rfl⟩

/-- Records of two devices, one of which comes before and behind the other. -/
def interleaved : List (Path × Nat) :=
  [({ nodes := ["r", "d2", "s1"] }, 1), ({ nodes := ["r", "d1", "s1"] }, 2),
    ({ nodes := ["r", "d2", "s0"] }, 3)]

/-- Their index: the devices and the measurements of each are in order of names. -/
def interleavedIndex : Page Nat :=
  .internal .device [{
    name := "r.d1"
    child := .deviceLeaf [
      ⟨"r.d1", .measurementLeaf [⟨"s1", 2⟩], some ["r", "d1"]⟩,
      ⟨"r.d2", .measurementLeaf [⟨"s0", 3⟩, ⟨"s1", 1⟩], some ["r", "d2"]⟩] }]

/-- The records of two devices give one tree in two orders. -/
theorem build_interleaved :
    (build interleaved { maxDegree := .ofNat 2 }).result = .ok interleavedIndex ∧
      (build interleaved.reverse { maxDegree := .ofNat 2 }).result = .ok interleavedIndex := by
  obtain ⟨root, built, rfl⟩ : ∃ root,
      (build interleaved { maxDegree := .ofNat 2 }).result = .ok root ∧ root = interleavedIndex :=
    ⟨_, build_eq_ok_iff.2 ⟨⟨2, by decide⟩, _, rfl, rfl, rfl⟩, by cbv⟩
  have alike : SplitAlike interleaved := by unfold SplitAlike; decide
  refine ⟨built, ?_⟩
  rcases build_perm (List.reverse_perm interleaved).symm { maxDegree := .ofNat 2 } with
    ⟨⟨fault, refused⟩, -⟩ | ⟨root, root', built', reversed, -, same⟩
  · rw [built] at refused
    contradiction
  · obtain rfl := Except.ok.inj (built.symm.trans built')
    rw [reversed, same alike]

end Page

end SeriesCatalog
