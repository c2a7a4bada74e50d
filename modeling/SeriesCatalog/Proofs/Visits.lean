/-
  Series catalog — listings of trees of any shape.

  A listing goes through a tree from the left, each entry before what stands
  below it, and stops at the first thing that is wrong.

  * `Page.visits`: the device entries, measurement leaves and records of a
    tree, in the order in which they are met;
  * `Page.HasLeaf`: the measurement leaves of a tree, each with the nearest
    device entry above it;
  * `Visit.Violates`: what can be wrong with what is met;
  * `Page.pathsBelow_eq_listed`: a listing is one pass over the visits;
  * `Page.paths_of_any_tree`: when a tree is listed, what its listing is, and
    with which error it is refused otherwise.
-/
import SeriesCatalog.Proofs.Reading
import SeriesCatalog.Proofs.Stripped
import SeriesCatalog.Proofs.TextOrder

namespace SeriesCatalog

variable {α : Type}

/-! ## Device entries -/

namespace ChildEntry

variable {Below : Type} {e : ChildEntry Below} {p : Path}

/-- The nodes of a device: those that are kept, or else those that its name is read as; none if
    it cannot be read. -/
def device (e : ChildEntry Below) : Nodes :=
  e.deviceNodes.getD (((Path.parse e.name).result.toOption.map Path.nodes).getD [])

/-- A device entry that stands for a path: the nodes that it keeps are proper, or else its name is
    read. -/
structure Usable (e : ChildEntry Below) : Prop where
  kept : ∀ nodes, e.deviceNodes = some nodes → nodes.Proper
  named : e.deviceNodes = none → ∃ p, (Path.parse e.name).result = .ok p

theorem usable_iff : e.Usable ↔ ∃ p, e.devicePath = .ok p := by
  rw [devicePath]
  cases hnodes : e.deviceNodes with
  | some nodes =>
    simp only [Path.ofNodes_eq_ok_iff]
    constructor
    · exact fun h => ⟨_, h.kept nodes hnodes, rfl⟩
    · rintro ⟨p, proper, -⟩
      refine ⟨fun found hfound => ?_, fun none => ?_⟩
      · obtain rfl := Option.some.inj (hnodes.symm.trans hfound)
        exact proper
      · rw [none] at hnodes
        contradiction
  | none =>
    constructor
    · exact fun h => h.named hnodes
    · refine fun h => ⟨fun nodes kept => ?_, fun _ => h⟩
      rw [kept] at hnodes
      contradiction

theorem nodes_of_devicePath (h : e.devicePath = .ok p) : p.nodes = e.device := by
  rw [devicePath] at h
  rw [device]
  cases hnodes : e.deviceNodes with
  | some nodes =>
    rw [hnodes] at h
    obtain ⟨-, rfl⟩ := Path.ofNodes_eq_ok_iff.1 h
    rfl
  | none =>
    rw [hnodes] at h
    have read : (Path.parse e.name).result = .ok p := h
    rw [read]
    rfl

end ChildEntry

/-! ## Visits -/

/-- What a listing meets.  The device entry that stands nearest above comes with it. -/
inductive Visit (α : Type) where
  /-- An entry of a device leaf. -/
  | device (entry : ChildEntry (Page α))
  /-- A measurement leaf, before its entries. -/
  | leaf (nearest : Option (ChildEntry (Page α)))
  /-- An entry of a measurement leaf. -/
  | record (nearest : Option (ChildEntry (Page α))) (entry : RecordEntry α)

namespace Page

variable {page : Page α} {above nearest : Option (ChildEntry (Page α))} {e : ChildEntry (Page α)}
  {entries : List (ChildEntry (Page α))} {records : List (RecordEntry α)} {entry : RecordEntry α}
  {tier : Tier}

mutual

/-- What is met in a tree that stands below a device entry, or below none: depth first, from the
    left. -/
def visits (above : Option (ChildEntry (Page α))) : Page α → List (Visit α)
  | internal _ entries => visitsOfChildren above entries
  | deviceLeaf entries => visitsOfDevices entries
  | measurementLeaf entries => .leaf above :: entries.map (.record above)

/-- What is met below entries of an internal page. -/
def visitsOfChildren (above : Option (ChildEntry (Page α))) :
    List (ChildEntry (Page α)) → List (Visit α)
  | [] => []
  | ⟨_, child, _⟩ :: entries => child.visits above ++ visitsOfChildren above entries

/-- The entries of a device leaf, and what is met below each. -/
def visitsOfDevices : List (ChildEntry (Page α)) → List (Visit α)
  | [] => []
  | ⟨name, child, deviceNodes⟩ :: entries =>
    .device ⟨name, child, deviceNodes⟩ :: child.visits (some ⟨name, child, deviceNodes⟩)
      ++ visitsOfDevices entries

end

theorem visitsOfChildren_eq (above : Option (ChildEntry (Page α)))
    (entries : List (ChildEntry (Page α))) :
    visitsOfChildren above entries = entries.flatMap fun e => e.child.visits above := by
  induction entries with
  | nil => rfl
  | cons e entries ih => rw [visitsOfChildren, ih, List.flatMap_cons]

theorem visitsOfDevices_eq (entries : List (ChildEntry (Page α))) :
    visitsOfDevices entries = entries.flatMap fun e => .device e :: e.child.visits (some e) := by
  induction entries with
  | nil => rfl
  | cons e entries ih => rw [visitsOfDevices, ih, List.flatMap_cons]

@[simp]
theorem visits_internal (above : Option (ChildEntry (Page α))) (tier : Tier)
    (entries : List (ChildEntry (Page α))) :
    (internal tier entries).visits above = entries.flatMap fun e => e.child.visits above := by
  rw [visits, visitsOfChildren_eq]

@[simp]
theorem visits_deviceLeaf (above : Option (ChildEntry (Page α)))
    (entries : List (ChildEntry (Page α))) :
    (deviceLeaf entries).visits above =
      entries.flatMap fun e => .device e :: e.child.visits (some e) := by
  rw [visits, visitsOfDevices_eq]

@[simp]
theorem visits_measurementLeaf (above : Option (ChildEntry (Page α)))
    (entries : List (RecordEntry α)) :
    (measurementLeaf entries).visits above = .leaf above :: entries.map (.record above) := by
  rw [visits]

/-! ## Leaves and devices of a tree -/

/-- A measurement leaf that stands anywhere in a tree, its entries, and the nearest device entry
    above it.  If the tree has none there, it is the one that the tree itself stands below. -/
inductive HasLeaf : Page α → (above nearest : Option (ChildEntry (Page α))) →
    List (RecordEntry α) → Prop
  | here {above : Option (ChildEntry (Page α))} {records : List (RecordEntry α)} :
      HasLeaf (measurementLeaf records) above above records
  | internal {tier : Tier} {entries : List (ChildEntry (Page α))} {e : ChildEntry (Page α)}
      {above nearest : Option (ChildEntry (Page α))} {records : List (RecordEntry α)} :
      e ∈ entries → HasLeaf e.child above nearest records →
      HasLeaf (internal tier entries) above nearest records
  | device {entries : List (ChildEntry (Page α))} {e : ChildEntry (Page α)}
      {above nearest : Option (ChildEntry (Page α))} {records : List (RecordEntry α)} :
      e ∈ entries → HasLeaf e.child (some e) nearest records →
      HasLeaf (deviceLeaf entries) above nearest records

theorem hasLeaf_internal : (internal tier entries).HasLeaf above nearest records ↔
    ∃ e ∈ entries, e.child.HasLeaf above nearest records := by
  constructor
  · rintro (_ | ⟨mem, h⟩)
    exact ⟨_, mem, h⟩
  · rintro ⟨e, mem, h⟩
    exact .internal mem h

theorem hasLeaf_deviceLeaf : (deviceLeaf entries).HasLeaf above nearest records ↔
    ∃ e ∈ entries, e.child.HasLeaf (some e) nearest records := by
  constructor
  · rintro (_ | _ | ⟨mem, h⟩)
    exact ⟨_, mem, h⟩
  · rintro ⟨e, mem, h⟩
    exact .device mem h

theorem hasLeaf_measurementLeaf {held : List (RecordEntry α)} :
    (measurementLeaf held).HasLeaf above nearest records ↔ nearest = above ∧ records = held := by
  constructor
  · rintro ⟨⟩
    exact ⟨rfl, rfl⟩
  · rintro ⟨rfl, rfl⟩
    exact .here

/-- **What is met in a tree**: its device entries, its measurement leaves and what these hold. -/
theorem mem_visits_iff {visit : Visit α} : visit ∈ page.visits above ↔
    (∃ e, page.HasDevice e ∧ visit = .device e) ∨
    ∃ nearest records, page.HasLeaf above nearest records ∧
      (visit = .leaf nearest ∨ ∃ entry ∈ records, visit = .record nearest entry) := by
  induction page generalizing above with
  | internal tier entries ih =>
    simp only [visits_internal, List.mem_flatMap, hasDevice_internal, hasLeaf_internal]
    constructor
    · rintro ⟨x, hx, h⟩
      rcases (ih x hx).1 h with ⟨e, he, rfl⟩ | ⟨nearest, records, h, met⟩
      · exact Or.inl ⟨e, ⟨x, hx, he⟩, rfl⟩
      · exact Or.inr ⟨nearest, records, ⟨x, hx, h⟩, met⟩
    · rintro (⟨e, ⟨x, hx, he⟩, rfl⟩ | ⟨nearest, records, ⟨x, hx, h⟩, met⟩)
      · exact ⟨x, hx, (ih x hx).2 (Or.inl ⟨e, he, rfl⟩)⟩
      · exact ⟨x, hx, (ih x hx).2 (Or.inr ⟨nearest, records, h, met⟩)⟩
  | deviceLeaf entries ih =>
    simp only [visits_deviceLeaf, List.mem_flatMap, List.mem_cons, hasDevice_deviceLeaf,
      hasLeaf_deviceLeaf]
    constructor
    · rintro ⟨x, hx, rfl | h⟩
      · exact Or.inl ⟨x, Or.inl hx, rfl⟩
      · rcases (ih x hx).1 h with ⟨e, he, rfl⟩ | ⟨nearest, records, h, met⟩
        · exact Or.inl ⟨e, Or.inr ⟨x, hx, he⟩, rfl⟩
        · exact Or.inr ⟨nearest, records, ⟨x, hx, h⟩, met⟩
    · rintro (⟨e, he | ⟨x, hx, he⟩, rfl⟩ | ⟨nearest, records, ⟨x, hx, h⟩, met⟩)
      · exact ⟨e, he, Or.inl rfl⟩
      · exact ⟨x, hx, Or.inr ((ih x hx).2 (Or.inl ⟨e, he, rfl⟩))⟩
      · exact ⟨x, hx, Or.inr ((ih x hx).2 (Or.inr ⟨nearest, records, h, met⟩))⟩
  | measurementLeaf entries =>
    simp [not_hasDevice_measurementLeaf, hasLeaf_measurementLeaf, eq_comm]

end Page

/-! ## Violations -/

namespace Visit

variable {visit : Visit α} {error : CatalogError}

/-- What can be wrong with what is met, and the error that tells of it. -/
inductive Violates : Visit α → CatalogError → Prop
  /-- A device entry keeps the empty list of nodes. -/
  | noNodes {e : ChildEntry (Page α)} : e.deviceNodes = some [] →
      Violates (.device e) (.invalidArgument .pathWithoutNodes)
  /-- A device entry keeps nodes of which the first that is empty is at `k`. -/
  | emptyNode {e : ChildEntry (Page α)} {nodes : Nodes} {k : Nat} : e.deviceNodes = some nodes →
      IsLeast {k | nodes[k]? = some []} k →
      Violates (.device e) (.invalidArgument (.emptyNode k))
  /-- A device entry keeps no nodes, and its name is not read. -/
  | unread {e : ChildEntry (Page α)} {error : CatalogError} : e.deviceNodes = none →
      (Path.parse e.name).result = .error error → Violates (.device e) error
  /-- No device entry stands above a measurement leaf. -/
  | orphan : Violates (.leaf none) (.corruptIndex .noDevice)
  /-- A record has no name. -/
  | unnamed {nearest : Option (ChildEntry (Page α))} {entry : RecordEntry α} : entry.name = [] →
      Violates (.record nearest entry) (.invalidArgument .emptyLastNode)

theorem violates_device_iff {e : ChildEntry (Page α)} :
    (device e).Violates error ↔ e.devicePath = .error error := by
  rw [ChildEntry.devicePath]
  constructor
  · rintro (hnodes | ⟨hnodes, least⟩ | ⟨hnodes, unread⟩) <;> rw [hnodes]
    · exact Path.ofNodes_eq_error_iff.2 (Or.inl ⟨rfl, rfl⟩)
    · exact Path.ofNodes_eq_error_iff.2 (Or.inr ⟨_, least, rfl⟩)
    · exact unread
  · intro h
    cases hnodes : e.deviceNodes with
    | some nodes =>
      rw [hnodes] at h
      rcases Path.ofNodes_eq_error_iff.1 h with ⟨rfl, rfl⟩ | ⟨k, least, rfl⟩
      · exact .noNodes hnodes
      · exact .emptyNode hnodes least
    | none =>
      rw [hnodes] at h
      exact .unread hnodes h

theorem forall_not_violates_device_iff {e : ChildEntry (Page α)} :
    (∀ error, ¬ (device e).Violates error) ↔ e.Usable := by
  simp only [violates_device_iff, ChildEntry.usable_iff]
  cases e.devicePath <;> simp

theorem forall_not_violates_leaf_iff {nearest : Option (ChildEntry (Page α))} :
    (∀ error, ¬ (leaf nearest).Violates error) ↔ ∃ device, nearest = some device := by
  cases nearest with
  | none => exact ⟨fun h => absurd .orphan (h _), (nomatch ·)⟩
  | some e => exact ⟨fun _ => ⟨e, rfl⟩, fun _ _ => (nomatch ·)⟩

theorem forall_not_violates_record_iff {nearest : Option (ChildEntry (Page α))}
    {entry : RecordEntry α} :
    (∀ error, ¬ (record nearest entry).Violates error) ↔ entry.name ≠ [] := by
  constructor
  · exact fun h unnamed => h _ (.unnamed unnamed)
  · rintro named error ⟨⟩
    contradiction

/-- The error of what is met, if anything is wrong with it. -/
def fault? : Visit α → Option CatalogError
  | device e => match e.devicePath with
    | .ok _ => none
    | .error error => some error
  | leaf nearest => if nearest.isNone then some (.corruptIndex .noDevice) else none
  | record _ entry => if entry.name.isEmpty then some (.invalidArgument .emptyLastNode) else none

theorem fault?_eq_some_iff : visit.fault? = some error ↔ visit.Violates error := by
  cases visit with
  | device e =>
    rw [violates_device_iff, fault?]
    cases e.devicePath <;> simp
  | leaf nearest =>
    rw [fault?]
    cases nearest with
    | none => exact ⟨fun h => Option.some.inj h ▸ .orphan, fun h => by cases h; rfl⟩
    | some e => exact ⟨(nomatch ·), (nomatch ·)⟩
  | record nearest entry =>
    rw [fault?]
    constructor
    · intro h
      split at h
      · next unnamed => exact Option.some.inj h ▸ .unnamed (List.isEmpty_iff.1 unnamed)
      · contradiction
    · rintro (_ | _ | _ | _ | unnamed)
      rw [unnamed]
      rfl

theorem fault?_eq_none_iff : visit.fault? = none ↔ ∀ error, ¬ visit.Violates error := by
  simp only [← fault?_eq_some_iff, Option.eq_none_iff_forall_ne_some, ne_eq]

/-! ## One pass -/

/-- The path of a record: the nodes of the nearest device entry, and the name of the record. -/
def path? : Visit α → Option Path
  | record nearest entry => some { nodes := (nearest.elim [] ChildEntry.device) ++ [entry.name] }
  | device _ | leaf _ => none

/-- The paths of what is met, up to the first thing that is wrong. -/
def listed (visits : List (Visit α)) : Except CatalogError (List Path) :=
  match visits.findSome? fault? with
  | some error => .error error
  | none => .ok (visits.filterMap path?)

theorem listed_append (first others : List (Visit α)) :
    listed (first ++ others) = do return (← listed first) ++ (← listed others) := by
  unfold listed
  rw [List.findSome?_append, List.filterMap_append]
  cases first.findSome? fault? with
  | some error => rfl
  | none =>
    cases others.findSome? fault? with
    | some error => rfl
    | none => rfl

theorem listed_eq_ok_iff {visits : List (Visit α)} {paths : List Path} :
    listed visits = .ok paths ↔
      (∀ visit ∈ visits, ∀ error, ¬ visit.Violates error) ∧ paths = visits.filterMap path? := by
  simp only [← fault?_eq_none_iff, ← List.findSome?_eq_none_iff]
  unfold listed
  cases visits.findSome? fault? with
  | some error => simp
  | none => simp [eq_comm]

/-- **A pass stops at the first violation.** -/
theorem listed_eq_error_iff {visits : List (Visit α)} :
    listed visits = .error error ↔ ∃ before visit after, visits = before ++ visit :: after ∧
      visit.Violates error ∧ ∀ earlier ∈ before, ∀ other, ¬ earlier.Violates other := by
  simp only [← fault?_eq_none_iff]
  simp only [← fault?_eq_some_iff]
  rw [← List.findSome?_eq_some_iff]
  unfold listed
  cases visits.findSome? fault? with
  | some error => simp
  | none => simp

end Visit

namespace Page

variable {page : Page α} {entries : List (ChildEntry (Page α))}
  {above : Option (ChildEntry (Page α))} {device : Option Path}

/-! ## Listings -/

theorem pathsOfChildren_eq_listed
    (h : ∀ e ∈ entries, e.child.pathsBelow device = Visit.listed (e.child.visits above)) :
    pathsOfChildren device entries =
      Visit.listed (entries.flatMap fun e => e.child.visits above) := by
  induction entries with
  | nil => rw [pathsOfChildren]; rfl
  | cons e entries ih =>
    have rest := ih fun x hx => h x (List.mem_cons_of_mem e hx)
    rw [pathsOfChildren, h e List.mem_cons_self, rest, List.flatMap_cons, Visit.listed_append]

theorem listed_device_cons (e : ChildEntry (Page α)) (visits : List (Visit α)) :
    Visit.listed (.device e :: visits) = e.devicePath >>= fun _ => Visit.listed visits := by
  unfold Visit.listed
  rw [List.findSome?_cons, Visit.fault?]
  cases e.devicePath with
  | ok p => rfl
  | error error => rfl

theorem pathsOfDevices_eq_listed (h : ∀ e ∈ entries, ∀ p, e.devicePath = .ok p →
      e.child.pathsBelow (some p) = Visit.listed (e.child.visits (some e))) :
    pathsOfDevices entries =
      Visit.listed (entries.flatMap fun e => .device e :: e.child.visits (some e)) := by
  induction entries with
  | nil => rw [pathsOfDevices]; rfl
  | cons e entries ih =>
    have rest := ih fun x hx => h x (List.mem_cons_of_mem e hx)
    rw [pathsOfDevices, rest, List.flatMap_cons, Visit.listed_append, listed_device_cons]
    cases hdevice : e.devicePath with
    | error error => rfl
    | ok p =>
      simp only [bind, Except.bind, h e List.mem_cons_self p hdevice]

theorem listed_record_cons {e : ChildEntry (Page α)} {p : Path} (h : e.devicePath = .ok p)
    (entry : RecordEntry α) (visits : List (Visit α)) :
    Visit.listed (.record (some e) entry :: visits) =
      do return (← p.push entry.name) :: (← Visit.listed visits) := by
  unfold Visit.listed Path.push
  rw [List.findSome?_cons, Visit.fault?]
  cases unnamed : entry.name.isEmpty with
  | true => rfl
  | false =>
    rw [ChildEntry.nodes_of_devicePath h]
    cases visits.findSome? Visit.fault? with
    | some error => rfl
    | none => rfl

theorem mapM_push_eq_listed {e : ChildEntry (Page α)} {p : Path} (h : e.devicePath = .ok p)
    (records : List (RecordEntry α)) :
    (records.mapM fun entry => p.push entry.name) =
      Visit.listed (records.map (.record (some e))) := by
  induction records with
  | nil => rfl
  | cons entry records ih => rw [List.mapM_cons, ih, List.map_cons, listed_record_cons h]

/-- **A listing is one pass over the visits**, from the left. -/
theorem pathsBelow_eq_listed (page : Page α)
    (h : Option.Rel (fun e p => e.devicePath = .ok p) above device) :
    page.pathsBelow device = Visit.listed (page.visits above) := by
  induction page generalizing above device with
  | internal tier entries ih =>
    rw [pathsBelow, visits_internal]
    exact pathsOfChildren_eq_listed fun e he => ih e he h
  | deviceLeaf entries ih =>
    rw [pathsBelow, visits_deviceLeaf]
    exact pathsOfDevices_eq_listed fun e he p hp => ih e he (.some hp)
  | measurementLeaf entries =>
    rw [visits_measurementLeaf]
    cases h with
    | none => rw [pathsBelow]; rfl
    | some h =>
      rw [pathsBelow]
      exact mapM_push_eq_listed h entries

theorem paths_eq_listed (root : Page α) :
    root.paths = (Visit.listed (root.visits none)).map (AnyPath.sortBy .plain) := by
  rw [paths, pathsBelow_eq_listed root .none]

/-- When nothing is wrong with what is met. -/
theorem forall_visits_iff : (∀ visit ∈ page.visits above, ∀ error, ¬ visit.Violates error) ↔
    (∀ nearest records, page.HasLeaf above nearest records →
      (∃ device, nearest = some device) ∧ ∀ entry ∈ records, entry.name ≠ []) ∧
    ∀ device, page.HasDevice device → device.Usable := by
  simp only [← Visit.forall_not_violates_leaf_iff, ← Visit.forall_not_violates_device_iff]
  constructor
  · intro h
    refine ⟨fun nearest records leaf => ⟨?_, fun entry hentry => ?_⟩, fun device hdevice => ?_⟩
    · exact h _ (mem_visits_iff.2 (Or.inr ⟨nearest, records, leaf, Or.inl rfl⟩))
    · have met := mem_visits_iff.2 (Or.inr ⟨nearest, records, leaf, Or.inr ⟨entry, hentry, rfl⟩⟩)
      exact Visit.forall_not_violates_record_iff.1 (h _ met)
    · exact h _ (mem_visits_iff.2 (Or.inl ⟨device, hdevice, rfl⟩))
  · rintro ⟨leaves, devices⟩ visit met
    rcases mem_visits_iff.1 met with ⟨e, he, rfl⟩ | ⟨nearest, records, leaf, rfl | ⟨entry, he, rfl⟩⟩
    · exact devices e he
    · exact (leaves nearest records leaf).1
    · exact Visit.forall_not_violates_record_iff.2 ((leaves nearest records leaf).2 entry he)

/-- **Listings of any tree.**  A tree is listed iff each of its measurement leaves stands below a
    device entry, each record has a name, and each device entry is usable.  The listing then has the
    path of each record, in ascending order, and paths that are written alike come in the order of
    the tree.  Any other tree is refused with the error of the first violation that is met, depth
    first and from the left. -/
theorem paths_of_any_tree (root : Page α) :
    ((∃ listing, root.paths = .ok listing) ↔
      (∀ nearest records, root.HasLeaf none nearest records →
        (∃ device, nearest = some device) ∧ ∀ entry ∈ records, entry.name ≠ []) ∧
      ∀ device, root.HasDevice device → device.Usable) ∧
    (∀ listing, root.paths = .ok listing →
      (listing.Pairwise fun p q => p.fullPath ≤ q.fullPath) ∧
      listing.Perm ((root.visits none).filterMap Visit.path?) ∧
      ∀ text, (listing.filter fun p => p.fullPath = text) =
        ((root.visits none).filterMap Visit.path?).filter fun p => p.fullPath = text) ∧
    ∀ error, root.paths = .error error ↔ ∃ before visit after,
      root.visits none = before ++ visit :: after ∧ visit.Violates error ∧
      ∀ earlier ∈ before, ∀ other, ¬ earlier.Violates other := by
  rw [paths_eq_listed]
  refine ⟨?_, fun listing h => ?_, fun error => ?_⟩
  · rw [← forall_visits_iff]
    simp [Visit.listed_eq_ok_iff]
  · obtain ⟨paths, hpaths, rfl⟩ := Except.map_eq_ok_iff.1 h
    obtain ⟨-, rfl⟩ := Visit.listed_eq_ok_iff.1 hpaths
    rw [AnyPath.sortBy_eq_sortOn]
    exact ⟨Text.pairwise_sortOn _ _, Text.sortOn_perm _ _, Text.filter_sortOn _ _⟩
  · rw [Except.map_eq_error_iff, Visit.listed_eq_error_iff]

/-- Of two device entries, one above the other, the nearer one counts. -/
example : paths (.deviceLeaf [⟨"a", .deviceLeaf [⟨"b.c", measurementLeaf [⟨"s", 0⟩], some ["b.c"]⟩],
    some ["a"]⟩]) = .ok [{ nodes := ["b.c", "s"] }] := by
  cbv

end Page

end SeriesCatalog
