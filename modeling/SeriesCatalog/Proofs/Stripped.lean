/-
  Series catalog — trees without the nodes of their devices.

  A device entry may keep the nodes of its device beside their joined name.

  * `Page.stripped`: a tree that keeps no such nodes;
  * `Page.HasDevice`: the device entries of a tree, wherever they stand;
  * `Page.pathsBelow_stripped`: a tree of any shape is listed alike without the
    nodes, if each name is read as the nodes that are kept with it;
  * `Page.stripped_ofDeviceEntries`: an index without the nodes is the index over
    entries without them.
-/
import SeriesCatalog.Proofs.Construction
import SeriesCatalog.Proofs.Reachable
import SeriesCatalog.Index.Listing

namespace SeriesCatalog

variable {α : Type}

namespace Page

variable {page root : Page α} {entries : List (ChildEntry (Page α))} {e : ChildEntry (Page α)}
  {tier : Tier} {degree : Degree} {level : List (Page α)}

mutual

/-- The tree without the nodes of its devices. -/
def stripped : Page α → Page α
  | internal tier entries => internal tier (strippedChildren entries)
  | deviceLeaf entries => deviceLeaf (strippedDevices entries)
  | measurementLeaf entries => measurementLeaf entries

/-- The entries of an internal page, with the trees below them stripped. -/
def strippedChildren : List (ChildEntry (Page α)) → List (ChildEntry (Page α))
  | [] => []
  | ⟨name, child, nodes⟩ :: entries => ⟨name, child.stripped, nodes⟩ :: strippedChildren entries

/-- The entries of a device leaf, of which the nodes are left out. -/
def strippedDevices : List (ChildEntry (Page α)) → List (ChildEntry (Page α))
  | [] => []
  | ⟨name, child, _⟩ :: entries => ⟨name, child.stripped, none⟩ :: strippedDevices entries

end

/-- A device entry without its nodes, and without those of the tree below. -/
def strippedDevice (e : ChildEntry (Page α)) : ChildEntry (Page α) :=
  { name := e.name, child := e.child.stripped }

theorem strippedChildren_eq (entries : List (ChildEntry (Page α))) :
    strippedChildren entries = entries.map fun e => { e with child := e.child.stripped } := by
  induction entries with
  | nil => rfl
  | cons e entries ih => rw [strippedChildren, ih, List.map_cons]

theorem strippedDevices_eq (entries : List (ChildEntry (Page α))) :
    strippedDevices entries = entries.map strippedDevice := by
  induction entries with
  | nil => rfl
  | cons e entries ih => rw [strippedDevices, ih, List.map_cons, strippedDevice]

@[simp]
theorem stripped_internal (tier : Tier) (entries : List (ChildEntry (Page α))) :
    (internal tier entries).stripped =
      internal tier (entries.map fun e => { e with child := e.child.stripped }) := by
  rw [stripped, strippedChildren_eq]

@[simp]
theorem stripped_deviceLeaf (entries : List (ChildEntry (Page α))) :
    (deviceLeaf entries).stripped = deviceLeaf (entries.map strippedDevice) := by
  rw [stripped, strippedDevices_eq]

@[simp]
theorem stripped_measurementLeaf (entries : List (RecordEntry α)) :
    (measurementLeaf entries).stripped = measurementLeaf entries := by rw [stripped]

/-! ## Device entries -/

/-- An entry of a device leaf that stands anywhere in a tree. -/
inductive HasDevice : Page α → ChildEntry (Page α) → Prop
  | here {entries : List (ChildEntry (Page α))} {e : ChildEntry (Page α)} :
      e ∈ entries → HasDevice (deviceLeaf entries) e
  | deeper {page : Page α} {above e : ChildEntry (Page α)} :
      above ∈ page.children → HasDevice above.child e → HasDevice page e

theorem hasDevice_internal :
    (internal tier entries).HasDevice e ↔ ∃ x ∈ entries, x.child.HasDevice e := by
  constructor
  · rintro (_ | ⟨mem, h⟩)
    exact ⟨_, mem, h⟩
  · rintro ⟨x, mem, h⟩
    exact .deeper mem h

theorem hasDevice_deviceLeaf :
    (deviceLeaf entries).HasDevice e ↔ e ∈ entries ∨ ∃ x ∈ entries, x.child.HasDevice e := by
  constructor
  · rintro (mem | ⟨mem, h⟩)
    · exact Or.inl mem
    · exact Or.inr ⟨_, mem, h⟩
  · rintro (mem | ⟨x, mem, h⟩)
    · exact .here mem
    · exact .deeper mem h

theorem not_hasDevice_measurementLeaf {records : List (RecordEntry α)} :
    ¬ (measurementLeaf records).HasDevice e := by
  rintro (_ | ⟨mem, _⟩)
  exact absurd mem List.not_mem_nil

theorem deviceNodes_of_stripped (h : page.stripped.HasDevice e) : e.deviceNodes = none := by
  induction page with
  | internal tier entries ih =>
    rw [stripped_internal, hasDevice_internal] at h
    obtain ⟨_, mem, h⟩ := h
    obtain ⟨x, hx, rfl⟩ := List.mem_map.1 mem
    exact ih x hx h
  | deviceLeaf entries ih =>
    rw [stripped_deviceLeaf, hasDevice_deviceLeaf] at h
    rcases h with mem | ⟨_, mem, h⟩
    · obtain ⟨x, hx, rfl⟩ := List.mem_map.1 mem
      rfl
    · obtain ⟨x, hx, rfl⟩ := List.mem_map.1 mem
      exact ih x hx h
  | measurementLeaf entries =>
    rw [stripped_measurementLeaf] at h
    exact absurd h not_hasDevice_measurementLeaf

theorem Ordered.not_hasDevice (ordered : Ordered .measurement page) : ¬ page.HasDevice e := by
  intro h
  induction h with
  | here => cases ordered
  | @deeper page above e mem h ih =>
    cases page with
    | internal tier entries => exact ih (ordered.of_internal.2 above mem)
    | deviceLeaf entries => cases ordered
    | measurementLeaf entries => simp [children] at mem

/-- The device entries of a search tree stand in the leaves of its device tier. -/
theorem Ordered.mem_deviceEntries_of_hasDevice (ordered : Ordered .device page)
    (h : page.HasDevice e) : e ∈ page.deviceEntries := by
  induction h with
  | here mem => rwa [deviceEntries_deviceLeaf]
  | @deeper page above e mem h ih =>
    cases page with
    | internal tier entries =>
      rw [deviceEntries_internal]
      exact List.mem_flatMap.2 ⟨above, mem, ih (ordered.of_internal.2 above mem)⟩
    | deviceLeaf entries =>
      have lower : Ordered .measurement above.child :=
        ordered.of_mem_deviceEntries (by rwa [deviceEntries_deviceLeaf])
      exact absurd h lower.not_hasDevice
    | measurementLeaf entries => simp [children] at mem

/-! ## Listings -/

theorem pathsOfChildren_map {above above' : Option Path}
    {f : ChildEntry (Page α) → ChildEntry (Page α)}
    (h : ∀ e ∈ entries, (f e).child.pathsBelow above' = e.child.pathsBelow above) :
    pathsOfChildren above' (entries.map f) = pathsOfChildren above entries := by
  induction entries with
  | nil => rw [List.map_nil, pathsOfChildren, pathsOfChildren]
  | cons e entries ih =>
    rw [List.map_cons, pathsOfChildren, pathsOfChildren, h e List.mem_cons_self,
      ih fun x hx => h x (List.mem_cons_of_mem e hx)]

theorem pathsOfDevices_map {f : ChildEntry (Page α) → ChildEntry (Page α)}
    (h : ∀ e ∈ entries, ∃ p q, e.devicePath = .ok p ∧ (f e).devicePath = .ok q ∧
      (f e).child.pathsBelow (some q) = e.child.pathsBelow (some p)) :
    pathsOfDevices (entries.map f) = pathsOfDevices entries := by
  induction entries with
  | nil => rfl
  | cons e entries ih =>
    obtain ⟨p, q, hp, hq, same⟩ := h e List.mem_cons_self
    rw [List.map_cons, pathsOfDevices, pathsOfDevices, hp, hq,
      ih fun x hx => h x (List.mem_cons_of_mem e hx)]
    simp only [bind, Except.bind, same]

theorem pathsBelow_congr {p q : Path} (h : p.nodes = q.nodes) (page : Page α) :
    page.pathsBelow (some p) = page.pathsBelow (some q) := by
  induction page with
  | internal tier entries ih =>
    rw [pathsBelow, pathsBelow, ← pathsOfChildren_map (f := id) ih, List.map_id]
  | deviceLeaf entries => rw [pathsBelow, pathsBelow]
  | measurementLeaf entries => simp only [pathsBelow, Path.push, h]

/-- The name of a device entry is read as the nodes of its device. -/
def ReadsBack (e : ChildEntry (Page α)) : Prop :=
  ∃ p q, e.devicePath = .ok p ∧ Path.read e.name {} = .ok q ∧ q.nodes = p.nodes

/-- **A tree of any shape is listed alike without the nodes of its devices**, if their names are
    read as these nodes. -/
theorem pathsBelow_stripped (h : ∀ e, page.HasDevice e → ReadsBack e) (above : Option Path) :
    page.stripped.pathsBelow above = page.pathsBelow above := by
  induction page generalizing above with
  | internal tier entries ih =>
    rw [stripped_internal, pathsBelow, pathsBelow]
    exact pathsOfChildren_map fun e he => ih e he (fun x hx => h x (.deeper he hx)) above
  | deviceLeaf entries ih =>
    rw [stripped_deviceLeaf, pathsBelow, pathsBelow]
    refine pathsOfDevices_map fun e he => ?_
    obtain ⟨p, q, hp, hq, same⟩ := h e (.here he)
    refine ⟨p, q, hp, hq, ?_⟩
    calc (strippedDevice e).child.pathsBelow (some q)
        = e.child.pathsBelow (some q) := ih e he (fun x hx => h x (.deeper he hx)) (some q)
      _ = e.child.pathsBelow (some p) := pathsBelow_congr same e.child
  | measurementLeaf entries => rw [stripped_measurementLeaf]

theorem paths_stripped (h : ∀ e, root.HasDevice e → ReadsBack e) :
    root.stripped.paths = root.paths := by
  rw [paths, paths, pathsBelow_stripped h]

/-! ## Trees that are raised -/

theorem firstName_stripped (page : Page α) : page.stripped.firstName = page.firstName := by
  cases page with
  | internal tier entries => cases entries <;> simp [firstName]
  | deviceLeaf entries => cases entries <;> simp [firstName, strippedDevice]
  | measurementLeaf entries => rw [stripped_measurementLeaf]

theorem stripped_parent (tier : Tier) (pages : List (Page α)) :
    (parent tier pages).stripped = parent tier (pages.map stripped) := by
  simp [parent, firstName_stripped]

theorem raise_map_stripped (tier : Tier) (degree : Degree) (level : List (Page α)) :
    raise tier degree (level.map stripped) = (raise tier degree level).map stripped := by
  simp only [raise_eq_map_parent, chunks_map, List.map_map]
  exact List.map_congr_left fun pages _ => (stripped_parent tier pages).symm

theorem stripped_apex (tier : Tier) (degree : Degree) (level : List (Page α)) :
    (apex tier degree level).stripped = apex tier degree (level.map stripped) := by
  fun_induction apex tier degree level with
  | case1 => rw [stripped_internal, List.map_nil, List.map_nil, apex]
  | case2 page => rw [List.map_cons, List.map_nil, apex]
  | case3 first second rest ih =>
    rw [ih, ← raise_map_stripped, List.map_cons, List.map_cons, apex]

/-- **An index without the nodes of its devices** is the index over entries without them. -/
theorem stripped_ofDeviceEntries (degree : Degree) (entries : List (ChildEntry (Page α))) :
    (ofDeviceEntries degree entries).stripped =
      ofDeviceEntries degree (entries.map strippedDevice) := by
  rw [ofDeviceEntries, stripped_apex, ← raise_map_stripped, ofDeviceEntries, chunks_map]
  simp only [List.map_map, Function.comp_def, stripped_deviceLeaf]

end Page

end SeriesCatalog
