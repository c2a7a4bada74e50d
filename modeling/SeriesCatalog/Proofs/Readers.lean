/-
  Series catalog — the two readers of an index.

  A listing goes through the whole tree and makes paths of the nodes that are
  stored with the devices; a lookup searches for the two names of a key.

  * `Page.keys_listing_perm`: the paths of a listing have the keys of the
    records, though their nodes may be others;
  * `Page.readers_agree`: a listing shows the paths that lookups find.
-/
import SeriesCatalog.Proofs.Faults
import SeriesCatalog.Proofs.Listing
import SeriesCatalog.Proofs.Lookup

namespace SeriesCatalog

variable {α : Type} {records : List (Path × α)} {options : BuildOptions}

/-! ## Keys of listed paths -/

/-- A record is listed under other nodes perhaps, but under its key. -/
theorem key_respelled {entry : Path × α} (h : entry ∈ records) :
    (respelled records entry).key = entry.1.nodes.key := by
  obtain ⟨first, -, hdevice, -, hnodes⟩ := exists_respelled h
  have terminal : (first.1.nodes.device ++ [entry.1.terminal]).terminal = entry.1.terminal := by
    rw [Nodes.terminal, List.getLastD_concat]
  rw [hnodes, Nodes.key, terminal, Nodes.device, List.dropLast_concat]
  exact Prod.ext hdevice rfl

namespace Page

variable {root : Page α} {listing : List Path}

theorem keys_listing_perm
    (h : (listing.map Path.nodes).Perm (records.map (respelled records))) :
    (listing.map fun p => p.nodes.key).Perm (keys records) := by
  have listed := h.map Nodes.key
  rw [List.map_map, List.map_map] at listed
  exact listed.trans (.of_eq (List.map_congr_left fun entry he => key_respelled he))

theorem Indexes.isSome_lookup_iff (indexes : Indexes records root) {device measurement : Text} :
    (root.lookup device measurement).isSome ↔ (device, measurement) ∈ keys records := by
  rw [Option.isSome_iff_exists, mem_keys_iff]
  constructor
  · rintro ⟨record, h⟩
    obtain ⟨p, mem, hkey⟩ := indexes.lookup_eq_some_iff.1 h
    exact ⟨_, mem, hkey⟩
  · rintro ⟨⟨p, record⟩, mem, hkey⟩
    exact ⟨record, indexes.lookup_eq_some_iff.2 ⟨p, mem, hkey⟩⟩

/-- **The two readers of an index agree.**  The listing of a built index succeeds; it has as many
    paths as there are records, in ascending order and no two with one key.  A lookup of a path of
    any kind finds a record iff a path with its key is listed, and each path that is listed is
    found, with the record that was indexed under its key. -/
theorem readers_agree (reachable : ∀ entry ∈ records, entry.1.Reachable)
    (h : (build records options).result = .ok root) :
    ∃ listing, root.paths = .ok listing ∧ listing.length = records.length ∧
      (listing.Pairwise fun p q => p.fullPath ≤ q.fullPath) ∧
      (listing.Pairwise fun p q => ¬ (p.devicePrefix = q.devicePrefix ∧ p.terminal = q.terminal)) ∧
      ∀ w : Walker, root.height ≤ w.maxDepth.toNat →
        (∀ q : AnyPath, ∃ found, w.locate root q = { result := .ok found, log := [] } ∧
          (found.isSome ↔
            ∃ p ∈ listing, p.devicePrefix = q.devicePrefix ∧ p.terminal = q.terminal)) ∧
        ∀ p ∈ listing, ∃ entry ∈ records,
          entry.1.devicePrefix = p.devicePrefix ∧ entry.1.terminal = p.terminal ∧
            w.locate root (.plain p) = { result := .ok (some entry.2), log := [] } := by
  have indexes := indexes_build h
  obtain ⟨listing, hpaths, ascending, perm⟩ :=
    paths_of_indexes indexes reachable (build_deep h)
  have listed := keys_listing_perm perm
  have mem_listing : ∀ device measurement, (device, measurement) ∈ keys records ↔
      ∃ p ∈ listing, p.devicePrefix = device ∧ p.terminal = measurement := by
    intro device measurement
    simp only [← listed.mem_iff, List.mem_map, Path.key_eq_iff]
  refine ⟨listing, hpaths, ?_, ascending, ?_, fun w high => ⟨fun q => ?_, fun p hp => ?_⟩⟩
  · simpa [keys] using listed.length_eq
  · have distinct := listed.nodup_iff.2 (nodup_keys_of_build h)
    exact (List.pairwise_map.1 distinct).imp fun hne hkey => hne (Prod.ext hkey.1 hkey.2)
  · refine ⟨_, Walker.locate_eq_lookup reachable h high q, ?_⟩
    rw [indexes.isSome_lookup_iff, mem_listing]
  · obtain ⟨entry, he, hdevice, hterminal⟩ :=
      mem_keys_iff.1 ((mem_listing p.devicePrefix p.terminal).2 ⟨p, hp, rfl, rfl⟩)
    have found : root.lookup (AnyPath.plain p).devicePrefix (AnyPath.plain p).terminal =
        some entry.2 := indexes.lookup_eq_some_iff.2 ⟨entry.1, he, hdevice, hterminal⟩
    exact ⟨entry, he, hdevice, hterminal, by rw [Walker.locate_eq_lookup reachable h high, found]⟩

/-- Two paths that are written alike and have different keys, and a third that splits the device of
    the second in another way. -/
def tiedRecords : List (Path × Nat) :=
  [({ nodes := ["a", "b.s"] }, 1), ({ nodes := ["a.b", "s"] }, 2), ({ nodes := ["a", "b", "t"] }, 3)]

/-- The listing shows all three, each with its record. -/
theorem readers_of_tied : ∃ root listing, (build tiedRecords).result = .ok root ∧
    root.height ≤ (Setting.standard .maxDepth).toNat ∧ root.paths = .ok listing ∧
      listing.length = 3 ∧ ∀ p ∈ listing, ∃ entry ∈ tiedRecords,
        entry.1.devicePrefix = p.devicePrefix ∧ entry.1.terminal = p.terminal ∧
          Walker.locate {} root (.plain p) = { result := .ok (some entry.2) } := by
  obtain ⟨root, built, high⟩ : ∃ root, (build tiedRecords).result = .ok root ∧
      root.height ≤ (Setting.standard .maxDepth).toNat :=
    ⟨_, build_eq_ok_iff.2 ⟨Setting.standard .maxDegree, _, rfl, rfl, rfl⟩, by cbv⟩
  have reachable : ∀ entry ∈ tiedRecords, entry.1.Reachable := by
    simpa [tiedRecords] using ⟨Path.Reachable.of_proper ⟨by decide, by decide⟩,
      Path.Reachable.of_proper ⟨by decide, by decide⟩,
      Path.Reachable.of_proper ⟨by decide, by decide⟩⟩
  obtain ⟨listing, hpaths, hlength, -, -, agree⟩ := readers_agree reachable built
  exact ⟨root, listing, built, high, hpaths, hlength, (agree {} high).2⟩

end Page

end SeriesCatalog
