/-
  Series catalog — lookups in a built index.

  * `Walker.locate_ordered`: on a search tree that a walker can pass to the
    bottom, it answers what a search of all leaves finds, whatever its mode, and
    logs nothing;
  * `Walker.locate_build`: an index that is built of records answers as the
    finite map from device and measurement to record.
-/
import SeriesCatalog.Proofs.Contents
import SeriesCatalog.Proofs.Reachable

namespace SeriesCatalog

variable {α : Type} {records : List (Path × α)} {options : BuildOptions} {root : Page α}

namespace Walker

theorem answer_outcomeOf (w : Walker) (q : AnyPath) (found : Option α) :
    w.answer q (Page.outcomeOf found) = { result := .ok found } := by
  cases found <;> rfl

theorem locate_ordered {w : Walker} {q : AnyPath} (ordered : root.Ordered .device)
    (high : root.height ≤ w.maxDepth.toNat) (device : q.devicePrefix ≠ []) :
    w.locate root q = { result := .ok (root.lookup q.devicePrefix q.terminal) } := by
  rw [locate, outcome, if_neg (by simpa using device), Page.walk_ordered ordered high,
    answer_outcomeOf]

theorem locate_without_device {w : Walker} {q : AnyPath} (device : q.devicePrefix = []) :
    w.locate root q = { result := .ok none } := by
  rw [locate, outcome, if_pos (by simpa using device)]
  rfl

/-- On a built index, a walker of either mode answers what a search of all leaves finds, for paths
    without a device too. -/
theorem locate_eq_lookup (reachable : ∀ entry ∈ records, entry.1.Reachable)
    (h : (Page.build records options).result = .ok root) {w : Walker}
    (high : root.height ≤ w.maxDepth.toNat) (q : AnyPath) :
    w.locate root q = { result := .ok (root.lookup q.devicePrefix q.terminal) } := by
  have indexes := Page.indexes_build h
  by_cases device : q.devicePrefix = []
  · have none : root.lookup q.devicePrefix q.terminal = none := by
      refine Option.eq_none_iff_forall_ne_some.2 fun record hrecord => ?_
      obtain ⟨p, mem, hp, -⟩ := indexes.lookup_eq_some_iff.1 hrecord
      have hne := (reachable _ mem).devicePrefix_ne_nil (Page.build_deep h _ mem)
      exact hne (hp.trans device)
    rw [locate_without_device device, none]
  · exact locate_ordered indexes.ordered high device

/-- **An index is a finite map from device and measurement.**  A walker of either mode that may
    visit as many pages as the tree is high finds a record for a path of any kind iff the index was
    built of a record with the same device and measurement.  It neither fails nor logs. -/
theorem locate_build (reachable : ∀ entry ∈ records, entry.1.Reachable)
    (h : (Page.build records options).result = .ok root) (w : Walker)
    (high : root.height ≤ w.maxDepth.toNat) (q : AnyPath) :
    ∃ found, w.locate root q = { result := .ok found, log := [] } ∧
      ∀ record, found = some record ↔
        ∃ p, (p, record) ∈ records ∧ p.devicePrefix = q.devicePrefix ∧ p.terminal = q.terminal := by
  by_cases device : q.devicePrefix = []
  · refine ⟨none, locate_without_device device, fun record => ⟨(nomatch ·), ?_⟩⟩
    rintro ⟨p, mem, hp, -⟩
    have hne := (reachable _ mem).devicePrefix_ne_nil (Page.build_deep h _ mem)
    exact absurd (hp.trans device) hne
  · have indexes := Page.indexes_build h
    exact ⟨_, locate_ordered indexes.ordered high device, fun record => indexes.lookup_eq_some_iff⟩

/-- A device is found by its name, beside a device of which the name is a prefix. -/
theorem locate_device_with_separator : ∃ root,
    (Page.build [({ nodes := ["a.b", "s"] }, 1), ({ nodes := ["a", "s"] }, 2),
      ({ nodes := ["a!", "s"] }, 3)] { maxDegree := .ofNat 2 }).result = .ok root ∧
      root.height ≤ (Setting.standard .maxDepth).toNat ∧
        Walker.locate {} root (.series { device := "a.b", measurement := "s" }) =
          { result := .ok (some 1) } := by
  obtain ⟨root, built, high⟩ : ∃ root,
      (Page.build [({ nodes := ["a.b", "s"] }, 1), ({ nodes := ["a", "s"] }, 2),
        ({ nodes := ["a!", "s"] }, 3)] { maxDegree := .ofNat 2 }).result = .ok root ∧
        root.height ≤ (Setting.standard .maxDepth).toNat :=
    ⟨_, Page.build_eq_ok_iff.2 ⟨⟨2, by decide⟩, _, rfl, rfl, rfl⟩, by cbv⟩
  obtain ⟨found, hfound, holds⟩ := locate_build
    (by simpa using ⟨Path.Reachable.of_proper ⟨by decide, by decide⟩,
      Path.Reachable.of_proper ⟨by decide, by decide⟩,
      Path.Reachable.of_proper ⟨by decide, by decide⟩⟩)
    built {} high (.series { device := "a.b", measurement := "s" })
  refine ⟨root, built, high, ?_⟩
  rw [hfound, (holds 1).2 ⟨{ nodes := ["a.b", "s"] }, by simp, by decide, rfl⟩]

end Walker

end SeriesCatalog
