/-
  Series catalog — which pairs are known from their written path.

  A series is written as its device and its measurement, and nothing in the text
  says where the one ends and the other begins.  A quote that opens in the device
  may close in the measurement, and a separator in the measurement moves the
  border.

  * `Series.WellFormed`: the pairs whose parts are split each on its own;
  * `Series.wellFormed_of_split`, `Series.WellFormed.split`: such are the pairs that
    a split makes, and a split makes them of their written path;
  * `Series.ofFullPath_fullPath_iff`: hence a pair is read back from its written
    path iff it is well formed.
-/
import SeriesCatalog.Proofs.Cuts

namespace SeriesCatalog.Series

variable {device measurement raw : Text} {nodes : Nodes}

/-- A device, which may be missing, and a measurement that are split each on its own. -/
structure WellFormed (device measurement : Text) : Prop where
  device : device = [] ∨ ∃ nodes, Splitter.standard device = .ok nodes
  /-- The measurement is a single node. -/
  measurement : Splitter.standard measurement = .ok [measurement]

/-! ## Pairs and splits -/

/-- **What a split makes is well formed**, wherever its spans begin and end. -/
theorem wellFormed_of_split (h : Splitter.standard raw = .ok nodes) :
    WellFormed nodes.device.join nodes.terminal where
  device := by
    by_cases single : nodes.device = []
    · exact Or.inl (by rw [single]; rfl)
    · exact Or.inr ⟨nodes.device,
        Splitter.standard_join_of_subset h single (List.dropLast_subset nodes)⟩
  measurement := by
    have mem := Nodes.terminal_mem (Splitter.proper_of_standard h).nonempty
    exact Splitter.standard_join_of_subset h (List.cons_ne_nil _ _)
      (List.cons_subset.2 ⟨mem, List.nil_subset _⟩)

theorem WellFormed.split (h : WellFormed device measurement) :
    ∃ nodes, Splitter.standard (fullPath { device, measurement }) = .ok nodes ∧
      nodes.device.join = device ∧ nodes.terminal = measurement := by
  obtain ⟨splits, single⟩ := h
  by_cases none : device = []
  · refine ⟨[measurement], ?_, none.symm, rfl⟩
    rw [fullPath, if_pos (by simpa using none)]
    exact single
  · obtain ⟨nodes, split⟩ := splits.resolve_left none
    obtain ⟨-, -, hjoin⟩ := Splitter.atomic_of_quoted Splitter.separator_bare split
    refine ⟨nodes ++ [measurement], ?_, ?_, ?_⟩
    · rw [fullPath, if_neg (by simpa using none)]
      exact (Splitter.quoted_behind_iff Splitter.separator_bare split).2 ⟨_, single, rfl⟩
    · rw [Nodes.device, List.dropLast_concat, hjoin]
    · rw [Nodes.terminal, List.getLastD_concat]

/-! ## Read back -/

theorem ofFullPath_cases (raw : Text) :
    (∃ nodes, Splitter.standard raw = .ok nodes ∧ ofFullPath raw = .ok (ofSplit nodes)) ∨
      ∃ cause, ofFullPath raw = .error (.malformedPath raw cause) := by
  rw [ofFullPath_eq_map]
  cases h : Splitter.standard raw with
  | ok nodes => exact Or.inl ⟨nodes, rfl, rfl⟩
  | error error =>
    obtain ⟨cause, rfl⟩ := Splitter.quoted_eq_error h
    exact Or.inr ⟨cause, rfl⟩

/-- **A pair is read back from its written path iff it is well formed.**  Any other pair is written
    as a text that is malformed, or that is read as a different pair. -/
theorem ofFullPath_fullPath_iff (named : measurement ≠ []) :
    ∃ s, ofPair device measurement = .ok s ∧
      ((∃ t, ofFullPath s.fullPath = .ok t ∧ t.device = device ∧ t.measurement = measurement) ↔
        WellFormed device measurement) ∧
      (¬ WellFormed device measurement →
        (∃ cause, ofFullPath s.fullPath = .error (.malformedPath s.fullPath cause)) ∨
          ∃ t, ofFullPath s.fullPath = .ok t ∧
            (t.device, t.measurement) ≠ (device, measurement)) := by
  have survives : ∀ t, ofFullPath (fullPath { device, measurement }) = .ok t →
      t.device = device → t.measurement = measurement → WellFormed device measurement := by
    rintro t read rfl rfl
    rw [ofFullPath_eq_map] at read
    obtain ⟨nodes, split, rfl⟩ := Except.map_eq_ok_iff.1 read
    exact wellFormed_of_split split
  refine ⟨_, ofPair_eq_ok_iff.2 ⟨named, rfl⟩, ⟨?_, fun wellFormed => ?_⟩, fun ill => ?_⟩
  · rintro ⟨t, read, hdevice, hmeasurement⟩
    exact survives t read hdevice hmeasurement
  · obtain ⟨nodes, split, hdevice, hmeasurement⟩ := wellFormed.split
    exact ⟨ofSplit nodes, by rw [ofFullPath_eq_map, split]; rfl, hdevice, hmeasurement⟩
  · rcases ofFullPath_cases (fullPath { device, measurement }) with ⟨nodes, -, read⟩ | malformed
    · refine Or.inr ⟨_, read, fun same => ill ?_⟩
      obtain ⟨hdevice, hmeasurement⟩ := Prod.mk.inj same
      exact survives _ read hdevice hmeasurement
    · exact Or.inl malformed

/-- A span that holds the separator stays in the device. -/
theorem ofFullPath_fullPath_of_span : Text.ofString "s" ≠ [] ∧
    WellFormed "r.d\"1.2\"" "s" ∧ ∃ s t, ofPair "r.d\"1.2\"" "s" = .ok s ∧
      ofFullPath s.fullPath = .ok t ∧ t.device = "r.d\"1.2\"" ∧ t.measurement = "s" := by
  have named : Text.ofString "s" ≠ [] := by decide
  have wellFormed : WellFormed "r.d\"1.2\"" "s" :=
    ⟨Or.inr ⟨Splitter.quotedNodes.device, by cbv⟩, by cbv⟩
  obtain ⟨s, made, survives, -⟩ := @ofFullPath_fullPath_iff "r.d\"1.2\"" _ named
  obtain ⟨t, read, hdevice, hmeasurement⟩ := survives.2 wellFormed
  exact ⟨named, wellFormed, s, t, made, read, hdevice, hmeasurement⟩

/-- A quote that opens in the device and closes in the measurement makes one node of both. -/
example : ofFullPath (fullPath { device := "a\"", measurement := "b\"" }) =
    .ok { device := [], measurement := "a\".b\"" } := by
  cbv

end SeriesCatalog.Series
