/-
  Series catalog — paths that are written as their nodes join.

  A splitter with quotes cuts a text at separators and drops nothing else.  This
  needs nothing of the quotes: where the separator is one of them, spans run from
  separator to separator and the nodes are atomic no more, but they still join to
  the text.

  * `Path.join_of_read`: hence a path that was read so is written as its nodes
    join, whatever the quotes are;
  * `Path.parse_quoted_joined`: order, equality and hash do not tell it from the
    path that is made of its nodes.
-/
import SeriesCatalog.Proofs.Equality
import SeriesCatalog.Proofs.Reachable
import SeriesCatalog.Proofs.Settings

namespace SeriesCatalog.Path

variable {quotes : List Text} {raw : Text} {options : ParseOptions} {p : Path}

theorem join_of_read (splitter : options.splitter = Splitter.quoted quotes)
    (h : read raw options = .ok p) : p.nodes.join = raw := by
  have split := (splitNodes_eq_ok_iff.1 (of_read h).1).1
  rw [splitter] at split
  exact (Splitter.join_of_quoted split).2

/-- **No choice of quotes loses anything of a raw path.**  The nodes that it is read as join to it,
    and it is the written path.  The path that is made of these nodes ties with it in the order, is
    equal to it both ways, and both have the hash of the raw path. -/
theorem parse_quoted_joined (splitter : options.splitter = Splitter.quoted quotes)
    (h : (parse raw options).result = .ok p) :
    p.nodes.join = raw ∧ p.fullPath = raw ∧ p.hash = raw.hash ∧
    ∃ made, ofNodes p.nodes = .ok made ∧
      (AnyPath.plain p).compare (.plain made) = .eq ∧
      (AnyPath.plain made).compare (.plain p) = .eq ∧
      (AnyPath.plain p).equals (.plain made) = .ok true ∧
      (AnyPath.plain made).equals (.plain p) = .ok true ∧ made.hash = raw.hash := by
  have joined : p.nodes.join = raw := join_of_read splitter h
  have written : p.fullPath = raw := fullPath_of_read h
  have hash : p.hash = raw.hash := congrArg Text.hash joined
  -- the path that is made has the same nodes, and is written as they join
  have same : (AnyPath.plain p).fullPath = (AnyPath.plain { nodes := p.nodes }).fullPath :=
    written.trans joined.symm
  refine ⟨joined, written, hash, { nodes := p.nodes }, ?_, ?_, ?_, ?_, ?_, hash⟩
  · exact ofNodes_eq_ok_iff.2 ⟨(Reachable.read h).proper, rfl⟩
  · exact AnyPath.compare_eq_iff.2 same
  · exact AnyPath.compare_eq_iff.2 same.symm
  · exact (AnyPath.equals_eq_ok_true_iff rfl rfl).2 rfl
  · exact (AnyPath.equals_eq_ok_true_iff rfl rfl).2 rfl

/-- With the separator among the quotes, two spans that are opened by it stand side by side in one
    node. -/
theorem parse_separator_quoted :
    (parse "x.y..z." { splitter := Splitter.quoted [".", "", "ab", "."] }).result =
        .ok { nodes := ["x.y..z."], written := some "x.y..z." } ∧
      (AnyPath.plain { nodes := ["x.y..z."], written := some "x.y..z." }).compare
        (.plain { nodes := ["x.y..z."] }) = .eq := by
  have read : (parse "x.y..z." { splitter := Splitter.quoted [".", "", "ab", "."] }).result =
      .ok { nodes := ["x.y..z."], written := some "x.y..z." } :=
    read_eq_ok_iff.2 ⟨Setting.standard _, Setting.standard _, Setting.check_standard _,
      Setting.check_standard _, by decide,
      splitNodes_eq_ok_iff.2 ⟨by decide +kernel, by decide, by decide⟩, by decide, rfl⟩
  obtain ⟨-, -, -, made, hmade, tie, -⟩ := parse_quoted_joined rfl read
  obtain ⟨-, rfl⟩ := ofNodes_eq_ok_iff.1 hmade
  exact ⟨read, tie⟩

end SeriesCatalog.Path
