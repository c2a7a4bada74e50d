/-
  Series catalog — splitting raw paths into nodes.

  A `Splitter` cuts a raw path into its nodes or says why it cannot.  The
  standard one cuts at every separator that stands outside quotes; a quoted
  span belongs to one node and keeps its quotes, so that joining the nodes
  gives the raw path back.

  * `Splitter.scan` reads a path from left to right and stops at the leftmost
    fault;
  * `Splitter.quoted` is the splitter with given quotes, `Splitter.standard`
    the one with the two usual quotes;
  * `Splitter.plain`, `Splitter.constant` and `Splitter.failing` are the
    splitters of callers without quotes.
-/
import SeriesCatalog.Error

namespace SeriesCatalog

/-- A way to cut raw paths into nodes. -/
abbrev Splitter := Text → Except CatalogError Nodes

namespace Splitter

/-! ## Quoted spans -/

/-- Whether a unit opens a quoted span.  Of the given delimiters only those of a single unit
    can. -/
def isQuote (quotes : List Text) (u : UInt16) : Bool :=
  quotes.contains [u]

/-- Reads up to the next `quote`: what stands before it, and what follows it. -/
def closing? (quote : UInt16) (rest : Text) : Option (Text × Text) :=
  match rest.dropWhile (· ≠ quote) with
  | [] => none
  | _ :: after => some (rest.takeWhile (· ≠ quote), after)

theorem length_of_closing? {quote : UInt16} {rest span after : Text}
    (h : closing? quote rest = some (span, after)) : after.length < rest.length := by
  have shorter := (List.dropWhile_sublist (· ≠ quote) (l := rest)).length_le
  unfold closing? at h
  split at h
  · contradiction
  · next closed =>
    obtain ⟨-, rfl⟩ := Prod.mk.inj (Option.some.inj h)
    rw [closed] at shorter
    exact shorter

/-! ## Scanning -/

/-- Ends the node that starts at position `start`: it may be neither empty nor a quoted span with
    nothing inside. -/
def closeNode (quotes : List Text) (start : Nat) (node : Text) : Except Malformation Text :=
  match node with
  | [] => .error (.emptyNode start)
  | [first, last] =>
    if isQuote quotes first ∧ last = first then .error (.emptyQuoted start) else .ok node
  | _ => .ok node

/-- Splits the rest of a path, within a node that starts at position `start` and of which `node`
    has been read, last unit first.  A quote is looked for before a separator is, and what
    follows a closing quote must be a separator. -/
def scan (quotes : List Text) (start : Nat) (node : Text) :
    Text → Except Malformation Nodes
  | [] => do return [← closeNode quotes start node.reverse]
  | u :: rest =>
    if isQuote quotes u then
      match _closed : closing? u rest with
      | none => .error (.unclosed u (start + node.length))
      | some (span, after) =>
        let node := u :: (span.reverse ++ u :: node)
        if after.head?.all (· = separator) then scan quotes start node after
        else .error (.afterQuote (start + node.length))
    else if u = separator then do
      let first ← closeNode quotes start node.reverse
      let others ← scan quotes (start + node.length + 1) [] rest
      return first :: others
    else scan quotes start (u :: node) rest
termination_by rest => rest.length
decreasing_by
  · have := length_of_closing? _closed
    simp only [List.length_cons]
    omega
  · simp
  · simp

/-! ## Splitters -/

/-- Cuts at every separator outside quotes. -/
def quoted (quotes : List Text) : Splitter := fun raw =>
  match raw with
  | [] => .error (.malformedPath raw .emptyPath)
  | _ => (scan quotes 0 [] raw).mapError (.malformedPath raw)

/-- The quotes of the standard splitter. -/
def standardQuotes : List Text := ["\"", "'"]

/-- Cuts at every separator outside double and single quotes. -/
def standard : Splitter := quoted standardQuotes

/-- The pieces of a text between the occurrences of a mark, taken from the left and without
    overlap; `piece` has been read of the first, last unit first.  The empty mark never occurs. -/
def pieces (mark : Text) (piece : Text) : Text → List Text
  | [] => [piece.reverse]
  | u :: rest =>
    if ¬ mark.isEmpty ∧ mark.isPrefixOf (u :: rest) then
      piece.reverse :: pieces mark [] ((u :: rest).drop mark.length)
    else pieces mark (u :: piece) rest
termination_by rest => rest.length
decreasing_by
  · next found =>
    have nonempty : mark.length ≠ 0 := by simpa using found.1
    simp only [List.length_drop, List.length_cons]
    omega
  · simp

/-- Cuts at every occurrence of a mark. -/
def plain (mark : Text) : Splitter := fun raw => .ok (pieces mark [] raw)

/-- Cuts every path into the same nodes. -/
def constant (nodes : Nodes) : Splitter := fun _ => .ok nodes

/-- Refuses every path with the same error. -/
def failing (error : CatalogError) : Splitter := fun _ => .error error

end Splitter

end SeriesCatalog
