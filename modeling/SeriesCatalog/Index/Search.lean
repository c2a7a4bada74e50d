/-
  Series catalog — searching the entries of a page.

  Entries are searched by halving: the middle entry, the lower one of two,
  tells in which half to go on.  The searches are meant for entries in
  ascending order of names but answer on any.

  * `exactMatch?` looks for an entry with a given name;
  * `floorMatch?` looks for the last entry whose name is at most a given one;
  * `Bisection.run`: either search in place, round by round.  It keeps a window of
    positions, reads the middle one, and goes on with what lies on one side of it.
    The window closes from either side, and may then end before the list or begin
    behind it.
-/
import SeriesCatalog.Text.Basic

namespace SeriesCatalog

variable {ε : Type}

/-- The entries up to the middle, without it. -/
def lowerHalf (entries : List ε) : List ε := entries.take ((entries.length - 1) / 2)

/-- The entries from the middle on. -/
def upperHalf (entries : List ε) : List ε := entries.drop ((entries.length - 1) / 2)

theorem length_lowerHalf_lt {entries : List ε} {middle : ε} {above : List ε}
    (h : upperHalf entries = middle :: above) : (lowerHalf entries).length < entries.length := by
  have := congrArg List.length h
  simp only [upperHalf, lowerHalf, List.length_drop, List.length_take, List.length_cons] at *
  omega

theorem length_above_lt {entries : List ε} {middle : ε} {above : List ε}
    (h : upperHalf entries = middle :: above) : above.length < entries.length := by
  have := congrArg List.length h
  simp only [upperHalf, List.length_drop, List.length_cons] at *
  omega

/-- An entry named `key`. -/
def exactMatch? (name : ε → Text) (key : Text) (entries : List ε) : Option ε :=
  match _halves : upperHalf entries with
  | [] => none
  | middle :: above =>
    match compare (name middle) key with
    | .eq => some middle
    | .lt => exactMatch? name key above
    | .gt => exactMatch? name key (lowerHalf entries)
termination_by entries.length
decreasing_by
  · exact length_above_lt _halves
  · exact length_lowerHalf_lt _halves

/-- The last entry whose name is at most `key`; `best` if all are above it. -/
def floorMatch? (name : ε → Text) (key : Text) (entries : List ε) (best : Option ε := none) :
    Option ε :=
  match _halves : upperHalf entries with
  | [] => best
  | middle :: above =>
    if (compare (name middle) key).isLE then floorMatch? name key above (some middle)
    else floorMatch? name key (lowerHalf entries) best
termination_by entries.length
decreasing_by
  · exact length_above_lt _halves
  · exact length_lowerHalf_lt _halves

/-! ## Searches in place -/

namespace Bisection

/-- What a search makes of the entry it has read. -/
inductive Verdict where
  /-- The entry is what was looked for. -/
  | hit
  /-- What is looked for may stand behind the entry, which is the best so far if `keep` is set. -/
  | behind (keep : Bool)
  /-- What is looked for may stand before the entry. -/
  | before

/-- The verdict of the search for an entry named `key`. -/
def exact (name : ε → Text) (key : Text) (entry : ε) : Verdict :=
  match compare (name entry) key with
  | .eq => .hit
  | .lt => .behind false
  | .gt => .before

/-- The verdict of the search for the last entry whose name is at most `key`. -/
def floor (name : ε → Text) (key : Text) (entry : ε) : Verdict :=
  if (compare (name entry) key).isLE then .behind true else .before

/-- Where a search stands: it is left with the positions from `low` up to `high`, both included, and
    `best` is the best entry so far. -/
structure Window (ε : Type) where
  low : Int
  high : Int
  best : Option ε := none

/-- The window of all positions of a list. -/
def Window.whole (entries : List ε) : Window ε where
  low := 0
  high := entries.length - 1

/-- What comes of a search. -/
inductive Progress (ε : Type) where
  | on (window : Window ε)
  | answered (answer : Option ε)
  /-- A position was read that is none of the list. -/
  | outside (position : Int)

/-- The entry at a position. -/
def entryAt? (entries : List ε) : Int → Option ε
  | .ofNat i => entries[i]?
  | .negSucc _ => none

/-- How a search goes on from the entry that was read at a position. -/
def Window.judged (w : Window ε) (position : Int) (entry : ε) : Verdict → Progress ε
  | .hit => .answered (some entry)
  | .behind keep => .on { w with
      low := position + 1
      best := if keep then some entry else w.best }
  | .before => .on { w with high := position - 1 }

/-- Half of a sum that is cut to 32 bits. -/
def wordHalf (sum : Int) : Int := sum % UInt32.size / 2

/-- The middle of the window, which is found by halving the sum of its ends. -/
def Window.middle (half : Int → Int) (w : Window ε) : Int := half (w.low + w.high)

/-- A round of a search. -/
def round (half : Int → Int) (judge : ε → Verdict) (entries : List ε) (w : Window ε) : Progress ε :=
  if w.high < w.low then .answered w.best
  else
    match entryAt? entries (w.middle half) with
    | some entry => w.judged (w.middle half) entry (judge entry)
    | none => .outside (w.middle half)

/-- A number of rounds, or as many of them as there are. -/
def run (half : Int → Int) (judge : ε → Verdict) (entries : List ε) : Nat → Window ε → Progress ε
  | 0, w => .on w
  | rounds + 1, w =>
    match round half judge entries w with
    | .on w' => run half judge entries rounds w'
    | ended => ended

end Bisection

end SeriesCatalog
