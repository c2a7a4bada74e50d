/-
  Series catalog — aliased paths in use.

  Readers share the aliased paths of a shelf, and call them in any order.  A call
  may fail, and the calls behind it are made all the same.

  * `Shelf.Call`, `Shelf.perform`: what can be asked of a path on a shelf, and what
    comes of it;
  * `Shelf.effect_next`: all that a call can do to a shelf is to set an alias in an
    empty slot;
  * `Shelf.exists_at?_after`: after any calls, a slot holds the alias that was set
    first;
  * `Shelf.ask_after`: what a path shows without its aliases never changes;
  * `Shelf.aliases_set_once`: hence what every call of a run comes to.
-/
import SeriesCatalog.AnyPath
import SeriesCatalog.Shelf

namespace SeriesCatalog

variable {s s' : Shelf} {a b : Aliased} {slot other : AliasSlot} {name current : Text}
  {position target : Nat}

/-! ## One aliased path -/

namespace Aliased

@[simp]
theorem path_withAlias : (a.withAlias slot name).path = a.path := by
  cases slot <;> rfl

theorem alias?_withAlias :
    (a.withAlias slot name).alias? other = if slot = other then some name else a.alias? other := by
  cases slot <;> cases other <;> rfl

theorem setAlias_of_some (h : a.alias? slot = some current) :
    a.setAlias slot name = .error (.invalidState (.aliasTaken slot a.path.fullPath current)) := by
  rw [setAlias, h]

theorem setAlias_of_none (h : a.alias? slot = none) :
    a.setAlias slot name = .ok (a.withAlias slot name) := by
  rw [setAlias, h]

theorem fullPathWithAlias_of_none (h : a.alias? .display = none) :
    a.fullPathWithAlias = .error (.invalidState (.aliasMissing a.path.fullPath)) := by
  rw [fullPathWithAlias, show a.displayAlias = none from h]

theorem fullPathWithAlias_of_some (h : a.alias? .display = some name) :
    a.fullPathWithAlias = .ok (a.path.devicePrefix ++ separator :: name) := by
  rw [fullPathWithAlias, show a.displayAlias = some name from h]

/-- The path without its aliases. -/
def bare (a : Aliased) : Aliased := { path := a.path }

@[simp]
theorem bare_withAlias : (a.withAlias slot name).bare = a.bare := by
  rw [bare, path_withAlias, bare]

end Aliased

/-- A path of any kind, without aliases. -/
def AnyPath.bare : AnyPath → AnyPath
  | .aliased a => .aliased a.bare
  | path => path

namespace AnyPath

variable (path other : AnyPath)

theorem nodes_bare : path.bare.nodes = path.nodes := by
  cases path <;> rfl

theorem fullPath_bare : path.bare.fullPath = path.fullPath := by
  cases path <;> rfl

theorem devicePrefix_bare : path.bare.devicePrefix = path.devicePrefix := by
  cases path <;> rfl

theorem terminal_bare : path.bare.terminal = path.terminal := by
  cases path <;> rfl

theorem hash_bare : path.bare.hash = path.hash := by
  rw [hash, hash, nodes_bare]

theorem equals_bare : path.bare.equals other = path.equals other := by
  rw [equals, equals, nodes_bare]

theorem equals_bare_right : path.equals other.bare = path.equals other := by
  rw [equals, equals, nodes_bare]

theorem compare_bare : path.bare.compare other = path.compare other := by
  rw [compare, compare, fullPath_bare]

theorem compare_bare_right : path.compare other.bare = path.compare other := by
  rw [compare, compare, fullPath_bare]

end AnyPath

namespace Shelf

/-! ## Calls -/

/-- A shelf with paths that were placed in turn. -/
def ofPaths (paths : List Path) : Shelf :=
  paths.foldl (fun shelf path => (shelf.place path).2) {}

/-- What a path is compared with. -/
inductive Operand where
  /-- A path on the same shelf. -/
  | shelved (position : Nat)
  /-- A path from elsewhere. -/
  | loose (path : AnyPath)

/-- What a path shows of itself without its aliases. -/
inductive Reading where
  | nodes
  | fullPath
  | devicePrefix
  | terminal
  | hash
  | equals (other : Operand)
  | compare (other : Operand)

/-- What can be asked of a path on a shelf. -/
inductive Question where
  | alias (slot : AliasSlot)
  | fullPathWithAlias
  | reading (reading : Reading)

/-- What a reader may want of a path on a shelf. -/
inductive Request where
  | setAlias (slot : AliasSlot) (name : Text)
  | ask (question : Question)

/-- A request to the path at a position. -/
structure Call where
  position : Nat
  request : Request

/-- What a request is answered with; `nothing` also where there is no path. -/
inductive Answer where
  | nothing
  | alias (name : Option Text)
  | text (text : Text)
  | nodes (nodes : Nodes)
  | hash (hash : Int32)
  | equal (same : Bool)
  | order (order : Ordering)

/-- The path that an operand stands for. -/
def operand? (s : Shelf) : Operand → Option AnyPath
  | .shelved position => (s.at? position).map .aliased
  | .loose path => some path

/-- What a path on a shelf shows. -/
def answer (s : Shelf) (path : AnyPath) : Reading → Except CatalogError Answer
  | .nodes => path.nodes.map .nodes
  | .fullPath => .ok (.text path.fullPath)
  | .devicePrefix => .ok (.text path.devicePrefix)
  | .terminal => .ok (.text path.terminal)
  | .hash => path.hash.map .hash
  | .equals other =>
    (s.operand? other).elim (.ok .nothing) fun other => (path.equals other).map .equal
  | .compare other =>
    (s.operand? other).elim (.ok .nothing) fun other => .ok (.order (path.compare other))

/-- What a question to the path at a position is answered with. -/
def ask (s : Shelf) (position : Nat) (question : Question) : Except CatalogError Answer :=
  match s.at? position with
  | none => .ok .nothing
  | some aliased =>
    match question with
    | .alias slot => .ok (.alias (aliased.alias? slot))
    | .fullPathWithAlias => aliased.fullPathWithAlias.map .text
    | .reading reading => s.answer (.aliased aliased) reading

/-- Makes a call. -/
def perform (call : Call) : EStateM CatalogError Shelf Answer := do
  match call.request with
  | .setAlias slot name =>
    setAlias call.position slot name
    return .nothing
  | .ask question => MonadExcept.ofExcept ((← get).ask call.position question)

/-- The shelf behind a call, whether or not it fails. -/
def next (s : Shelf) (call : Call) : Shelf :=
  match (perform call).run s with
  | .ok _ s' | .error _ s' => s'

/-- The shelf behind calls. -/
def after (s : Shelf) (calls : List Call) : Shelf := calls.foldl next s

/-- The alias that a call is to set in a slot of the path at a position. -/
def Call.sets? (call : Call) (position : Nat) (slot : AliasSlot) : Option Text :=
  match call.request with
  | .setAlias other name => if call.position = position ∧ other = slot then some name else none
  | _ => none

/-- The first alias that calls are to set in a slot of the path at a position. -/
def firstAlias? (calls : List Call) (position : Nat) (slot : AliasSlot) : Option Text :=
  calls.findSome? (·.sets? position slot)

/-! ## One call -/

theorem run_setAlias_of_taken (h : s.at? position = some a)
    (taken : a.alias? slot = some current) :
    (setAlias position slot name).run s =
      .error (.invalidState (.aliasTaken slot a.path.fullPath current)) s := by
  simp only [setAlias, EStateM.run_bind, EStateM.run_get, h, Aliased.setAlias_of_some taken]
  rfl

theorem run_setAlias_of_free (h : s.at? position = some a) (free : a.alias? slot = none) :
    (setAlias position slot name).run s =
      .ok () ⟨s.places.set position (a.withAlias slot name)⟩ := by
  simp only [setAlias, EStateM.run_bind, EStateM.run_get, h, Aliased.setAlias_of_none free]
  rfl

theorem run_setAlias_of_missing (h : s.at? position = none) :
    (setAlias position slot name).run s = .ok () s := by
  simp only [setAlias, EStateM.run_bind, EStateM.run_get, h]
  rfl

theorem run_perform_setAlias :
    (perform ⟨position, .setAlias slot name⟩).run s =
      match (setAlias position slot name).run s with
      | .ok _ s' => .ok .nothing s'
      | .error error s' => .error error s' := by
  simp only [perform, EStateM.run_bind]
  cases (setAlias position slot name).run s <;> rfl

theorem run_perform_ask (question : Question) :
    (perform ⟨position, .ask question⟩).run s =
      match s.ask position question with
      | .ok answer => .ok answer s
      | .error error => .error error s := by
  simp only [perform, EStateM.run_bind, EStateM.run_get]
  cases s.ask position question <;> rfl

theorem ask_fullPathWithAlias (found : s.at? position = some a) :
    s.ask position .fullPathWithAlias = a.fullPathWithAlias.map .text := by
  rw [ask, found]

/-- What a call does to a shelf. -/
inductive Effect (s : Shelf) : Call → Shelf → Prop
  | set {position : Nat} {slot : AliasSlot} {name : Text} {a : Aliased} :
      s.at? position = some a → a.alias? slot = none →
      Effect s ⟨position, .setAlias slot name⟩ ⟨s.places.set position (a.withAlias slot name)⟩
  /-- The slot holds an alias. -/
  | refused {position : Nat} {slot : AliasSlot} {name current : Text} {a : Aliased} :
      s.at? position = some a → a.alias? slot = some current →
      Effect s ⟨position, .setAlias slot name⟩ s
  /-- There is no path at the position. -/
  | missed {position : Nat} {slot : AliasSlot} {name : Text} :
      s.at? position = none → Effect s ⟨position, .setAlias slot name⟩ s
  | asked {position : Nat} {question : Question} : Effect s ⟨position, .ask question⟩ s

/-- **All that a call can do to a shelf** is to set an alias in an empty slot. -/
theorem effect_next (s : Shelf) (call : Call) : Effect s call (s.next call) := by
  obtain ⟨position, request⟩ := call
  cases request with
  | ask question =>
    have quiet : s.next ⟨position, .ask question⟩ = s := by
      rw [next, run_perform_ask]
      cases s.ask position question <;> rfl
    rw [quiet]
    exact .asked
  | setAlias slot name =>
    rw [next, run_perform_setAlias]
    cases h : s.at? position with
    | none =>
      rw [run_setAlias_of_missing h]
      exact .missed h
    | some a =>
      cases halias : a.alias? slot with
      | none =>
        rw [run_setAlias_of_free h halias]
        exact .set h halias
      | some current =>
        rw [run_setAlias_of_taken h halias]
        exact .refused h halias

theorem at?_set (h : s.at? position = some a) :
    (Shelf.mk (s.places.set position b)).at? target =
      if position = target then some b else s.at? target := by
  have within : position < s.places.length := (List.getElem?_eq_some_iff.1 h).1
  simp [at?, List.getElem?_set, within]

namespace Effect

variable {call : Call}

theorem at?_of_ne (h : Effect s call s') (elsewhere : call.position ≠ target) :
    s'.at? target = s.at? target := by
  cases h with
  | set found free => rw [at?_set found, if_neg elsewhere]
  | refused => rfl
  | missed => rfl
  | asked => rfl

theorem exists_at?_self (h : Effect s call s') (found : s.at? call.position = some a) :
    ∃ b, s'.at? call.position = some b ∧ b.path = a.path ∧
      ∀ slot, b.alias? slot = (a.alias? slot).or (call.sets? call.position slot) := by
  cases h with
  | @set position slot name a' found' free =>
    obtain rfl := Option.some.inj (found.symm.trans found')
    refine ⟨a.withAlias slot name, ?_, Aliased.path_withAlias, ?_⟩
    · rw [at?_set found', if_pos rfl]
    · intro other
      rw [Aliased.alias?_withAlias]
      by_cases same : slot = other
      · subst same
        simp [Call.sets?, free]
      · simp [Call.sets?, same]
  | @refused position slot name current a' found' taken =>
    obtain rfl := Option.some.inj (found.symm.trans found')
    refine ⟨a, found, rfl, ?_⟩
    intro other
    by_cases same : slot = other
    · subst same
      rw [taken]
      rfl
    · simp [Call.sets?, same]
  | missed empty =>
    rw [empty] at found
    contradiction
  | asked => exact ⟨a, found, rfl, fun slot => (Option.or_none).symm⟩

/-- **What one call keeps**: the path stays, and an alias that the call is to set is there if none
    was before. -/
theorem exists_at? (h : Effect s call s') (found : s.at? target = some a) :
    ∃ b, s'.at? target = some b ∧ b.path = a.path ∧
      ∀ slot, b.alias? slot = (a.alias? slot).or (call.sets? target slot) := by
  by_cases here : call.position = target
  · subst here
    exact h.exists_at?_self found
  · refine ⟨a, by rw [h.at?_of_ne here, found], rfl, ?_⟩
    intro slot
    have elsewhere : call.sets? target slot = none := by
      unfold Call.sets?
      split <;> simp [here]
    rw [elsewhere, Option.or_none]

end Effect

/-! ## Runs of calls -/

@[simp]
theorem firstAlias?_cons (call : Call) (calls : List Call) :
    firstAlias? (call :: calls) target slot =
      (call.sets? target slot).or (firstAlias? calls target slot) := by
  rw [firstAlias?, List.findSome?_cons]
  cases call.sets? target slot <;> rfl

/-- **What a run of calls comes to**: the paths stay, and a slot without an alias gets the first
    that is to be set in it. -/
theorem exists_at?_after (calls : List Call) (h : s.at? target = some a) :
    ∃ b, (s.after calls).at? target = some b ∧ b.path = a.path ∧
      ∀ slot, b.alias? slot = (a.alias? slot).or (firstAlias? calls target slot) := by
  induction calls generalizing s a with
  | nil => exact ⟨a, h, rfl, fun slot => (Option.or_none).symm⟩
  | cons call calls ih =>
    obtain ⟨b, hb, hpath, halias⟩ := (effect_next s call).exists_at? h
    obtain ⟨c, hc, hpath', halias'⟩ := ih hb
    refine ⟨c, hc, hpath'.trans hpath, ?_⟩
    intro slot
    rw [halias', halias, firstAlias?_cons, Option.or_assoc]

theorem places_ofPaths (paths : List Path) :
    (ofPaths paths).places = paths.map fun path => { path := path } := by
  -- for paths that are placed on any shelf
  suffices h : ∀ s : Shelf, (paths.foldl (fun shelf path => (shelf.place path).2) s).places =
      s.places ++ paths.map fun path => { path := path } from h {}
  induction paths with
  | nil => intro s; simp
  | cons path paths ih =>
    intro s
    rw [List.foldl_cons, ih]
    simp [place]

/-! ## Readings -/

/-- The shelf without any alias. -/
def bare (s : Shelf) : Shelf := ⟨s.places.map Aliased.bare⟩

theorem at?_bare : s.bare.at? position = (s.at? position).map Aliased.bare :=
  List.getElem?_map

theorem elim_operand?_bare {β : Type} (s : Shelf) (operand : Operand) (missing : β)
    {f : AnyPath → β} (h : ∀ path, f path.bare = f path) :
    (s.bare.operand? operand).elim missing f = (s.operand? operand).elim missing f := by
  cases operand with
  | loose path => rfl
  | shelved position =>
    simp only [operand?, at?_bare]
    cases s.at? position with
    | none => rfl
    | some a => exact h (.aliased a)

/-- **Aliases do not show**, neither those of the path nor those of the path it is compared with. -/
theorem answer_bare (s : Shelf) (path : AnyPath) (reading : Reading) :
    s.bare.answer path.bare reading = s.answer path reading := by
  cases reading with
  | nodes => rw [answer, answer, path.nodes_bare]
  | fullPath => rw [answer, answer, path.fullPath_bare]
  | devicePrefix => rw [answer, answer, path.devicePrefix_bare]
  | terminal => rw [answer, answer, path.terminal_bare]
  | hash => rw [answer, answer, path.hash_bare]
  | equals operand =>
    simp only [answer, path.equals_bare]
    apply s.elim_operand?_bare
    intro other
    rw [path.equals_bare_right]
  | compare operand =>
    simp only [answer, path.compare_bare]
    apply s.elim_operand?_bare
    intro other
    rw [path.compare_bare_right]

theorem ask_bare (s : Shelf) (position : Nat) (reading : Reading) :
    s.bare.ask position (.reading reading) = s.ask position (.reading reading) := by
  rw [ask, ask, at?_bare]
  cases s.at? position with
  | none => rfl
  | some a => exact s.answer_bare (.aliased a) reading

theorem Effect.bare_eq {call : Call} (h : Effect s call s') : s'.bare = s.bare := by
  cases h with
  | @set position slot name a found free =>
    obtain ⟨within, rfl⟩ := List.getElem?_eq_some_iff.1 found
    rw [bare, bare, List.map_set, Aliased.bare_withAlias]
    congr 1
    rw [← List.getElem_map Aliased.bare (h := by simpa using within), List.set_getElem_self]
  | refused => rfl
  | missed => rfl
  | asked => rfl

theorem bare_after (s : Shelf) (calls : List Call) : (s.after calls).bare = s.bare := by
  induction calls generalizing s with
  | nil => rfl
  | cons call calls ih => exact (ih (s.next call)).trans (effect_next s call).bare_eq

/-- **What a path shows never changes.** -/
theorem ask_after (s : Shelf) (calls : List Call) (position : Nat) (reading : Reading) :
    (s.after calls).ask position (.reading reading) = s.ask position (.reading reading) := by
  rw [← ask_bare, bare_after, ask_bare]

/-! ## What a run comes to -/

/-- **Aliases are set once, and nothing else ever changes**, over every run of calls on a shelf.
    At each moment a slot of a path holds the alias that was set in it first.  While a slot holds
    none it can be set; from then on setting it fails, names what it holds and leaves the shelf as
    it was.  The path under its display alias can be had exactly while there is one.  A call
    touches no other path than its own, and what a path shows without its aliases is the same at
    all times. -/
theorem aliases_set_once (paths : List Path) (calls : List Call)
    (run : (ofPaths paths).after calls = s) :
    (∀ position path, paths[position]? = some path →
      (∃ a, s.at? position = some a ∧ a.path = path ∧
        ∀ slot, a.alias? slot = firstAlias? calls position slot) ∧
      (∀ slot, (perform ⟨position, .ask (.alias slot)⟩).run s =
        .ok (.alias (firstAlias? calls position slot)) s) ∧
      (∀ slot name, firstAlias? calls position slot = none →
        (perform ⟨position, .setAlias slot name⟩).run s =
          .ok .nothing (s.next ⟨position, .setAlias slot name⟩)) ∧
      (∀ slot name current, firstAlias? calls position slot = some current →
        (perform ⟨position, .setAlias slot name⟩).run s =
          .error (.invalidState (.aliasTaken slot path.fullPath current)) s) ∧
      (firstAlias? calls position .display = none →
        (perform ⟨position, .ask .fullPathWithAlias⟩).run s =
          .error (.invalidState (.aliasMissing path.fullPath)) s) ∧
      ∀ name, firstAlias? calls position .display = some name →
        (perform ⟨position, .ask .fullPathWithAlias⟩).run s =
          .ok (.text (path.devicePrefix ++ separator :: name)) s) ∧
    (∀ (call : Call) position, call.position ≠ position →
      (s.next call).at? position = s.at? position) ∧
    ∀ position reading, (perform ⟨position, .ask (.reading reading)⟩).run s =
      match (ofPaths paths).ask position (.reading reading) with
      | .ok answer => .ok answer s
      | .error error => .error error s := by
  refine ⟨?_, ?_, ?_⟩
  · intro position path placed
    have start : (ofPaths paths).at? position = some { path := path } := by
      rw [at?, places_ofPaths, List.getElem?_map, placed]
      rfl
    obtain ⟨a, found, rfl, halias⟩ := exists_at?_after calls start
    rw [run] at found
    have first : ∀ slot, a.alias? slot = firstAlias? calls position slot := by
      intro slot
      rw [halias]
      cases slot <;> rfl
    refine ⟨⟨a, found, rfl, first⟩, ?_, ?_, ?_, ?_, ?_⟩
    · intro slot
      rw [run_perform_ask, ask, found, ← first]
    · intro slot name free
      rw [← first] at free
      rw [next, run_perform_setAlias, run_setAlias_of_free found free]
    · intro slot name current taken
      rw [← first] at taken
      rw [run_perform_setAlias, run_setAlias_of_taken found taken]
    · intro free
      rw [← first] at free
      rw [run_perform_ask, ask_fullPathWithAlias found, a.fullPathWithAlias_of_none free]
      rfl
    · intro name taken
      rw [← first] at taken
      rw [run_perform_ask, ask_fullPathWithAlias found, a.fullPathWithAlias_of_some taken]
      rfl
  · intro call position elsewhere
    exact (effect_next s call).at?_of_ne elsewhere
  · intro position reading
    rw [run_perform_ask, ← run, ask_after]

/-- The path under two aliased paths. -/
def sharedPath : Path := { nodes := ["d", "s"] }

/-- One path that is put under aliases twice. -/
def sharedPaths : List Path := [sharedPath, sharedPath]

/-- At the first position the empty alias is set before another, at the second a query alias. -/
def sharedCalls : List Call :=
  [⟨0, .setAlias .display ""⟩, ⟨0, .setAlias .display "x"⟩, ⟨1, .setAlias .query "q"⟩]

/-- The empty alias stays, and the other aliases of the same path do not have it. -/
theorem aliases_of_sharedCalls : ∃ s, (ofPaths sharedPaths).after sharedCalls = s ∧
    (perform ⟨0, .setAlias .display "y"⟩).run s =
      .error (.invalidState (.aliasTaken .display "d.s" "")) s ∧
    (perform ⟨0, .ask .fullPathWithAlias⟩).run s = .ok (.text "d.") s ∧
    (perform ⟨1, .ask .fullPathWithAlias⟩).run s =
      .error (.invalidState (.aliasMissing "d.s")) s := by
  obtain ⟨once, -, -⟩ := aliases_set_once sharedPaths sharedCalls rfl
  obtain ⟨-, -, -, taken, -, shown⟩ := once 0 _ rfl
  obtain ⟨-, -, -, -, missing, -⟩ := once 1 _ rfl
  exact ⟨_, rfl, taken .display "y" "" rfl, shown "" rfl, missing rfl⟩

end Shelf

end SeriesCatalog
