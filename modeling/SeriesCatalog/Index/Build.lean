/-
  Series catalog — building an index.

  The records of a device are spread over measurement leaves, and internal
  pages are raised over the leaves until one page is left; the devices are
  spread over device leaves in the same way, with one level of internal pages
  at least.  Every page holds as many entries as the degree allows, except for
  the last of a level, and an internal entry has the first name below it.

  * `Page.ofDirectory` is the index of a directory;
  * `Page.build` files records, builds their index and logs its size.
-/
import SeriesCatalog.Index.Directory
import SeriesCatalog.Index.Page
import SeriesCatalog.Log

namespace SeriesCatalog

/-- The most entries that a page may hold: enough to spread pages below it. -/
abbrev Degree := Setting.Value .maxDegree

theorem Degree.two_le (degree : Degree) : 2 ≤ degree.toNat := degree.least_le

/-- How an index is built. -/
structure BuildOptions where
  /-- The most entries that a page may hold. -/
  maxDegree : Number := .ofNat Setting.maxDegree.standard.toNat
  logger : Logger := {}

/-! ## Levels -/

/-- Cuts a list into pieces of `size` members; the last piece may be shorter. -/
def chunks {β : Type} (size : Nat) : List β → List (List β)
  | [] => []
  | x :: rest => (x :: rest.take (size - 1)) :: chunks size (rest.drop (size - 1))
termination_by list => list.length
decreasing_by
  simp only [List.length_drop, List.length_cons]
  omega

theorem length_chunks_le {β : Type} (size : Nat) (list : List β) :
    (chunks size list).length ≤ list.length := by
  fun_induction chunks size list with
  | case1 => simp
  | case2 x rest ih =>
    simp only [List.length_cons, List.length_drop] at ih ⊢
    omega

namespace Page

variable {α : Type}

/-- Raises a level of internal pages over a level of pages. -/
def raise (tier : Tier) (degree : Degree) (level : List (Page α)) : List (Page α) :=
  (chunks degree.toNat level).map fun pages =>
    .internal tier (pages.map fun page => { name := page.firstName, child := page })

theorem length_raise_lt (tier : Tier) (degree : Degree) (first second : Page α)
    (rest : List (Page α)) :
    (raise tier degree (first :: second :: rest)).length < (first :: second :: rest).length := by
  have := Degree.two_le degree
  have := length_chunks_le degree.toNat ((second :: rest).drop (degree.toNat - 1))
  simp only [raise, chunks, List.length_map, List.length_cons, List.length_drop] at *
  omega

/-- The page over a level: levels are raised until one page is left. -/
def apex (tier : Tier) (degree : Degree) : List (Page α) → Page α
  | [] => .internal tier []
  | [page] => page
  | first :: second :: rest => apex tier degree (raise tier degree (first :: second :: rest))
termination_by level => level.length
decreasing_by exact length_raise_lt tier degree first second rest

/-! ## Tiers -/

/-- The measurement tier of a device. -/
def ofRecordEntries (degree : Degree) (entries : List (RecordEntry α)) : Page α :=
  apex .measurement degree ((chunks degree.toNat entries).map .measurementLeaf)

/-- The entry of a device. -/
def deviceEntry (degree : Degree) (device : Text) (file : DeviceFile α) : ChildEntry (Page α) where
  name := device
  child := ofRecordEntries degree (file.records.toList.map fun (name, record) => ⟨name, record⟩)
  deviceNodes := file.nodes

/-- The index over the entries of all devices. -/
def ofDeviceEntries (degree : Degree) (entries : List (ChildEntry (Page α))) : Page α :=
  apex .device degree (raise .device degree ((chunks degree.toNat entries).map .deviceLeaf))

/-- The index of a directory. -/
def ofDirectory (degree : Degree) (directory : Directory α) : Page α :=
  ofDeviceEntries degree (directory.toList.map fun (device, file) => deviceEntry degree device file)

/-! ## Building -/

/-- What is logged of an index that was built. -/
def buildMessage (degree : Degree) (records : List (Path × α)) (directory : Directory α)
    (root : Page α) : Text :=
  "[index] built " ++ Text.ofNat root.pageCount ++ " pages for " ++ Text.ofNat records.length
    ++ " series across " ++ Text.ofNat directory.size ++ " devices (maxDegree "
    ++ (Number.ofNat degree.toNat).text ++ ")"

/-- Builds the index of records.  The degree is checked first; then the records are filed in
    turn. -/
def build (records : List (Path × α)) (options : BuildOptions := {}) : Logged (Page α) :=
  match Setting.maxDegree.check options.maxDegree with
  | .error error => { result := .error error }
  | .ok degree =>
    match Directory.ofRecords records with
    | .error error => { result := .error error }
    | .ok directory =>
      let root := ofDirectory degree directory
      { result := .ok root
        log := options.logger.entry .info (buildMessage degree records directory root) }

end Page

end SeriesCatalog
