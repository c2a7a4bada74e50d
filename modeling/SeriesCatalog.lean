import SeriesCatalog.Index.Build
import SeriesCatalog.Index.Listing
import SeriesCatalog.Index.Walk
import SeriesCatalog.PageKind.Codec
import SeriesCatalog.Shelf
import SeriesCatalog.Proofs.Except
import SeriesCatalog.Proofs.KindRows
import SeriesCatalog.Proofs.Scan
import SeriesCatalog.Proofs.Grammar
import SeriesCatalog.Proofs.Equality
import SeriesCatalog.Proofs.Sharing
import SeriesCatalog.Proofs.Search
import SeriesCatalog.Proofs.Chunks
import SeriesCatalog.Proofs.Tree
import SeriesCatalog.Proofs.Filing
import SeriesCatalog.Proofs.Levels
import SeriesCatalog.Proofs.Ordered
import SeriesCatalog.Proofs.Steps
import SeriesCatalog.Proofs.Construction
import SeriesCatalog.Proofs.Contents
import SeriesCatalog.Proofs.Faults
import SeriesCatalog.Proofs.Lookup
import SeriesCatalog.Proofs.Layout
import SeriesCatalog.Proofs.Trails
import SeriesCatalog.Proofs.Limits
import SeriesCatalog.Proofs.Listing
import SeriesCatalog.Proofs.Readers
import SeriesCatalog.Proofs.Parsed
import SeriesCatalog.Proofs.Conversion
import SeriesCatalog.Proofs.ReadSeries
import SeriesCatalog.Proofs.Modes
import SeriesCatalog.Proofs.Forms
import SeriesCatalog.Proofs.Stripped
import SeriesCatalog.Proofs.Reread
import SeriesCatalog.Proofs.RecordOrder
import SeriesCatalog.Proofs.Depth
import SeriesCatalog.Proofs.PageCount
import SeriesCatalog.Proofs.SearchTree
import SeriesCatalog.Proofs.LeftmostFault
import SeriesCatalog.Proofs.Reading
import SeriesCatalog.Proofs.Visits
import SeriesCatalog.Proofs.Cuts
import SeriesCatalog.Proofs.Pairs
import SeriesCatalog.Proofs.Written
import SeriesCatalog.Proofs.Offences
import SeriesCatalog.Proofs.GivenNodes
import SeriesCatalog.Proofs.Rendering
import SeriesCatalog.Proofs.Offsets
import SeriesCatalog.Proofs.Sorting
import SeriesCatalog.Proofs.Hashing
import SeriesCatalog.Proofs.Bisection
