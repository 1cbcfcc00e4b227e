import CacheUsage.Levels.Json
import CacheUsage.Proofs.Bounds
import CacheUsage.Proofs.Bytes
import CacheUsage.Proofs.Calls
import CacheUsage.Proofs.Coverage
import CacheUsage.Proofs.Decomposition
import CacheUsage.Proofs.Defaults
import CacheUsage.Proofs.Effects
import CacheUsage.Proofs.Forgetting
import CacheUsage.Proofs.InFull
import CacheUsage.Proofs.Inclusion
import CacheUsage.Proofs.Independence
import CacheUsage.Proofs.Indexing
import CacheUsage.Proofs.Interchange
import CacheUsage.Proofs.Json.Decimal
import CacheUsage.Proofs.Json.Object
import CacheUsage.Proofs.LastLevel
import CacheUsage.Proofs.Layout
import CacheUsage.Proofs.Lines
import CacheUsage.Proofs.Logging
import CacheUsage.Proofs.Lookup
import CacheUsage.Proofs.Marking
import CacheUsage.Proofs.Operations
import CacheUsage.Proofs.Passage
import CacheUsage.Proofs.Phases
import CacheUsage.Proofs.Placement
import CacheUsage.Proofs.Promotion
import CacheUsage.Proofs.Recency
import CacheUsage.Proofs.Recount
import CacheUsage.Proofs.Refinement
import CacheUsage.Proofs.Refusal
import CacheUsage.Proofs.Repetition
import CacheUsage.Proofs.Replacement
import CacheUsage.Proofs.Residency
import CacheUsage.Proofs.Rotation
import CacheUsage.Proofs.Run
import CacheUsage.Proofs.Serving
import CacheUsage.Proofs.SingleLine
import CacheUsage.Proofs.SoundGeometry
import CacheUsage.Proofs.Split
import CacheUsage.Proofs.Start
import CacheUsage.Proofs.Straddling
import CacheUsage.Proofs.Tally
import CacheUsage.Proofs.Translation
import CacheUsage.Proofs.TrueLru
import CacheUsage.Proofs.Visit
import CacheUsage.Proofs.WellFormed
import CacheUsage.Reference.Json
import CacheUsage.Simulation
import CacheUsage.Stats.Report
