import Irez.Selection
import Irez.Analysts
import Irez.Fencing
import Irez.Generations
import Irez.ControlDependence
import Irez.Traversal
import Irez.Slice
import Irez.StoreRuns
import Irez.Encoding
import Irez.Outline
import Irez.Levels
import Irez.CallReports
import Irez.History
import Irez.Boundaries
import Irez.Uses
import Irez.Evidence
import Irez.Aggregates
import Irez.Projections
import Irez.StoreChannel
import Irez.Jsonc
import Irez.Install
import Irez.HostConfig
import Irez.Registration
import Irez.Cli
import Irez.Tools
import Irez.ExitCodes
import Irez.Listings
import Irez.CatalogFacts
import Irez.Basis.Calendar
import Irez.Timestamp
import Irez.Basis.Utf8
import Irez.Dump
import Irez.Backups
import Irez.Deletions
import Irez.Initialize
import Irez.Basis.Options
import Irez.Grammar
import Irez.CommandLine
import Irez.Slices
import Irez.Repeats
import Irez.Guards
import Irez.Recovery
import Irez.Provenance
