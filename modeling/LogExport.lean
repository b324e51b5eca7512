import LogExport.Json.Reader
import LogExport.Config.Place
import LogExport.Config.Read
import LogExport.Files.Content
import LogExport.Files.Gzip
import LogExport.Files.Objects
import LogExport.Main
import LogExport.Search.Limiter
import LogExport.Proofs.Text.Decimal
import LogExport.Proofs.Text.Utf8
import LogExport.Proofs.Time.Calendar
import LogExport.Proofs.Time.StampText
import LogExport.Proofs.Json.RoundTrip
import LogExport.Proofs.Session.Codec
import LogExport.Proofs.Store.KeyRange
import LogExport.Proofs.Store.Records
import LogExport.Proofs.Store.Access
import LogExport.Proofs.Store.Memory
import LogExport.Proofs.Session.Shelf
import LogExport.Proofs.Pipeline.Steps
import LogExport.Proofs.Partition.Bounds
import LogExport.Proofs.Service.Runs
import LogExport.Proofs.Service.Lock
import LogExport.Proofs.Service.Site
import LogExport.Proofs.Session.Names
import LogExport.Proofs.Service.Identity
import LogExport.Proofs.Pipeline.Progress
import LogExport.Proofs.Service.Account
import LogExport.Proofs.Service.Completion
import LogExport.Proofs.Pipeline.Ownership
import LogExport.Proofs.Partition.Count
import LogExport.Proofs.Pipeline.Undisturbed
import LogExport.Proofs.Service.Coverage
import LogExport.Proofs.Service.Finishing
import LogExport.Proofs.Session.Serving
import LogExport.Proofs.Session.Turns
import LogExport.Proofs.Session.Lifecycle
import LogExport.Proofs.Session.Accounting
import LogExport.Proofs.Pipeline.Strides
import LogExport.Proofs.Pipeline.Attended
import LogExport.Proofs.Service.Calm
import LogExport.Proofs.Service.Release
import LogExport.Proofs.Files.Keys
import LogExport.Proofs.Session.Paths
import LogExport.Proofs.Search.Archive
import LogExport.Proofs.Session.Ledger
import LogExport.Proofs.Pipeline.Faithful
import LogExport.Proofs.Pipeline.Descent
import LogExport.Proofs.Service.Creation
import LogExport.Proofs.Service.Lives
import LogExport.Proofs.Service.Resumption
import LogExport.Proofs.Session.Frame
import LogExport.Proofs.Service.Atomicity
import LogExport.Proofs.Pipeline.Turnover
import LogExport.Proofs.Service.Draining
import LogExport.Proofs.Service.SoftCancel
import LogExport.Proofs.Json.OneLine
import LogExport.Proofs.Search.Reading
import LogExport.Proofs.Session.ReadBack
import LogExport.Proofs.Session.Keys
import LogExport.Proofs.Session.Listing
import LogExport.Proofs.Session.Resuming
import LogExport.Proofs.Partition.Rounding
import LogExport.Proofs.Partition.EvenCuts
import LogExport.Proofs.Partition.RoundingLaws
import LogExport.Proofs.Partition.Slices
import LogExport.Proofs.Service.Alignment
import LogExport.Proofs.Service.Starting
import LogExport.Proofs.Service.Origins
import LogExport.Proofs.Service.Outputs
import LogExport.Proofs.Files.Links
import LogExport.Proofs.Service.Links
import LogExport.Proofs.Service.Manifest
import LogExport.Proofs.Search.Pacing
import LogExport.Proofs.Search.Backoff
import LogExport.Proofs.Service.Outsiders
import LogExport.Proofs.Pipeline.Bookings
import LogExport.Proofs.Service.Audit
