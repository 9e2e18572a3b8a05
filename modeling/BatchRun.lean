import BatchRun.Archive.Basic
import BatchRun.Archive.Zip
import BatchRun.CommandLine.Arguments
import BatchRun.CommandLine.Environment
import BatchRun.CommandLine.Plan
import BatchRun.Connection
import BatchRun.Deflate.Bits
import BatchRun.Deflate.Code
import BatchRun.Deflate.Gzip
import BatchRun.Deflate.Inflate
import BatchRun.Digest.Crc32
import BatchRun.Digest.Sha256
import BatchRun.Files.Basic
import BatchRun.Files.Path
import BatchRun.Files.Tree
import BatchRun.Host
import BatchRun.Http.Error
import BatchRun.Http.Instant
import BatchRun.Http.Message
import BatchRun.Http.Signing
import BatchRun.Http.Wire
import BatchRun.Job
import BatchRun.Json.Basic
import BatchRun.Json.Reader
import BatchRun.Json.Token
import BatchRun.Json.Writer
import BatchRun.LineBuffer
import BatchRun.Logs.Cursor
import BatchRun.Logs.Destination
import BatchRun.Logs.Line
import BatchRun.Logs.Reader
import BatchRun.Machine.Disk
import BatchRun.Machine.Network
import BatchRun.Main
import BatchRun.ObjectUri
import BatchRun.Outcome
import BatchRun.PollTimer
import BatchRun.Rehearsal.Basic
import BatchRun.Rehearsal.Store
import BatchRun.Run.Attempt
import BatchRun.Run.Decoding
import BatchRun.Run.Parameters
import BatchRun.Run.State
import BatchRun.Service.Call
import BatchRun.Service.Failure
import BatchRun.Service.Listing
import BatchRun.Service.Object
import BatchRun.Service.Rest
import BatchRun.Session.Basic
import BatchRun.Session.Client
import BatchRun.Settings
import BatchRun.Span.Basic
import BatchRun.Span.Grammar
import BatchRun.Staging
import BatchRun.Submission
import BatchRun.Supervision
import BatchRun.Table
import BatchRun.Text.Blank
import BatchRun.Text.Percent
import BatchRun.Text.Split
import BatchRun.Text.Utf8
import BatchRun.Text.Whole
import BatchRun.Url.Basic
import BatchRun.Url.Domain
import BatchRun.Url.Host
import BatchRun.Url.Ip
import BatchRun.Url.Path
import BatchRun.Uuid
import BatchRun.Warning
import BatchRun.Workspace
import BatchRun.Xml.Basic
import BatchRun.Xml.Markup
import BatchRun.Xml.Reader
import BatchRun.Proofs.Archive.Contents
import BatchRun.Proofs.Archive.Names
import BatchRun.Proofs.Job.Alike
import BatchRun.Proofs.Job.CleanUp
import BatchRun.Proofs.Job.Leftovers
import BatchRun.Proofs.Job.Lifecycle
import BatchRun.Proofs.Logs.Batch
import BatchRun.Proofs.Logs.Delivery
import BatchRun.Proofs.Logs.Destination
import BatchRun.Proofs.Logs.Lockstep
import BatchRun.Proofs.Logs.Positions
import BatchRun.Proofs.Logs.Visits
import BatchRun.Proofs.ObjectUri.Reading
import BatchRun.Proofs.Service.Addressing
import BatchRun.Proofs.Service.Listing
import BatchRun.Proofs.Service.Throttled
import BatchRun.Proofs.Session.Quiet
import BatchRun.Proofs.Staging.Failure
import BatchRun.Proofs.Staging.Neighbours
import BatchRun.Proofs.Staging.Prepared
import BatchRun.Proofs.Store.Catalogue
import BatchRun.Proofs.Store.Twins
import BatchRun.Proofs.Submission
import BatchRun.Proofs.Supervision
import BatchRun.Proofs.Supervision.Backoff
import BatchRun.Proofs.Supervision.Cancellation
import BatchRun.Proofs.Supervision.Pages
import BatchRun.Proofs.Supervision.Throttling
import BatchRun.Proofs.Supervision.Transcript
import BatchRun.Proofs.Text.Order
import BatchRun.Proofs.ObjectUri.Coded
import BatchRun.Proofs.Run.Parameters
import BatchRun.Proofs.Url.Visible
import BatchRun.Proofs.Http.Sending
import BatchRun.Proofs.Http.Canonical
import BatchRun.Proofs.Http.Verifying
import BatchRun.Proofs.Span.Grammar
import BatchRun.Proofs.Connection
import BatchRun.Proofs.Url.Coded
import BatchRun.Proofs.Service.Routes
import BatchRun.Proofs.Json.Grammar
import BatchRun.Proofs.Json.Spelling
import BatchRun.Proofs.Json.Scanning
import BatchRun.Proofs.Json.Record
import BatchRun.Proofs.Run.Layout
import BatchRun.Proofs.Run.State
import BatchRun.Proofs.ObjectUri.Joining
import BatchRun.Proofs.Logs.Isolation
