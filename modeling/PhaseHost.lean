import PhaseHost.Arguments
import PhaseHost.Bridge
import PhaseHost.Capability
import PhaseHost.Client.Answer
import PhaseHost.Client.Basic
import PhaseHost.Decimal.Layout
import PhaseHost.Decimal.Shortest
import PhaseHost.Digest.Sha256
import PhaseHost.Disk.Basic
import PhaseHost.Disk.Node
import PhaseHost.Disk.Path
import PhaseHost.Fetch.Basic
import PhaseHost.Fetch.Location
import PhaseHost.Fetch.Status
import PhaseHost.Guest.Basic
import PhaseHost.Guest.Image
import PhaseHost.Guest.Log
import PhaseHost.Guest.Memory
import PhaseHost.Guest.Program
import PhaseHost.Host.Basic
import PhaseHost.Host.Failure
import PhaseHost.Json.Basic
import PhaseHost.Json.Decode
import PhaseHost.Json.Fault
import PhaseHost.Json.Number
import PhaseHost.Json.Printer
import PhaseHost.Json.Reader
import PhaseHost.Json.Record
import PhaseHost.Loader.Basic
import PhaseHost.Loader.Fault
import PhaseHost.Main
import PhaseHost.Phase.Basic
import PhaseHost.Play.Basic
import PhaseHost.Play.Script
import PhaseHost.Play.StandIn
import PhaseHost.Premises
import PhaseHost.Proofs.Entries
import PhaseHost.Proofs.Host.Account
import PhaseHost.Proofs.Host.Follow
import PhaseHost.Proofs.Host.Judgement
import PhaseHost.Proofs.Host.Moves
import PhaseHost.Proofs.Loader.Attempts
import PhaseHost.Proofs.Loader.Flight
import PhaseHost.Proofs.Phase.Moves
import PhaseHost.Proofs.Phase.Slots
import PhaseHost.Proofs.Phase.Wanted
import PhaseHost.Proofs.Trail
import PhaseHost.Readiness
import PhaseHost.Session
import PhaseHost.Settings
import PhaseHost.Store.Basic
import PhaseHost.Store.Document
import PhaseHost.Store.Memory
import PhaseHost.Store.Table
import PhaseHost.Text.Blank
import PhaseHost.Text.Hex
import PhaseHost.Text.Printable
import PhaseHost.Text.Quoted
import PhaseHost.Text.Utf8
import PhaseHost.Url.Basic
import PhaseHost.Url.Host
import PhaseHost.Url.Percent
import PhaseHost.Url.Punycode
import PhaseHost.Variant.Basic
import PhaseHost.Variant.Location
import PhaseHost.Wire.Code
import PhaseHost.Wire.Diagnostic
import PhaseHost.Wire.Frame
import PhaseHost.Wire.Overlay
import PhaseHost.Wire.Payload
import PhaseHost.Wire.Reply
import PhaseHost.Workspace
import PhaseHost.Proofs.Client.Moves
import PhaseHost.Proofs.Client.Table
import PhaseHost.Proofs.Client.Calls
import PhaseHost.Proofs.Client.Numbers
import PhaseHost.Proofs.Client.Ledger
import PhaseHost.Proofs.Client.Answers
import PhaseHost.Proofs.Client.Closing
import PhaseHost.Proofs.Json.Records
import PhaseHost.Proofs.Wire.ReadBack
import PhaseHost.Proofs.Host.Origins
import PhaseHost.Proofs.Session.Sides
import PhaseHost.Proofs.Session.Correlation
import PhaseHost.Proofs.Disk.Directories
import PhaseHost.Proofs.Store.Shelf
import PhaseHost.Proofs.Store.Filing
import PhaseHost.Proofs.Store.Retention
import PhaseHost.Proofs.Store.Tampering
import PhaseHost.Proofs.Json.Acceptance
import PhaseHost.Proofs.Wire.NormalForm
import PhaseHost.Proofs.Loader.Balance
import PhaseHost.Proofs.Phase.OneVersion
import PhaseHost.Proofs.Wire.Grammar
import PhaseHost.Proofs.Host.Promises
import PhaseHost.Proofs.Play.Rest
import PhaseHost.Proofs.Store.Inventory
import PhaseHost.Proofs.Loader.Provenance
import PhaseHost.Proofs.Loader.Supply
import PhaseHost.Proofs.Phase.Links
import PhaseHost.Proofs.Phase.Latest
import PhaseHost.Proofs.Phase.Superseded
import PhaseHost.Proofs.Host.Grants
import PhaseHost.Proofs.Host.Setbacks
import PhaseHost.Proofs.Client.Hearing
import PhaseHost.Proofs.Loader.Alone
import PhaseHost.Proofs.Workspace.Paths
import PhaseHost.Proofs.Workspace.Edits
import PhaseHost.Proofs.Workspace.History
import PhaseHost.Proofs.Client.Exchange
import PhaseHost.Proofs.Workspace.Reports
import PhaseHost.Proofs.Guest.Memory
import PhaseHost.Proofs.Guest.Bounds
import PhaseHost.Proofs.Text.Utf8
import PhaseHost.Proofs.Json.Numerals
import PhaseHost.Proofs.Json.Strings
import PhaseHost.Proofs.Json.Syntax
import PhaseHost.Proofs.Json.Lists
import PhaseHost.Proofs.Json.Documents
import PhaseHost.Proofs.Json.Printed
import PhaseHost.Proofs.Guest.Documents
import PhaseHost.Proofs.Session.Symbols
import PhaseHost.Proofs.Settings.Limits
import PhaseHost.Proofs.Json.Spellings
import PhaseHost.Proofs.Wire.Spellings
import PhaseHost.Proofs.Json.Forms
import PhaseHost.Proofs.Json.Skipping
import PhaseHost.Proofs.Json.Offers
import PhaseHost.Proofs.Wire.Diagnostics
import PhaseHost.Proofs.Decimal.Shortest
import PhaseHost.Proofs.Json.Written
import PhaseHost.Proofs.Bridge.Frames
import PhaseHost.Proofs.Bridge.Lines
import PhaseHost.Proofs.Variant.Readers
