import RoutineSync.Main
import RoutineSync.Wire.Message
import RoutineSync.Proofs.Session.Agreement
import RoutineSync.Proofs.History.Snapshots
import RoutineSync.Proofs.Routine.Events
import RoutineSync.Proofs.Session.Taking
import RoutineSync.Proofs.Session.Answers
import RoutineSync.Proofs.Session.Mirror
import RoutineSync.Proofs.Session.Exchange
import RoutineSync.Proofs.Call.Arguments
import RoutineSync.Proofs.Sync.Writable
import RoutineSync.Proofs.Session.Refusals
import RoutineSync.Proofs.Session.Selected
import RoutineSync.Proofs.Call.Lines
import RoutineSync.Proofs.Call.Sources
import RoutineSync.Proofs.Session.Recall
import RoutineSync.Proofs.Sync.ReadBack
import RoutineSync.Proofs.Sync.Document
import RoutineSync.Proofs.Call.Language
import RoutineSync.Proofs.Session.Untouched
import RoutineSync.Proofs.Session.Insertions
import RoutineSync.Proofs.Checked.Session
import RoutineSync.Proofs.Routine.EventLog
import RoutineSync.Proofs.Sync.Foreign
import RoutineSync.Proofs.Scan.Report
import RoutineSync.Proofs.Call.Inverse
import RoutineSync.Proofs.Sync.InPlace
import RoutineSync.Proofs.Sync.LiteralChange
import RoutineSync.Proofs.History.Uses
import RoutineSync.Proofs.History.Likeness
import RoutineSync.Proofs.Action.Table
import RoutineSync.Proofs.Sync.Ropes
import RoutineSync.Proofs.Call.Regular
import RoutineSync.Proofs.Text.Bytes
import RoutineSync.Proofs.Wire.RoundTrip
import RoutineSync.Proofs.Terminal.Runs
import RoutineSync.Proofs.Session.Legible
