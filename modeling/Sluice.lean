import Sluice.ByteSource
import Sluice.CommandLine.Option
import Sluice.CommandLine.Program
import Sluice.CommandLine.Scan
import Sluice.CommandLine.Settings
import Sluice.Config.Address
import Sluice.Config.DatabaseConfig
import Sluice.Config.Fault
import Sluice.Config.LoadConfig
import Sluice.Config.QueueConfig
import Sluice.Database.Client
import Sluice.Database.Printing
import Sluice.Database.Scripted
import Sluice.DeadLetters
import Sluice.Delimited.Capture
import Sluice.Delimited.Encoder
import Sluice.Delimited.Record
import Sluice.Delimited.RecordReader
import Sluice.Delimited.Tokenizer
import Sluice.Delimited.Writer
import Sluice.Failure
import Sluice.Gate
import Sluice.Loader.Basic
import Sluice.Loader.Waiting
import Sluice.Main
import Sluice.MessageStream
import Sluice.Pipeline.Basic
import Sluice.Pipeline.Loading
import Sluice.Pipeline.Outcome
import Sluice.Pipeline.Run
import Sluice.Proofs.Answered
import Sluice.Proofs.Chunks
import Sluice.Proofs.CommandLine.Replays
import Sluice.Proofs.CommandLine.RoundTrip
import Sluice.Proofs.Config.Address
import Sluice.Proofs.Database.Printing
import Sluice.Proofs.DeadLetters
import Sluice.Proofs.Delimited.Ahead
import Sluice.Proofs.Delimited.Captured
import Sluice.Proofs.Delimited.Course
import Sluice.Proofs.Delimited.Filling
import Sluice.Proofs.Delimited.OwnText
import Sluice.Proofs.Delimited.RoundTrip
import Sluice.Proofs.Delimited.Scanner
import Sluice.Proofs.Frame
import Sluice.Proofs.Gate.Race
import Sluice.Proofs.Image
import Sluice.Proofs.Loader.Answers
import Sluice.Proofs.Loader.Arrivals
import Sluice.Proofs.Loader.Balance
import Sluice.Proofs.Loader.Batches
import Sluice.Proofs.Loader.Halting
import Sluice.Proofs.Loader.Heard
import Sluice.Proofs.Loader.Inline
import Sluice.Proofs.Loader.Ledger
import Sluice.Proofs.Loader.Midway
import Sluice.Proofs.Loader.Operations
import Sluice.Proofs.Loader.Printed
import Sluice.Proofs.Loader.Recorded
import Sluice.Proofs.Loader.Signal
import Sluice.Proofs.Loader.Waits
import Sluice.Proofs.Loader.Ways
import Sluice.Proofs.Pipeline.Accounts
import Sluice.Proofs.Pipeline.CoarseSteps
import Sluice.Proofs.Pipeline.Failing
import Sluice.Proofs.Pipeline.Fatal
import Sluice.Proofs.Pipeline.FlushTimes
import Sluice.Proofs.Pipeline.Lossless
import Sluice.Proofs.Pipeline.Messages
import Sluice.Proofs.Pipeline.Order
import Sluice.Proofs.Pipeline.Policies
import Sluice.Proofs.Pipeline.Printed
import Sluice.Proofs.Pipeline.Reading
import Sluice.Proofs.Pipeline.Replayed
import Sluice.Proofs.Pipeline.RowAccount
import Sluice.Proofs.Pipeline.RowsSent
import Sluice.Proofs.Pipeline.Runs
import Sluice.Proofs.Pipeline.TimedSteps
import Sluice.Proofs.Pipeline.Trips
import Sluice.Proofs.Queue.Lines
import Sluice.Proofs.Queue.Uri
import Sluice.Proofs.Queue.WrittenLines
import Sluice.Proofs.Rows.Breaking
import Sluice.Proofs.Rows.CutShort
import Sluice.Proofs.Rows.Cuts
import Sluice.Proofs.Rows.Emission
import Sluice.Proofs.Rows.Faultless
import Sluice.Proofs.Rows.GoodRecords
import Sluice.Proofs.Rows.OfText
import Sluice.Proofs.Rows.OwnLines
import Sluice.Proofs.Rows.Pieces
import Sluice.Proofs.Rows.Ragged
import Sluice.Proofs.Rows.ReadLoop
import Sluice.Proofs.Rows.Replies
import Sluice.Proofs.Rows.Requests
import Sluice.Proofs.Rows.Stopping
import Sluice.Proofs.Rows.Tally
import Sluice.Proofs.Rows.Written
import Sluice.Proofs.Rows.Yields
import Sluice.Proofs.Stream.Acknowledgement
import Sluice.Proofs.Stream.Ending
import Sluice.Proofs.Stream.Halted
import Sluice.Proofs.Stream.JoinedText
import Sluice.Proofs.Stream.Lifecycle
import Sluice.Proofs.Stream.Observed
import Sluice.Proofs.Stream.Reads
import Sluice.Proofs.Stream.Recorded
import Sluice.Proofs.Stream.Release
import Sluice.Proofs.Stream.Serving
import Sluice.Proofs.Stream.Ways
import Sluice.Proofs.Unfailing
import Sluice.Queue.Consumer
import Sluice.Queue.Flaky
import Sluice.Queue.Replay
import Sluice.Queue.Unopened
import Sluice.Queue.Uri
import Sluice.Row
import Sluice.RowReader
import Sluice.Status
import Sluice.Target
import Sluice.Text.Blank
import Sluice.Text.Numeral
import Sluice.Text.Utf8
