import TimingChart.Bench.Load
import TimingChart.Bench.Selection
import TimingChart.Bench.Session
import TimingChart.Binary64.Log
import TimingChart.Chart.Series
import TimingChart.Chart.Summary
import TimingChart.Chart.SvgReader
import TimingChart.CommandLine.Config
import TimingChart.Csv.Reader
import TimingChart.Decimal.Format
import TimingChart.Decimal.Reading
import TimingChart.Main
import TimingChart.Proofs.Bench.Columns
import TimingChart.Proofs.Bench.Loading
import TimingChart.Proofs.Bench.RoundTrip
import TimingChart.Proofs.Binary64.Rounding
import TimingChart.Proofs.Chart.Lines
import TimingChart.Proofs.Chart.MaximalRuns
import TimingChart.Proofs.Chart.ReadBack
import TimingChart.Proofs.Chart.Tags
import TimingChart.Proofs.Chart.Values
import TimingChart.Proofs.Csv.Splitting
import TimingChart.Proofs.Csv.Writing
import TimingChart.Proofs.Decimal.ReadBack
import TimingChart.Proofs.Text.Trimming
import TimingChart.Text.Blank
import TimingChart.Text.Quoted
import TimingChart.Text.Utf8
import TimingChart.Proofs.Bench.Appending
import TimingChart.Proofs.Bench.Sessions
import TimingChart.Proofs.CommandLine.Reading
import TimingChart.Proofs.Files.Changes
import TimingChart.Proofs.Files.Paths
import TimingChart.Proofs.Run.Endings
import TimingChart.Proofs.Run.Files
import TimingChart.Proofs.CommandLine.Accepting
import TimingChart.Proofs.CommandLine.Configuring
import TimingChart.Proofs.Bench.RejectedLines
import TimingChart.Proofs.Chart.Appearance
import TimingChart.Proofs.Chart.Ranges
import TimingChart.Proofs.Run.Prompting
import TimingChart.Proofs.Run.Prompts
import TimingChart.Proofs.Run.ChartNames
import TimingChart.Proofs.Chart.Caption
import TimingChart.Proofs.Bench.Headings
import TimingChart.Proofs.Files.Opening
import TimingChart.Proofs.Run.ReadFailures
import TimingChart.Proofs.Binary64.Whole
import TimingChart.Proofs.Chart.Placement
import TimingChart.Proofs.Chart.Vertices
import TimingChart.Proofs.Bench.Selecting
import TimingChart.Proofs.Bench.Cells
import TimingChart.Proofs.Binary64.Nearest
import TimingChart.Proofs.Binary64.Errors
import TimingChart.Proofs.Decimal.WholeText
import TimingChart.Proofs.Decimal.Doubles
import TimingChart.Proofs.Chart.Timings
import TimingChart.Proofs.Chart.TickLabels
import TimingChart.Proofs.Text.Decoding
import TimingChart.Proofs.Bench.UnfitFields
import TimingChart.Proofs.Chart.Extremes
import TimingChart.Proofs.Decimal.ShortestText
import TimingChart.Proofs.Decimal.WholeNumbers
