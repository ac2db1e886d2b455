import PuzzleLevel.Main
import PuzzleLevel.Proofs.Build.Agreement
import PuzzleLevel.Proofs.Build.Progress
import PuzzleLevel.Proofs.Build.Rebuild
import PuzzleLevel.Proofs.CommandLine.Check
import PuzzleLevel.Proofs.Config.Search
import PuzzleLevel.Proofs.Discovery.Exactness
import PuzzleLevel.Proofs.Drawing.RoundTrip
import PuzzleLevel.Proofs.Editing
import PuzzleLevel.Proofs.Legend.Order
import PuzzleLevel.Proofs.Legend.Printing
import PuzzleLevel.Proofs.Occurrences.Exactness
import PuzzleLevel.Proofs.Release.Confinement
import PuzzleLevel.Proofs.Release.Written
import PuzzleLevel.Proofs.Source.Encoding
import PuzzleLevel.Proofs.Source.Sections
