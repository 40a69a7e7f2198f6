import ChipEight.Main
import ChipEight.Proofs.Addresses
import ChipEight.Proofs.Cadence.Play
import ChipEight.Proofs.Calls
import ChipEight.Proofs.Dirty
import ChipEight.Proofs.Failure
import ChipEight.Proofs.Restart
import ChipEight.Proofs.Safety
import ChipEight.Proofs.Waiting
import ChipEight.Proofs.Frame
import ChipEight.Proofs.Overlay
import ChipEight.Proofs.Congruence
import ChipEight.Proofs.Conservative
import ChipEight.Proofs.Tally
import ChipEight.Proofs.Stream
import ChipEight.Proofs.Gate
import ChipEight.Proofs.Sprite
import ChipEight.Proofs.Records
import ChipEight.Proofs.Arithmetic
import ChipEight.Proofs.Successor
import ChipEight.Proofs.Digits
import ChipEight.Proofs.Image
import ChipEight.Proofs.Layout
import ChipEight.Proofs.CommandLine.Reading
import ChipEight.Proofs.Clock.Runs
import ChipEight.Proofs.Archive.Extraction
import ChipEight.Proofs.Lines
import ChipEight.Proofs.Reports
