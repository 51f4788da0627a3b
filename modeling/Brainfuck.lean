import Brainfuck.Block.Eval
import Brainfuck.CommandLine
import Brainfuck.FileTree
import Brainfuck.Main
import Brainfuck.Proofs.Output
import Brainfuck.Proofs.Scan
import Brainfuck.Proofs.Run
import Brainfuck.Proofs.Session
import Brainfuck.Proofs.Conservation
import Brainfuck.Proofs.IdealOutput
import Brainfuck.Proofs.Comments
import Brainfuck.Proofs.Meaning
import Brainfuck.Proofs.Frame
import Brainfuck.Proofs.Checked
import Brainfuck.Proofs.Safety
import Brainfuck.Proofs.Awaiting
import Brainfuck.Proofs.WithoutCancels
import Brainfuck.Proofs.Cancellation
import Brainfuck.Proofs.Pairs
import Brainfuck.Proofs.Loops
import Brainfuck.Proofs.Sequence
import Brainfuck.Proofs.Mirror
import Brainfuck.Proofs.WithoutFailures
import Brainfuck.Proofs.Input
import Brainfuck.Proofs.Partners
import Brainfuck.Proofs.Invocation
import Brainfuck.Proofs.Quiet
import Brainfuck.Proofs.Unhindered
import Brainfuck.Proofs.Lines
import Brainfuck.Proofs.Assignments
import Brainfuck.Proofs.Layers
import Brainfuck.Proofs.ExitCode
import Brainfuck.Proofs.Pairing
import Brainfuck.Proofs.Excerpt
import Brainfuck.Proofs.Caret
import Brainfuck.Proofs.Slices
import Brainfuck.Proofs.RefusedValues
import Brainfuck.Proofs.TapeSizes
import Brainfuck.Proofs.TapeHistory
