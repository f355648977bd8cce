import Chip8.Main
import Chip8.Operation
import Chip8.Proofs.Halting
import Chip8.Proofs.Checked.Host
import Chip8.Proofs.History
import Chip8.Proofs.Presenting
import Chip8.Proofs.Noninterference
import Chip8.Proofs.Returning
import Chip8.Proofs.FaultRecord
import Chip8.Proofs.Decay
import Chip8.Proofs.Assembly
import Chip8.Proofs.Sessions
import Chip8.Proofs.Atomicity
import Chip8.Proofs.RandomStream
import Chip8.Proofs.Stepwise
import Chip8.Proofs.Debounce
import Chip8.Proofs.Disassembly
import Chip8.Proofs.Program
import Chip8.Proofs.Sprites
import Chip8.Proofs.Arithmetic
import Chip8.Proofs.Drawing
import Chip8.Proofs.Footprint
import Chip8.Proofs.ControlFlow
import Chip8.Proofs.Transfers
import Chip8.Proofs.Loading
import Chip8.Proofs.Overwriting
import Chip8.Proofs.CountedRuns
import Chip8.Proofs.BoundedStack
import Chip8.Proofs.Overlays
import Chip8.Proofs.Reports
import Chip8.Proofs.Pixels
import Chip8.Proofs.Dumps
import Chip8.Proofs.Names
import Chip8.Proofs.AtRest
