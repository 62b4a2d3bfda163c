import ChipEight.Machine
import ChipEight.ProgressBar
import ChipEight.Proofs.Effect
import ChipEight.Proofs.Step
import ChipEight.Proofs.Encoding
import ChipEight.Proofs.Outcome
import ChipEight.Proofs.Run
import ChipEight.Proofs.CallStack
import ChipEight.Proofs.Lifo
import ChipEight.Proofs.Reachable
import ChipEight.Proofs.Loop
import ChipEight.Proofs.Verdict
import ChipEight.Proofs.Frame
import ChipEight.Proofs.HostCall
import ChipEight.Proofs.Stuck
import ChipEight.Proofs.Drawing
import ChipEight.Proofs.History
import ChipEight.Proofs.Subroutine
import ChipEight.Proofs.ProgramBounds
import ChipEight.Proofs.RandomKey
import ChipEight.Proofs.Timers
import ChipEight.Proofs.Blame
import ChipEight.Proofs.Assembly
import ChipEight.Proofs.Mnemonic
import ChipEight.Proofs.SoundTimer
import ChipEight.Proofs.Keypad
import ChipEight.Proofs.Threshold
import ChipEight.Proofs.Arithmetic
import ChipEight.Proofs.BlockTransfer
import ChipEight.Proofs.Footprint
import ChipEight.Proofs.Overlay
import ChipEight.Proofs.ControlFlow
import ChipEight.Proofs.Ticks
import ChipEight.Proofs.Dialects
import ChipEight.Proofs.Loading
import ChipEight.Proofs.Trace
import ChipEight.Proofs.Progress
import ChipEight.Proofs.LowBits
import ChipEight.Proofs.Rendering
import ChipEight.Proofs.Rates
import ChipEight.Proofs.Decoding
