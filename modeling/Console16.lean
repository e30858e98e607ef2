import Console16.Asm.Assemble
import Console16.Cli.World
import Console16.Device.Framebuffer
import Console16.Machine.Batch
import Console16.Main
import Console16.Proofs.Asm.Printing
import Console16.Proofs.Machine.Execution
import Console16.Proofs.Machine.Stack
import Console16.Proofs.Machine.Strictness
import Console16.Proofs.Machine.Pacing
import Console16.Proofs.Asm.Blame
import Console16.Proofs.Asm.Report
import Console16.Proofs.Source.Location
import Console16.Proofs.Asm.Diagnostics
import Console16.Proofs.Source.Scanning
import Console16.Proofs.Source.Tokenizing
import Console16.Proofs.Source.Shift
import Console16.Proofs.Asm.Concat
import Console16.Proofs.Asm.Spelling
import Console16.Proofs.Asm.Renaming
import Console16.Proofs.Machine.Session
import Console16.Proofs.Machine.Invariants
import Console16.Proofs.Machine.Comparison
import Console16.Proofs.Machine.Halting
import Console16.Proofs.Machine.Isolation
import Console16.Proofs.Machine.Arithmetic
import Console16.Proofs.Machine.LastWrites
import Console16.Proofs.Machine.Lifo
import Console16.Proofs.Machine.Frame
import Console16.Proofs.Machine.Timer
import Console16.Proofs.Machine.Budget
import Console16.Proofs.Isa.Encoding
import Console16.Proofs.Asm.Emission
import Console16.Proofs.Asm.Linking
import Console16.Proofs.Asm.Literal
import Console16.Proofs.Asm.FirstInsertions
import Console16.Proofs.Device.Inputs
import Console16.Proofs.Device.Picture
import Console16.Proofs.Machine.Draws
import Console16.Proofs.Asm.LastLine
import Console16.Proofs.Cli.CompiledRun
import Console16.Proofs.Cli.Verdict
import Console16.Proofs.Config.SettingsHistory
import Console16.Proofs.Config.FeatureList
