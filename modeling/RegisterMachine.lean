import RegisterMachine.Inspect
import RegisterMachine.Computer
import RegisterMachine.Proofs.SignedComparison
import RegisterMachine.Proofs.Stepping
import RegisterMachine.Proofs.CleanFailure
import RegisterMachine.Proofs.Exit
import RegisterMachine.Proofs.Memory.Routing
import RegisterMachine.Proofs.Assembly.Operands
import RegisterMachine.Proofs.Assembly.Items
import RegisterMachine.Proofs.Assembly.Backpatch
import RegisterMachine.Proofs.Assembly.Agreement
import RegisterMachine.Proofs.Assembly.TwoPass
import RegisterMachine.Proofs.Numerals
import RegisterMachine.Proofs.Assembly.Listing
import RegisterMachine.Proofs.Assembly.Invocation
import RegisterMachine.Proofs.Assembly.Renumbering
import RegisterMachine.Proofs.FreshStart
import RegisterMachine.Proofs.StepFaults
import RegisterMachine.Proofs.Assembly.Fragments
import RegisterMachine.Proofs.Assembly.LabelTargets
import RegisterMachine.Proofs.Frame
import RegisterMachine.Proofs.CallStack
import RegisterMachine.Proofs.RejectedSources
import RegisterMachine.Proofs.Memory.Reentry
import RegisterMachine.Proofs.Assembly.Spacing
import RegisterMachine.Proofs.Assembly.Headers
import RegisterMachine.Proofs.Memory.Admission
import RegisterMachine.Proofs.Assembly.Substitution
import RegisterMachine.Proofs.Assembly.Unrolling
import RegisterMachine.Proofs.Memory.Handles
import RegisterMachine.Proofs.Control
import RegisterMachine.Proofs.Footprint
import RegisterMachine.Proofs.Assembly.Grammar
import RegisterMachine.Proofs.Arithmetic
import RegisterMachine.Proofs.Literals
import RegisterMachine.Proofs.Assembly.Course
import RegisterMachine.Proofs.Assembly.Bookkeeping
import RegisterMachine.Proofs.Assembly.MacroBodies
import RegisterMachine.Proofs.Assembly.ErrorLines
import RegisterMachine.Proofs.Assembly.LabelNames
import RegisterMachine.Proofs.Text.LowerCase
import RegisterMachine.Proofs.Assembly.MacroCalls
import RegisterMachine.Proofs.Assembly.MacroChains
import RegisterMachine.Proofs.ForwardPrograms
import RegisterMachine.Proofs.Countdown
import RegisterMachine.Proofs.Actions
import RegisterMachine.Proofs.Memory.Registry
import RegisterMachine.Proofs.Transcript
import RegisterMachine.Proofs.StatusHistory
