import StackMachine.CommandLine.Workspace
import StackMachine.Emitter
import StackMachine.Main
import StackMachine.WorkerPool.Interleaving
import StackMachine.Proofs.Machine.Atomicity
import StackMachine.Proofs.Machine.Memory
import StackMachine.Proofs.Machine.Execution
import StackMachine.Proofs.Machine.Configuration
import StackMachine.Proofs.Machine.Storage
import StackMachine.Proofs.Machine.Refinement
import StackMachine.Proofs.Machine.ControlFlow
import StackMachine.Proofs.Machine.Requests
import StackMachine.Proofs.Machine.Representation
import StackMachine.Proofs.Machine.Nesting
import StackMachine.Proofs.Verification.Boundaries
import StackMachine.Proofs.Image.Soundness
import StackMachine.Proofs.Assembly.TwoPass
import StackMachine.Proofs.Assembly.ListedLines
import StackMachine.Proofs.Assembly.Reassembly
import StackMachine.Proofs.Cbor.Reading
import StackMachine.Proofs.Cbor.Values
import StackMachine.Proofs.Image.RoundTrip
import StackMachine.Proofs.Machine.Observation
import StackMachine.Proofs.Machine.Narrowness
import StackMachine.Proofs.Machine.Independence
import StackMachine.Proofs.Machine.Capacity
import StackMachine.Proofs.Image.Footprint
import StackMachine.Proofs.Service.Admission
import StackMachine.Proofs.RunStore.Session
import StackMachine.Proofs.Text.ByteOrder
import StackMachine.Proofs.RunStore.Listing
import StackMachine.Proofs.Cbor.Limits
import StackMachine.Proofs.Image.Limits
import StackMachine.Proofs.RunStore.Addressing
import StackMachine.Proofs.Service.Recording
import StackMachine.Proofs.WorkerPool.Accounting
import StackMachine.Proofs.WorkerPool.Safety
import StackMachine.Proofs.WorkerPool.Waiting
import StackMachine.Proofs.Success
import StackMachine.Proofs.FunctionTable.Numbering
import StackMachine.Proofs.Machine.Tracing
import StackMachine.Proofs.CommandLine.Diagnostics
import StackMachine.Proofs.Verification.Reading
import StackMachine.Proofs.Verification.Exactness
import StackMachine.Proofs.Verification.Alarms
import StackMachine.Proofs.Assembly.Decodability
import StackMachine.Proofs.Manifest.Resolution
import StackMachine.Proofs.Manifest.Relinking
import StackMachine.Proofs.Machine.Expressions
import StackMachine.Proofs.Machine.Enlargement
import StackMachine.Proofs.Machine.Passes
import StackMachine.Proofs.Service.Truncation
import StackMachine.Proofs.Machine.Calls
import StackMachine.Proofs.Machine.Metadata
import StackMachine.Proofs.Machine.FrameSize
import StackMachine.Proofs.Machine.Statistics
import StackMachine.Proofs.Listing.Coverage
import StackMachine.Proofs.Assembly.Layout
import StackMachine.Proofs.Selection
import StackMachine.Proofs.Image.Saturation
