import WasmEngine.Float.Machine
import WasmEngine.Host.Script
import WasmEngine.Instance
import WasmEngine.Module.Decode
import WasmEngine.Options.Json
import WasmEngine.Proofs.Bounded
import WasmEngine.Proofs.Structured
import WasmEngine.Proofs.Typing.Code
import WasmEngine.Proofs.Interpreter.Until
import WasmEngine.Proofs.Meets
import WasmEngine.Proofs.Structured.Sound
import WasmEngine.Proofs.Interpreter.Place
import WasmEngine.Proofs.Interpreter.Simulation
import WasmEngine.Proofs.Module.Checked
import WasmEngine.Proofs.Interpreter.Body
import WasmEngine.Proofs.Compiled.Chain
import WasmEngine.Proofs.Compiled.Emission
import WasmEngine.Proofs.Mirrors
import WasmEngine.Proofs.Compiled.Instructions
import WasmEngine.Proofs.Compiled.Frames
import WasmEngine.Proofs.Compiled.Simulation
import WasmEngine.Proofs.Memory.History
import WasmEngine.Proofs.Keeps
import WasmEngine.Proofs.Store
import WasmEngine.Proofs.Instance.Operation
import WasmEngine.Proofs.Instance.StartOver
import WasmEngine.Proofs.Calls.Moment
import WasmEngine.Proofs.Calls.Watch
import WasmEngine.Proofs.Calls.Balance
import WasmEngine.Proofs.Instance.CallDepth
import WasmEngine.Proofs.Compiled.Code
import WasmEngine.Proofs.Module.Decode
import WasmEngine.Proofs.Runtime
import WasmEngine.Proofs.Interpreter.Shown
import WasmEngine.Proofs.Instance.Course
import WasmEngine.Proofs.Store.Supply
import WasmEngine.Proofs.Instance.Ready
import WasmEngine.Proofs.Instance.Recording
import WasmEngine.Proofs.Instance.Strategies
import WasmEngine.Proofs.Instance.Soundness
import WasmEngine.Proofs.Float.Pattern
import WasmEngine.Proofs.Float.Pack
import WasmEngine.Proofs.Float.Nan
import WasmEngine.Proofs.Float.Value
import WasmEngine.Proofs.Float.Exact
import WasmEngine.Proofs.Float.Closest
import WasmEngine.Proofs.Float.Rounding
import WasmEngine.Proofs.Float.ExtraBits
import WasmEngine.Proofs.Float.Arithmetic
import WasmEngine.Proofs.Float.Integral
import WasmEngine.Proofs.Float.Conversion
import WasmEngine.Proofs.Float.Hard
import WasmEngine.Proofs.Float.Results
import WasmEngine.Proofs.Instance.Lifecycle
import WasmEngine.Proofs.Compiled.Shown
import WasmEngine.Proofs.Instance.Ceiling
import WasmEngine.Proofs.Calls.CutShort
import WasmEngine.Proofs.Calls.Typed
import WasmEngine.Proofs.Numeric.Narrow
import WasmEngine.Proofs.Instance.ZeroExtension
import WasmEngine.Proofs.Float.Products
import WasmEngine.Proofs.Float.IntoFloats
import WasmEngine.Proofs.Float.ToIntegers
import WasmEngine.Proofs.Float.Order
import WasmEngine.Proofs.Float.RoundTrip
import WasmEngine.Proofs.Float.Words
import WasmEngine.Proofs.Float.OnWords
import WasmEngine.Proofs.Float.WordRounding
import WasmEngine.Proofs.Float.NearestEven
import WasmEngine.Proofs.Float.WordArithmetic
import WasmEngine.Proofs.Float.NoOverflow
import WasmEngine.Proofs.Operator.Flat
import WasmEngine.Proofs.Compiled.Extent
import WasmEngine.Proofs.Compiled.Walk
import WasmEngine.Proofs.Instance.Heights
import WasmEngine.Proofs.Memory.Range
import WasmEngine.Proofs.Memory.Access
import WasmEngine.Proofs.Store.Declared
import WasmEngine.Proofs.Compiled.Register
import WasmEngine.Proofs.Compiled.Windows
import WasmEngine.Proofs.Instance.Windows
import WasmEngine.Proofs.Numeric.Integers
import WasmEngine.Proofs.Host.Linking
import WasmEngine.Proofs.Module.Memories
import WasmEngine.Proofs.Compiled.Cursor
import WasmEngine.Proofs.Compiled.Halting
