import Tangor.TaskGraph.Task
import Tangor.TaskGraph.Machine
import Tangor.TaskGraph.Runtime
import Tangor.TaskGraph.Straight
import Tangor.TaskGraph.Host
import Tangor.TaskGraph.Named
import Tangor.TaskGraph.Unannounced
import Tangor.TaskGraph.Progress
import Tangor.Throwing
import Tangor.Fallible
import Tangor.Json
import Tangor.YosysJsonParser
import Tangor.StarpuBuildGraph
import Tangor.Netlist
import Tangor.Proofs.Parser
import Tangor.Proofs.Represents
import Tangor.Proofs.SearchPointer
import Tangor.Program
import Tangor.Proofs.Schedule
import Tangor.Proofs.Placement
import Tangor.Proofs.GateVector
import Tangor.Proofs.Compile
import Tangor.Proofs.Outputs
import Tangor.Proofs.Renaming
import Tangor.Proofs.Coverage
import Tangor.Proofs.Ports
import Tangor.Proofs.Accepts
import Tangor.Proofs.Structure
import Tangor.IyokanStarpuCodelets
import Tangor.Proofs.Backend
import Tangor.Proofs.Lifetime
import Tangor.Proofs.LateCalls
import Tangor.IyokanThreads
import Tangor.IyokanCodelets
import Tangor.IyokanSessions
import Tangor.IyokanProgram
import Tangor.IyokanExit
import Tangor.Proofs.Keys
import Tangor.Proofs.Objects
import Tangor.Proofs.Memory
import Tangor.Proofs.Threads
import Tangor.Proofs.Captures
import Tangor.Proofs.HostWrites
import Tangor.Proofs.Globals
import Tangor.Proofs.Registries
import Tangor.Proofs.Alike
import Tangor.Proofs.Failures
import Tangor.Proofs.Teardown
import Tangor.Proofs.Aliasing
import Tangor.Torus
import Tangor.WrappedCodelets
import Tangor.Workers
import Tangor.Clients
import Tangor.Proofs.GateTables
import Tangor.Proofs.Hogewrapper
import Tangor.Proofs.Workers
import Tangor.Proofs.Encrypted
import Tangor.Proofs.Clients
import Tangor.Scatter
import Tangor.HogeKeys
import Tangor.Proofs.HogeKeys
import Tangor.Proofs.Heap
import Tangor.Proofs.HostReads
import Tangor.Proofs.Progress
import Tangor.IyokanEstimates
import Tangor.Proofs.Estimates
