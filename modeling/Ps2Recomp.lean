import Ps2Recomp.Proof.Cycles
import Ps2Recomp.Proof.Returns
import Ps2Recomp.Proof.BranchRule
import Ps2Recomp.Proof.Kick
import Ps2Recomp.Proof.Hooks
import Ps2Recomp.Proof.Scope
import Ps2Recomp.Proof.Output
import Ps2Recomp.Proof.Names
import Ps2Recomp.Proof.Slots
import Ps2Recomp.Proof.Sleep
import Ps2Recomp.Proof.Signals
import Ps2Recomp.Proof.Stranded
import Ps2Recomp.Proof.EventFlag
import Ps2Recomp.Proof.Stacks
import Ps2Recomp.Proof.Gate
import Ps2Recomp.Proof.Dispatch
import Ps2Recomp.Proof.Realloc
import Ps2Recomp.Proof.CodeRegions
import Ps2Recomp.Proof.Bounds
import Ps2Recomp.Proof.Arbiter
import Ps2Recomp.Proof.Path3
import Ps2Recomp.Proof.Splits
import Ps2Recomp.Proof.VuConstants
import Ps2Recomp.Proof.VuFlags
import Ps2Recomp.Proof.Csr
import Ps2Recomp.Proof.VSync
import Ps2Recomp.Proof.VertexQueue
import Ps2Recomp.Proof.FunnelShift
import Ps2Recomp.Proof.Texel
import Ps2Recomp.Proof.Exceptions
import Ps2Recomp.Proof.RpcQueues
import Ps2Recomp.Proof.RpcClients
import Ps2Recomp.Proof.Sjrmt
import Ps2Recomp.Proof.ActiveTokens
import Ps2Recomp.Proof.VSyncWait
import Ps2Recomp.Proof.GuestPaths
import Ps2Recomp.Proof.McStubs
import Ps2Recomp.Proof.IopHeap
import Ps2Recomp.Proof.CdStream
import Ps2Recomp.Proof.Tls
import Ps2Recomp.Proof.SifDma
import Ps2Recomp.Proof.SignTests
import Ps2Recomp.Proof.IopMemory
import Ps2Recomp.Proof.ReturnSplit
import Ps2Recomp.Proof.FunctionExtraction
import Ps2Recomp.Proof.Join
import Ps2Recomp.Proof.StatusRegisters
import Ps2Recomp.Proof.EeTimers
import Ps2Recomp.Proof.Saturation
import Ps2Recomp.Proof.Shuffles
import Ps2Recomp.Proof.Divisions
import Ps2Recomp.Proof.SignedOverflow
import Ps2Recomp.Proof.HiLoMoves
import Ps2Recomp.Proof.Tlb
import Ps2Recomp.Proof.FioFiles
import Ps2Recomp.Proof.Blending
import Ps2Recomp.Proof.LocalTransfer
import Ps2Recomp.Proof.Xgkick
import Ps2Recomp.Proof.Wildcard
import Ps2Recomp.Proof.IopRun
import Ps2Recomp.Proof.LibC
import Ps2Recomp.Proof.Vu1Cache
import Ps2Recomp.Proof.SyscallMirror
