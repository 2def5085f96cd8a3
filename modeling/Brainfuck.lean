import Brainfuck.Api
import Brainfuck.Main
import Brainfuck.Proofs.FlatCode
import Brainfuck.Server
import Brainfuck.Session
import Brainfuck.Proofs.OnTape
import Brainfuck.Proofs.FailedRun
import Brainfuck.Proofs.ConsumedInput
import Brainfuck.Proofs.Slices
import Brainfuck.Proofs.PaddedTape
import Brainfuck.Proofs.Equivalence
import Brainfuck.Proofs.RunRequest
import Brainfuck.Proofs.Invocation
import Brainfuck.Proofs.ParseReport
import Brainfuck.Proofs.InTurn
import Brainfuck.Proofs.Streams
import Brainfuck.Proofs.AbsentCommands
import Brainfuck.Proofs.StrayPointer
import Brainfuck.Proofs.CountingLoop
import Brainfuck.Proofs.SourceFile
import Brainfuck.Proofs.Relay
import Brainfuck.Proofs.FramePath
import Brainfuck.Proofs.OpenLoops
import Brainfuck.Proofs.ServerLaws
