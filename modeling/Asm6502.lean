import Asm6502.Main
import Asm6502.Proofs.NotedFiles
import Asm6502.Proofs.WorkspaceCoherence
import Asm6502.Proofs.BlockRoundTrip
import Asm6502.Proofs.UnknownCommands
import Asm6502.Proofs.CursorLines
import Asm6502.Proofs.CapitalDocuments
import Asm6502.Proofs.CommandVerdicts
import Asm6502.Proofs.IncludeRuns
import Asm6502.Proofs.ConstantChains
import Asm6502.Proofs.ReferencedLabels
import Asm6502.Proofs.LoweredTrees
import Asm6502.Proofs.MalformedNumbers
import Asm6502.Proofs.MergedBlanks
import Asm6502.Proofs.SortedFindings
import Asm6502.Proofs.NumberBases
import Asm6502.Proofs.IndexedTables
import Asm6502.Proofs.ExpressionWalks
import Asm6502.Proofs.FolderNames
