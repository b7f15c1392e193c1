import MiniPascal.Main
import MiniPascal.Symbol.Recording
import MiniPascal.Proofs.Carets
import MiniPascal.Proofs.Characters
import MiniPascal.Proofs.Cuts
import MiniPascal.Proofs.Dump
import MiniPascal.Proofs.FirstMatch
import MiniPascal.Proofs.Grammar
import MiniPascal.Proofs.Independence
import MiniPascal.Proofs.Layout
import MiniPascal.Proofs.LetterRuns
import MiniPascal.Proofs.LineSearch
import MiniPascal.Proofs.Messages
import MiniPascal.Proofs.Mirror
import MiniPascal.Proofs.Order
import MiniPascal.Proofs.Outcomes
import MiniPascal.Proofs.Progress
import MiniPascal.Proofs.Questions
import MiniPascal.Proofs.Reals
import MiniPascal.Proofs.Verbosity
