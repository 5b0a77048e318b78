import ScalarLang.Text.Casing
import ScalarLang.Text.Digits
import ScalarLang.Binary64.Decimal
import ScalarLang.Token.Lexer
import ScalarLang.Operator
import ScalarLang.Stack
import ScalarLang.Variables
import ScalarLang.Bytes.Varint
import ScalarLang.Bytes.Digest
import ScalarLang.Function.Resolver
import ScalarLang.Program.Execution
import ScalarLang.Program.Encoding
import ScalarLang.Parser.Phrase
import ScalarLang.Parser.Statement
import ScalarLang.Compiler
import ScalarLang.Grammar.Derivation
import ScalarLang.Grammar.Meaning
import ScalarLang.Proofs.Parsing.Reading
import ScalarLang.Proofs.Parsing.Waiting
import ScalarLang.Proofs.Parsing.PhraseSoundness
import ScalarLang.Proofs.Parsing.PhraseCompleteness
import ScalarLang.Proofs.Parsing.Postfix
import ScalarLang.Proofs.Parsing.PhraseGrammar
import ScalarLang.Proofs.Parsing.StatementReading
import ScalarLang.Proofs.Parsing.StatementSoundness
import ScalarLang.Program.Trace
import ScalarLang.Proofs.Execution.Balance
import ScalarLang.Proofs.Execution.Folding
import ScalarLang.Proofs.Lexing.Identifiers
import ScalarLang.Proofs.Execution.Meaning
import ScalarLang.Proofs.Parsing.StatementCompleteness
import ScalarLang.Proofs.Encoding.Canonical
import ScalarLang.Proofs.Execution.Interchange
import ScalarLang.Proofs.Parsing.StatementGrammar
import ScalarLang.Proofs.Execution.EarlyReturn
import ScalarLang.Proofs.Execution.SharedStack
import ScalarLang.Grammar.Lexical
import ScalarLang.Proofs.Lexing.Trivia
import ScalarLang.Proofs.Lexing.Lexemes
import ScalarLang.Proofs.Lexing.LongestMatch
import ScalarLang.Proofs.Lexing.Lossless
import ScalarLang.Grammar.Layout
import ScalarLang.Proofs.Lexing.Respelling
import ScalarLang.Proofs.Parsing.Respelling
import ScalarLang.Proofs.Execution.Relayout
import ScalarLang.Proofs.Parsing.Lookahead
import ScalarLang.Proofs.Parsing.FirstFault
import ScalarLang.Proofs.State.Serving
import ScalarLang.Proofs.State.Stack
import ScalarLang.Proofs.State.Interning
import ScalarLang.Proofs.Execution.Assignments
import ScalarLang.Proofs.State.NameOrder
import ScalarLang.Proofs.State.Variables
import ScalarLang.Proofs.Execution.Footprint
import ScalarLang.Proofs.Execution.Namespaces
import ScalarLang.Grammar.OpenCalls
import ScalarLang.Proofs.Parsing.Settled
import ScalarLang.Proofs.Parsing.OpenCalls
import ScalarLang.Proofs.Function.Arity
import ScalarLang.Proofs.Function.Resolvers
import ScalarLang.Proofs.Function.Wrapping
import ScalarLang.Proofs.Value.Order
import ScalarLang.Proofs.Value.Attempts
import ScalarLang.Proofs.Value.Integers
import ScalarLang.Proofs.Function.Clamping
import ScalarLang.Proofs.Value.Promotion
import ScalarLang.Value.Cell
import ScalarLang.Proofs.Value.Cells
import ScalarLang.Grammar.Numeral
import ScalarLang.Proofs.Lexing.IntegerLiterals
import ScalarLang.Proofs.Execution.ReadBack
import ScalarLang.Proofs.Execution.Grouping
import ScalarLang.Proofs.Parsing.PhraseLoop
import ScalarLang.Proofs.Parsing.Termination
import ScalarLang.Proofs.Execution.WarmUp
import ScalarLang.Proofs.Encoding.VariableLength
