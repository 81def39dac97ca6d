import Retarget.Assembly.Error
import Retarget.Assembly.Image
import Retarget.Assembly.Loader
import Retarget.Assembly.Passes
import Retarget.Assembly.Program
import Retarget.Assembly.Session
import Retarget.Bits.Buffer
import Retarget.Bits.Counter
import Retarget.Bits.Endian
import Retarget.Bits.Error
import Retarget.Bits.Run
import Retarget.Bits.Slice
import Retarget.Bits.Wide
import Retarget.Bits.Word
import Retarget.Command.Arguments
import Retarget.Command.Run
import Retarget.Document.Basic
import Retarget.Document.Decimal
import Retarget.Document.Decode
import Retarget.Document.Json
import Retarget.Document.Nesting
import Retarget.Document.Plain
import Retarget.Document.Yaml
import Retarget.Document.Yaml.Node
import Retarget.Document.Yaml.Scalar
import Retarget.Document.Yaml.Spot
import Retarget.Document.Yaml.Token
import Retarget.Error
import Retarget.Expr.Error
import Retarget.Expr.Parser
import Retarget.Expr.Term
import Retarget.Expr.Token
import Retarget.Field.Basic
import Retarget.Field.Error
import Retarget.Field.Layout
import Retarget.Files.Fault
import Retarget.Files.Path
import Retarget.Files.Tree
import Retarget.Hex.Error
import Retarget.Hex.File
import Retarget.Hex.Record
import Retarget.Isa.Encode
import Retarget.Isa.Error
import Retarget.Isa.Instruction
import Retarget.Isa.Match
import Retarget.Isa.Model
import Retarget.Isa.Operand
import Retarget.Isa.OperandList
import Retarget.Isa.Schema
import Retarget.Isa.Symbols
import Retarget.Main
import Retarget.Number
import Retarget.Proofs.Assembly.Blocks
import Retarget.Proofs.Assembly.Branches
import Retarget.Proofs.Assembly.ConditionalLines
import Retarget.Proofs.Assembly.FileScopes
import Retarget.Proofs.Assembly.Including
import Retarget.Proofs.Assembly.Inert
import Retarget.Proofs.Assembly.LabelLines
import Retarget.Proofs.Assembly.Lines
import Retarget.Proofs.Assembly.LocalLabels
import Retarget.Proofs.Assembly.MemoryMap
import Retarget.Proofs.Assembly.Muting
import Retarget.Proofs.Assembly.Overlap
import Retarget.Proofs.Assembly.Passes
import Retarget.Proofs.Assembly.Placing
import Retarget.Proofs.Assembly.Reordering
import Retarget.Proofs.Assembly.Requests
import Retarget.Proofs.Assembly.Target
import Retarget.Proofs.Assembly.Tracking
import Retarget.Proofs.Assembly.Warnings
import Retarget.Proofs.Assembly.Window
import Retarget.Proofs.Bits.Buffer
import Retarget.Proofs.Bits.Calls
import Retarget.Proofs.Bits.Packing
import Retarget.Proofs.Bits.Serial
import Retarget.Proofs.Bits.Signed
import Retarget.Proofs.Expr.Arithmetic
import Retarget.Proofs.Expr.Dependence
import Retarget.Proofs.Expr.Grammar
import Retarget.Proofs.Expr.Lexeme
import Retarget.Proofs.Expr.Name
import Retarget.Proofs.Expr.Numeral
import Retarget.Proofs.Expr.Printing
import Retarget.Proofs.Field.Addresses
import Retarget.Proofs.Field.Flattening
import Retarget.Proofs.Field.Joining
import Retarget.Proofs.Field.Layout
import Retarget.Proofs.Field.Steps
import Retarget.Proofs.Hex.Corruption
import Retarget.Proofs.Hex.File
import Retarget.Proofs.Hex.Memory
import Retarget.Proofs.Hex.Record
import Retarget.Proofs.Isa.Checked
import Retarget.Proofs.Isa.Expansion
import Retarget.Proofs.Isa.Indexes
import Retarget.Proofs.Isa.Mnemonics
import Retarget.Proofs.Isa.Numbering
import Retarget.Proofs.Isa.Registers
import Retarget.Proofs.Isa.Templates
import Retarget.Proofs.Isa.Widths
import Retarget.Proofs.Result
import Retarget.Proofs.Scope.Binding
import Retarget.Proofs.Scope.Calls
import Retarget.Proofs.Scope.Local
import Retarget.Proofs.Scope.Named
import Retarget.Proofs.Statement.Data
import Retarget.Proofs.Statement.Joined
import Retarget.Proofs.Statement.Labelled
import Retarget.Proofs.Statement.Literals
import Retarget.Proofs.Statement.LocalBlocks
import Retarget.Proofs.Statement.Numbering
import Retarget.Proofs.Statement.Size
import Retarget.Proofs.Symbol.Arguments
import Retarget.Proofs.Symbol.History
import Retarget.Proofs.Symbol.Mirror
import Retarget.Proofs.Symbol.Numeric
import Retarget.Proofs.Symbol.Requirement
import Retarget.Proofs.Symbol.Resolution
import Retarget.Proofs.Text.LetterCase
import Retarget.Proofs.Text.Operands
import Retarget.Proofs.Zone.Calls
import Retarget.Proofs.Zone.Cursor
import Retarget.Scope.Error
import Retarget.Scope.Named
import Retarget.Scope.Tree
import Retarget.SourceLine
import Retarget.Statement.Basic
import Retarget.Statement.Data
import Retarget.Statement.Error
import Retarget.Statement.Placement
import Retarget.Statement.Reader
import Retarget.Symbol.Condition
import Retarget.Symbol.Directive
import Retarget.Symbol.Error
import Retarget.Symbol.Table
import Retarget.Symbol.Test
import Retarget.Text.Blank
import Retarget.Text.Digits
import Retarget.Text.Escape
import Retarget.Text.Lines
import Retarget.Text.Lower
import Retarget.Text.NameSet
import Retarget.Text.NameTable
import Retarget.Text.Split
import Retarget.Text.WordChar
import Retarget.Version
import Retarget.Zone.Basic
import Retarget.Zone.Error
