import DeclarativeMlir.Library.ForwardCopy
import DeclarativeMlir.Library.EventMachine
import DeclarativeMlir.Library.LocalExpansion
import DeclarativeMlir.Library.LexicalScope
import DeclarativeMlir.Lua.PackBuffers
import DeclarativeMlir.Lua.PackMachine
import DeclarativeMlir.Lua.PackWrites
import DeclarativeMlir.Lua.IR
import DeclarativeMlir.Lua.ControlFlow
import DeclarativeMlir.Lua.ControlFlowRuns
import DeclarativeMlir.Lua.LoweringNormalForm
import DeclarativeMlir.Lua.LoweringSimulation
import DeclarativeMlir.Lua.StructuredLowering
import DeclarativeMlir.Lua.LoweringOrder
import DeclarativeMlir.Lua.MixedRuns
import DeclarativeMlir.Lua.RepeatLowering
import DeclarativeMlir.Lua.RepeatRuns
import DeclarativeMlir.Lua.RepeatCorrectness
import DeclarativeMlir.Lua.CellMachine
import DeclarativeMlir.Lua.NumericFor
import DeclarativeMlir.Lua.GenericFor
import DeclarativeMlir.Library.OrderedStores
import DeclarativeMlir.Lua.MultipleAssignment
import DeclarativeMlir.Library.PlacedMaps
import DeclarativeMlir.Lua.TableSlots
import DeclarativeMlir.Lua.ClosureConversion
import DeclarativeMlir.Lua.ClosureRuns
import DeclarativeMlir.Lua.CapturedCells
import DeclarativeMlir.Lua.LexicalScoping
import DeclarativeMlir.Lua.AstWalker
import DeclarativeMlir.Lua.BlockDiscipline
import DeclarativeMlir.Library.Transactions
import DeclarativeMlir.Library.Segments
import DeclarativeMlir.Dynamic.AliasMetadata
import DeclarativeMlir.Spec.Denotation
import DeclarativeMlir.Spec.VariadicGroups
import DeclarativeMlir.Spec.VerifierSafety
import DeclarativeMlir.Library.TokenParsing
import DeclarativeMlir.Spec.SpecSyntax
import DeclarativeMlir.Spec.SpecRoundTrip
import DeclarativeMlir.Embed.FormatUtils
import DeclarativeMlir.Embed.FormatLexer
import DeclarativeMlir.Embed.LosslessLexing
import DeclarativeMlir.Embed.TypeFormat
import DeclarativeMlir.Embed.TypeFormatRoundTrip
import DeclarativeMlir.Library.CheckedParsing
import DeclarativeMlir.Embed.OpFormat
import DeclarativeMlir.Embed.OpFormatReading
import DeclarativeMlir.Embed.OpFormatBinding
import DeclarativeMlir.Embed.OpFormatExactness
import DeclarativeMlir.Embed.FormatParsing
import DeclarativeMlir.Embed.FormatSimulation
import DeclarativeMlir.Embed.FormatParserSafety
import DeclarativeMlir.Spec.AttrConstraints
import DeclarativeMlir.Spec.ConstraintSyntax
import DeclarativeMlir.Spec.ConstraintReading
import DeclarativeMlir.Spec.ConstraintRoundTrip
import DeclarativeMlir.Spec.AttrRoundTrip
import DeclarativeMlir.Spec.Reparsing
import DeclarativeMlir.Lua.IntegerPower
import DeclarativeMlir.Python.GenericPrint
import DeclarativeMlir.Library.Interning
import DeclarativeMlir.Spec.ListUniquing
import DeclarativeMlir.Spec.ConstraintLoop
import DeclarativeMlir.Embed.ExposedOp
import DeclarativeMlir.Spec.NullableParsing
import DeclarativeMlir.Lua.KnownCalls
import DeclarativeMlir.Oec.VariableResolution
import DeclarativeMlir.Spec.AttrVerification
import DeclarativeMlir.Embed.GeneratedPython
import DeclarativeMlir.Embed.PrinterSpacing
import DeclarativeMlir.Embed.TypeInference
import DeclarativeMlir.Dynamic.DialectCatalog
import DeclarativeMlir.Dynamic.DynamicTypes
