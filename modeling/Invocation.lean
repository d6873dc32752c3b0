import Invocation.Text.Blank
import Invocation.Text.Identifier
import Invocation.Text.Lowercase
import Invocation.Text.Mark
import Invocation.Decimal.Layout
import Invocation.Decimal.Numeral
import Invocation.Signature.Compile
import Invocation.Signature.Render
import Invocation.Json.Parser
import Invocation.Dispatcher
import Invocation.Pattern.Matcher
import Invocation.Config.File
import Invocation.Config.Build
import Invocation.CommandLine.Answer
import Invocation.Standard
import Invocation.Main
import Invocation.Proofs.Matching.Satisfaction
import Invocation.Proofs.Matching.Absence
import Invocation.Proofs.Dispatcher.Agreement
import Invocation.Proofs.Dispatcher.Keywords
import Invocation.Proofs.Dispatcher.Overloads
import Invocation.Proofs.Signature.Lexemes
import Invocation.Proofs.Signature.Specifiers
import Invocation.Proofs.Signature.Grammar
import Invocation.Proofs.Signature.Usage
import Invocation.Proofs.Signature.Shape
import Invocation.Proofs.Signature.Writing
import Invocation.Proofs.Dispatcher.Fallback
import Invocation.Proofs.Signature.Names
import Invocation.Proofs.Dispatcher.Consistency
import Invocation.Proofs.Dispatcher.Appending
import Invocation.Proofs.Dispatcher.InPlace
import Invocation.Proofs.Dispatcher.Inference
import Invocation.Proofs.Dispatcher.Layers
import Invocation.Proofs.Json.RoundTrip
import Invocation.Proofs.Config.Records
import Invocation.Proofs.Config.RoundTrip
import Invocation.Proofs.Dispatcher.Registration
import Invocation.Proofs.Config.Building
import Invocation.Proofs.CommandLine.Calls
import Invocation.Proofs.Matching.Chains
import Invocation.Proofs.Matching.ChoiceOrder
import Invocation.Proofs.Dispatcher.BooleanWords
import Invocation.Proofs.Matching.Conformance
import Invocation.Proofs.Matching.Regrouping
import Invocation.Proofs.Matching.Greedy
import Invocation.Proofs.Matching.Extension
import Invocation.Proofs.Matching.Bounds
import Invocation.Proofs.Config.PatternTypes
import Invocation.Proofs.Matching.Nullable
import Invocation.Proofs.Matching.Subsets
import Invocation.Proofs.TypeRegistry
import Invocation.Proofs.Signature.Outline
import Invocation.Proofs.Signature.Diagnostics
import Invocation.Proofs.Signature.Spans
import Invocation.Proofs.Token
import Invocation.Proofs.Signature.Symbols
import Invocation.Proofs.Dispatcher.AliasOrder
import Invocation.Proofs.Pattern.Numbers
