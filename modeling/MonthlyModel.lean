import MonthlyModel.Aggregation
import MonthlyModel.Arithmetic
import MonthlyModel.Calculation
import MonthlyModel.Calendar
import MonthlyModel.Command.Arguments
import MonthlyModel.Command.Program
import MonthlyModel.Command.Run
import MonthlyModel.Csv.Inputs
import MonthlyModel.Csv.Record
import MonthlyModel.Csv.Table
import MonthlyModel.Decimal.Binary
import MonthlyModel.Decimal.Digits
import MonthlyModel.Decimal.Fixed
import MonthlyModel.Decimal.Numeral
import MonthlyModel.Decimal.Shortest
import MonthlyModel.Dependency.Graph
import MonthlyModel.Dependency.Order
import MonthlyModel.Dependency.Search
import MonthlyModel.Dependency.Walk
import MonthlyModel.Formula.Error
import MonthlyModel.Formula.Evaluation
import MonthlyModel.Formula.Expr
import MonthlyModel.Formula.Function
import MonthlyModel.Formula.Names
import MonthlyModel.Formula.Operator
import MonthlyModel.Formula.Parser
import MonthlyModel.Formula.Temporal
import MonthlyModel.Formula.Token
import MonthlyModel.Json.Numeral
import MonthlyModel.Json.Value
import MonthlyModel.Main
import MonthlyModel.Model.Edit
import MonthlyModel.Model.Error
import MonthlyModel.Model.Files
import MonthlyModel.Model.Recompute
import MonthlyModel.Model.Results
import MonthlyModel.Model.Roster
import MonthlyModel.Model.State
import MonthlyModel.ModelFile
import MonthlyModel.Proofs.Command.ExportLayout
import MonthlyModel.Proofs.Command.Loading
import MonthlyModel.Proofs.Csv.Faults
import MonthlyModel.Proofs.Csv.Rows
import MonthlyModel.Proofs.Dependency.Circularity
import MonthlyModel.Proofs.Dependency.Closure
import MonthlyModel.Proofs.Dependency.Graph
import MonthlyModel.Proofs.Dependency.Order
import MonthlyModel.Proofs.Dependency.Search
import MonthlyModel.Proofs.Dependency.Walk
import MonthlyModel.Proofs.Double.Arithmetic
import MonthlyModel.Proofs.Double.Bits
import MonthlyModel.Proofs.Double.Matching
import MonthlyModel.Proofs.Double.Sign
import MonthlyModel.Proofs.Formula.Bounds
import MonthlyModel.Proofs.Formula.Brackets
import MonthlyModel.Proofs.Formula.Congruence
import MonthlyModel.Proofs.Formula.Consultation
import MonthlyModel.Proofs.Formula.Expr
import MonthlyModel.Proofs.Formula.Grammar
import MonthlyModel.Proofs.Formula.Horizon
import MonthlyModel.Proofs.Formula.Lexemes
import MonthlyModel.Proofs.Formula.Literals
import MonthlyModel.Proofs.Formula.Names
import MonthlyModel.Proofs.Formula.Parsing
import MonthlyModel.Proofs.Formula.Pointwise
import MonthlyModel.Proofs.Formula.Readings
import MonthlyModel.Proofs.Formula.Separation
import MonthlyModel.Proofs.Formula.Series
import MonthlyModel.Proofs.Model.Building
import MonthlyModel.Proofs.Model.Change
import MonthlyModel.Proofs.Model.Coherence
import MonthlyModel.Proofs.Model.Consistency
import MonthlyModel.Proofs.Model.Content
import MonthlyModel.Proofs.Model.Edit
import MonthlyModel.Proofs.Model.Freshness
import MonthlyModel.Proofs.Model.History
import MonthlyModel.Proofs.Model.InPlace
import MonthlyModel.Proofs.Model.Loading
import MonthlyModel.Proofs.Model.Lookup
import MonthlyModel.Proofs.Model.Memoization
import MonthlyModel.Proofs.Model.Memory
import MonthlyModel.Proofs.Model.Operation
import MonthlyModel.Proofs.Model.Preview
import MonthlyModel.Proofs.Model.Recompute
import MonthlyModel.Proofs.Model.Schedule
import MonthlyModel.Proofs.Model.Settled
import MonthlyModel.Proofs.Model.Standing
import MonthlyModel.Proofs.Outcome
import MonthlyModel.Proofs.Reference
import MonthlyModel.Proofs.Reference.Text
import MonthlyModel.Proofs.Sheet.Beyond
import MonthlyModel.Proofs.Sheet.Bookkeeping
import MonthlyModel.Proofs.Sheet.CellValue
import MonthlyModel.Proofs.Sheet.Column
import MonthlyModel.Proofs.Sheet.Conversion
import MonthlyModel.Proofs.Sheet.Convertibility
import MonthlyModel.Proofs.Sheet.Degradation
import MonthlyModel.Proofs.Sheet.FormulaText
import MonthlyModel.Proofs.Sheet.Layout
import MonthlyModel.Proofs.Sheet.Lead
import MonthlyModel.Proofs.Sheet.Meaning
import MonthlyModel.Proofs.Sheet.OperatorTree
import MonthlyModel.Proofs.Sheet.Placement
import MonthlyModel.Proofs.Sheet.Prose
import MonthlyModel.Proofs.Sheet.Rational
import MonthlyModel.Proofs.Sheet.Reach
import MonthlyModel.Proofs.Sheet.Reading
import MonthlyModel.Proofs.Sheet.Spreadsheet
import MonthlyModel.Proofs.Sheet.Striking
import MonthlyModel.Proofs.Sheet.Worksheet
import MonthlyModel.Proofs.Text.Word
import MonthlyModel.Proofs.Timeline.Days
import MonthlyModel.Proofs.Timeline.Grouping
import MonthlyModel.Proofs.Timeline.Totals
import MonthlyModel.Proofs.Timeline.Years
import MonthlyModel.Reference
import MonthlyModel.Reference.Order
import MonthlyModel.SeriesMap
import MonthlyModel.Sheet.Column
import MonthlyModel.Sheet.Conversion
import MonthlyModel.Sheet.Error
import MonthlyModel.Sheet.Export
import MonthlyModel.Sheet.Formula
import MonthlyModel.Sheet.Layout
import MonthlyModel.Sheet.Prose
import MonthlyModel.Text
import MonthlyModel.Text.Word
import MonthlyModel.Timeline
import MonthlyModel.Timeline.Grouping
import MonthlyModel.Proofs.Model.Revisions
