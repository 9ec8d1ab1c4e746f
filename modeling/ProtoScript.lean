import ProtoScript.Analysis.Call
import ProtoScript.Analysis.Context
import ProtoScript.Analysis.Expr
import ProtoScript.Analysis.Name
import ProtoScript.Analysis.Operator
import ProtoScript.Analysis.Program
import ProtoScript.Analysis.Stmt
import ProtoScript.Builtin.Basic
import ProtoScript.C.Container
import ProtoScript.C.Emit
import ProtoScript.C.Index
import ProtoScript.C.Infer
import ProtoScript.C.Module
import ProtoScript.C.Name
import ProtoScript.C.Prelude
import ProtoScript.C.Text
import ProtoScript.Compile.Basic
import ProtoScript.Constant.Arith
import ProtoScript.Constant.Basic
import ProtoScript.Constant.Evaluate
import ProtoScript.Decimal.Binary64
import ProtoScript.Decimal.Format
import ProtoScript.Decimal.Reader
import ProtoScript.Diagnostic.Basic
import ProtoScript.Diagnostic.Code
import ProtoScript.Diagnostic.Display
import ProtoScript.Diagnostic.Problem
import ProtoScript.Group.Basic
import ProtoScript.Hierarchy.Basic
import ProtoScript.Hierarchy.Build
import ProtoScript.Ir.Basic
import ProtoScript.Ir.Instr
import ProtoScript.Ir.Printer
import ProtoScript.Ir.Reach
import ProtoScript.Ir.Validate
import ProtoScript.Ir.Written
import ProtoScript.Json.Basic
import ProtoScript.Json.Draft
import ProtoScript.Json.Number
import ProtoScript.Json.Reader
import ProtoScript.Json.Record
import ProtoScript.Json.Writer
import ProtoScript.Library.Basic
import ProtoScript.Library.Imports
import ProtoScript.Library.Written
import ProtoScript.Lowering.Builder
import ProtoScript.Lowering.Expr
import ProtoScript.Lowering.Program
import ProtoScript.Lowering.Stmt
import ProtoScript.Number.Basic
import ProtoScript.Optimize.Basic
import ProtoScript.Optimize.Checks
import ProtoScript.Optimize.Fold
import ProtoScript.Optimize.Inline
import ProtoScript.Options.Basic
import ProtoScript.Options.Written
import ProtoScript.Proofs.Analysis.Advances
import ProtoScript.Proofs.Analysis.Alike
import ProtoScript.Proofs.Analysis.Constants
import ProtoScript.Proofs.Analysis.Context
import ProtoScript.Proofs.Analysis.Covered
import ProtoScript.Proofs.Analysis.Expr
import ProtoScript.Proofs.Analysis.Globals
import ProtoScript.Proofs.Analysis.Keeps
import ProtoScript.Proofs.Analysis.Knowledge
import ProtoScript.Proofs.Analysis.Leaving
import ProtoScript.Proofs.Analysis.Looks
import ProtoScript.Proofs.Analysis.Merging
import ProtoScript.Proofs.Analysis.NotedExpr
import ProtoScript.Proofs.Analysis.NotedProgram
import ProtoScript.Proofs.Analysis.Order
import ProtoScript.Proofs.Analysis.Program
import ProtoScript.Proofs.Analysis.Rules
import ProtoScript.Proofs.Analysis.Silent
import ProtoScript.Proofs.Analysis.Stmt
import ProtoScript.Proofs.Analysis.StmtSteps
import ProtoScript.Proofs.Analysis.TypedExpr
import ProtoScript.Proofs.Analysis.TypedProgram
import ProtoScript.Proofs.Analysis.TypedStmt
import ProtoScript.Proofs.C.Dispatch
import ProtoScript.Proofs.C.Emitted
import ProtoScript.Proofs.C.Entities
import ProtoScript.Proofs.C.Generated
import ProtoScript.Proofs.C.Inferred
import ProtoScript.Proofs.C.Literal
import ProtoScript.Proofs.C.Mangled
import ProtoScript.Proofs.C.Names
import ProtoScript.Proofs.C.Plain
import ProtoScript.Proofs.C.Registered
import ProtoScript.Proofs.C.Retyping
import ProtoScript.Proofs.C.Rounds
import ProtoScript.Proofs.C.Types
import ProtoScript.Proofs.Compile.Accepted
import ProtoScript.Proofs.Constant.Environment
import ProtoScript.Proofs.Constant.Evaluate
import ProtoScript.Proofs.Constant.Integer
import ProtoScript.Proofs.Group.Spelling
import ProtoScript.Proofs.Group.Table
import ProtoScript.Proofs.Hierarchy.Chain
import ProtoScript.Proofs.Hierarchy.Clean
import ProtoScript.Proofs.Hierarchy.Cycles
import ProtoScript.Proofs.Hierarchy.Declared
import ProtoScript.Proofs.Hierarchy.Order
import ProtoScript.Proofs.Hierarchy.Overrides
import ProtoScript.Proofs.Hierarchy.Subtypes
import ProtoScript.Proofs.Ir.Document
import ProtoScript.Proofs.Ir.Flow
import ProtoScript.Proofs.Ir.Operands
import ProtoScript.Proofs.Ir.Paths
import ProtoScript.Proofs.Ir.Reach
import ProtoScript.Proofs.Ir.Validate
import ProtoScript.Proofs.Library.Imports
import ProtoScript.Proofs.Lookup
import ProtoScript.Proofs.Lowering.Builder
import ProtoScript.Proofs.Lowering.Calm
import ProtoScript.Proofs.Lowering.Endless
import ProtoScript.Proofs.Lowering.EndsInJump
import ProtoScript.Proofs.Lowering.Expr
import ProtoScript.Proofs.Lowering.ExprMoves
import ProtoScript.Proofs.Lowering.ExprSketch
import ProtoScript.Proofs.Lowering.Flow
import ProtoScript.Proofs.Lowering.Followed
import ProtoScript.Proofs.Lowering.Function
import ProtoScript.Proofs.Lowering.FunctionSketch
import ProtoScript.Proofs.Lowering.Guarantees
import ProtoScript.Proofs.Lowering.Initialized
import ProtoScript.Proofs.Lowering.Instances
import ProtoScript.Proofs.Lowering.Known
import ProtoScript.Proofs.Lowering.Lenient
import ProtoScript.Proofs.Lowering.Module
import ProtoScript.Proofs.Lowering.Moves
import ProtoScript.Proofs.Lowering.Operation
import ProtoScript.Proofs.Lowering.Order
import ProtoScript.Proofs.Lowering.Point
import ProtoScript.Proofs.Lowering.Poised
import ProtoScript.Proofs.Lowering.Regions
import ProtoScript.Proofs.Lowering.Relates
import ProtoScript.Proofs.Lowering.Scopes
import ProtoScript.Proofs.Lowering.Site
import ProtoScript.Proofs.Lowering.Sketch
import ProtoScript.Proofs.Lowering.Steps
import ProtoScript.Proofs.Lowering.Stmt
import ProtoScript.Proofs.Lowering.StmtMoves
import ProtoScript.Proofs.Lowering.StmtSketch
import ProtoScript.Proofs.Lowering.Switch
import ProtoScript.Proofs.Lowering.Visits
import ProtoScript.Proofs.Lowering.WellFormed
import ProtoScript.Proofs.Machine.Basic
import ProtoScript.Proofs.Machine.Follows
import ProtoScript.Proofs.Machine.Heap
import ProtoScript.Proofs.Machine.Reaches
import ProtoScript.Proofs.Machine.Standard
import ProtoScript.Proofs.Optimize.Checks
import ProtoScript.Proofs.Optimize.Exhaustive
import ProtoScript.Proofs.Optimize.Fold
import ProtoScript.Proofs.Optimize.Idempotent
import ProtoScript.Proofs.Optimize.Inline
import ProtoScript.Proofs.Optimize.Replay
import ProtoScript.Proofs.Optimize.Rewrite
import ProtoScript.Proofs.Optimize.Valid
import ProtoScript.Proofs.Scoping.Agree
import ProtoScript.Proofs.Scoping.Layers
import ProtoScript.Proofs.Scoping.Walk
import ProtoScript.Proofs.Source.Eager
import ProtoScript.Proofs.Source.Eval
import ProtoScript.Proofs.Source.Nodes
import ProtoScript.Proofs.Source.Typing
import ProtoScript.Proofs.Text.Distance
import ProtoScript.Proofs.Text.Nearest
import ProtoScript.Proofs.Ty.Grammar
import ProtoScript.Proofs.Ty.RoundTrip
import ProtoScript.Scope.Basic
import ProtoScript.Source.Expr
import ProtoScript.Source.Operator
import ProtoScript.Source.Program
import ProtoScript.Source.Span
import ProtoScript.Source.Stmt
import ProtoScript.Text.Hex
import ProtoScript.Text.Quoted
import ProtoScript.Text.Suggest
import ProtoScript.Text.Unicode
import ProtoScript.Toml.Basic
import ProtoScript.Toml.Reader
import ProtoScript.Toml.Word
import ProtoScript.Toml.Writer
import ProtoScript.Ty.Basic
import ProtoScript.Ty.Parser
