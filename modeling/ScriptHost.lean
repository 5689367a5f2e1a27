import ScriptHost.Engine.Summary
import ScriptHost.Main
import ScriptHost.Number.Remainder
import ScriptHost.Proofs.Code.Depth
import ScriptHost.Proofs.Code.Joined
import ScriptHost.Proofs.Code.Layout
import ScriptHost.Proofs.Code.Renumbered
import ScriptHost.Proofs.Code.Sound
import ScriptHost.Proofs.Engine.Batch
import ScriptHost.Proofs.Engine.Blame
import ScriptHost.Proofs.Engine.CallStacks
import ScriptHost.Proofs.Engine.Granted
import ScriptHost.Proofs.Engine.Limit
import ScriptHost.Proofs.Engine.Lines
import ScriptHost.Proofs.Engine.Reached
import ScriptHost.Proofs.Engine.Refusal
import ScriptHost.Proofs.Engine.Reports
import ScriptHost.Proofs.Engine.States
import ScriptHost.Proofs.Engine.This
import ScriptHost.Proofs.Engine.WellFormed
import ScriptHost.Proofs.Grammar.Declares
import ScriptHost.Proofs.Grammar.Printed.Source
import ScriptHost.Proofs.Grammar.Progress
import ScriptHost.Proofs.Grammar.Tallest
import ScriptHost.Proofs.Host.Catalog
import ScriptHost.Proofs.Host.Visibility
import ScriptHost.Proofs.Loader
import ScriptHost.Proofs.Machine.Exact
import ScriptHost.Proofs.Machine.Extended
import ScriptHost.Proofs.Machine.Faults
import ScriptHost.Proofs.Machine.Framewise
import ScriptHost.Proofs.Machine.HostCalls
import ScriptHost.Proofs.Machine.Known
import ScriptHost.Proofs.Machine.Operands
import ScriptHost.Proofs.Machine.Renumbered
import ScriptHost.Proofs.Machine.Reordered
import ScriptHost.Proofs.Machine.Sound
import ScriptHost.Proofs.Machine.Stack
import ScriptHost.Proofs.Machine.Steps
import ScriptHost.Proofs.Machine.Trace
import ScriptHost.Proofs.Program.Build
import ScriptHost.Proofs.Program.Closed
import ScriptHost.Proofs.Program.Exchanged
import ScriptHost.Proofs.Program.Joined
import ScriptHost.Proofs.Program.Names
import ScriptHost.Proofs.Program.Permuted
import ScriptHost.Proofs.Program.Reordered
import ScriptHost.Proofs.Program.Slots
import ScriptHost.Proofs.Program.Sound
import ScriptHost.Proofs.Program.Split
import ScriptHost.Proofs.Program.Warnings
import ScriptHost.Proofs.Project.Damage
import ScriptHost.Proofs.Scope.Blocks
import ScriptHost.Proofs.Scope.Declared
import ScriptHost.Proofs.Scope.Distinct
import ScriptHost.Proofs.Scope.Known
import ScriptHost.Proofs.Scope.Later
import ScriptHost.Proofs.Scope.Lexical
import ScriptHost.Proofs.Scope.Lifetimes
import ScriptHost.Proofs.Scope.Listed
import ScriptHost.Proofs.Scope.Locals
import ScriptHost.Proofs.Scope.Resolved
import ScriptHost.Proofs.Scope.Routines
import ScriptHost.Proofs.Scope.Swapped
import ScriptHost.Proofs.Scope.Unit
import ScriptHost.Proofs.Token.Spelling
import ScriptHost.Proofs.Token.Tiling
import ScriptHost.Proofs.Trees.Agreement
import ScriptHost.Proofs.Trees.Calls
import ScriptHost.Proofs.Trees.Expressions
import ScriptHost.Proofs.Trees.Follow
import ScriptHost.Proofs.Trees.Meaning
import ScriptHost.Proofs.Trees.Statements
import ScriptHost.Tree.Printer
import ScriptHost.Proofs.Grammar.Afresh
import ScriptHost.Proofs.Standard.Placeholder
import ScriptHost.Proofs.Disk.Places
import ScriptHost.Proofs.Disk.Replaced
import ScriptHost.Proofs.Grammar.Layout
import ScriptHost.Proofs.Grammar.Nested
import ScriptHost.Proofs.Settings.Kept
