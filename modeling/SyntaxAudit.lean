import SyntaxAudit.Config
import SyntaxAudit.Engine
import SyntaxAudit.Rule.Scripted
import SyntaxAudit.Proofs.Registry.Rules
import SyntaxAudit.Proofs.Registry.Rollback
import SyntaxAudit.Proofs.Registry.Actions
import SyntaxAudit.Proofs.Registry.DirectRules
import SyntaxAudit.Proofs.Registry.DirectSettings
import SyntaxAudit.Proofs.Engine.HookOrder
import SyntaxAudit.Proofs.Engine.Composition
import SyntaxAudit.Proofs.Engine.Construction
import SyntaxAudit.Proofs.Registry.Effect
import SyntaxAudit.Proofs.Engine.OwnQuery
import SyntaxAudit.Proofs.Engine.Selection
import SyntaxAudit.Proofs.Engine.Privacy
import SyntaxAudit.Proofs.Engine.Ranking
import SyntaxAudit.Proofs.Groups
import SyntaxAudit.Proofs.Engine.Division
import SyntaxAudit.Proofs.Engine.Agreement
import SyntaxAudit.Proofs.Engine.Accounting
import SyntaxAudit.Proofs.Registry.DistinctNames
import SyntaxAudit.Proofs.Engine.Coherence
import SyntaxAudit.Proofs.Resolution
import SyntaxAudit.Proofs.Patterns
import SyntaxAudit.Proofs.Tree.Descent
import SyntaxAudit.Proofs.Tree.Stack
import SyntaxAudit.Proofs.Tree.Innermost
import SyntaxAudit.Proofs.Tree.Named
import SyntaxAudit.Proofs.SyntaxErrors
import SyntaxAudit.Proofs.Registry.ReadBack
import SyntaxAudit.Proofs.Toml.Keys
import SyntaxAudit.Proofs.Config.Cleaning
import SyntaxAudit.Proofs.Config.Nearest
import SyntaxAudit.Proofs.Engine.OwnReport
import SyntaxAudit.Proofs.Builtin.SingletonComparison
import SyntaxAudit.Proofs.Builtin.DuplicateImport
import SyntaxAudit.Proofs.Builtin.MaxParameters
import SyntaxAudit.Proofs.Context
import SyntaxAudit.Proofs.Groups.Equality
import SyntaxAudit.Proofs.Groups.Mapping
import SyntaxAudit.Proofs.Settings.Runs
import SyntaxAudit.Proofs.Tree.Extent
