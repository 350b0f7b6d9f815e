import PeriodLint.Editor.Session
import PeriodLint.Main
import PeriodLint.Proofs.Results
import PeriodLint.Proofs.Text.Encoding
import PeriodLint.Proofs.Text.Lines
import PeriodLint.Proofs.Syntax.Location
import PeriodLint.Proofs.Syntax.RangeForm
import PeriodLint.Proofs.Edit.Resolution
import PeriodLint.Proofs.Rule.Replacement
import PeriodLint.Proofs.Edit.Selection
import PeriodLint.Proofs.Edit.Weave
import PeriodLint.Proofs.Edit.Pass
import PeriodLint.Proofs.Check.Mending
import PeriodLint.Proofs.Files.Shape
import PeriodLint.Proofs.Files.RealPlace
import PeriodLint.Proofs.Edit.AnyTree
import PeriodLint.Proofs.Check.Rerun
import PeriodLint.Proofs.Rule.Reports
import PeriodLint.Proofs.Suppression.InForce
import PeriodLint.Proofs.Suppression.Spared
import PeriodLint.Proofs.Editor.Client
import PeriodLint.Proofs.Editor.QuickFix
import PeriodLint.Proofs.Editor.Publications
import PeriodLint.Proofs.Rule.StableOrder
import PeriodLint.Proofs.Settings.ActiveRules
import PeriodLint.Proofs.Check.Unreadable
import PeriodLint.Proofs.Text.Unified
import PeriodLint.Proofs.Check.Rewritten
import PeriodLint.Proofs.Settings.Loading
import PeriodLint.Proofs.Check.Parts
import PeriodLint.Proofs.Check.Singles
import PeriodLint.Proofs.Check.Touched
import PeriodLint.Proofs.Edit.Reported
import PeriodLint.Proofs.Edit.Scan
import PeriodLint.Proofs.Edit.Simultaneous
import PeriodLint.Proofs.Edit.Repeated
import PeriodLint.Proofs.Rule.AnyOrder
import PeriodLint.Proofs.Rule.Listed
import PeriodLint.Proofs.Syntax.Remarks
import PeriodLint.Proofs.Text.Classes
import PeriodLint.Proofs.Suppression.Written
import PeriodLint.Proofs.Settings.Nearest
import PeriodLint.Proofs.Settings.Chosen
import PeriodLint.Proofs.Files.Distinct
import PeriodLint.Proofs.Files.Collected
import PeriodLint.Proofs.Check.Printed
import PeriodLint.Proofs.Files.Listing
import PeriodLint.Proofs.Syntax.Walk
