import SwitchLint.CommandLine.Run
import SwitchLint.CommandLine.Trees
import SwitchLint.Main
import SwitchLint.Proofs.Encoding
import SwitchLint.Proofs.Nesting
import SwitchLint.Proofs.Leaves
import SwitchLint.Proofs.Lossless
import SwitchLint.Proofs.ClauseVisits
import SwitchLint.Proofs.BlankLines
import SwitchLint.Proofs.FallThrough
import SwitchLint.Proofs.IssueOrder
import SwitchLint.Proofs.UnscopedSwitches
import SwitchLint.Proofs.Selection
import SwitchLint.Proofs.Sessions
import SwitchLint.Proofs.TabWidth
import SwitchLint.Proofs.TerminatorIndent
import SwitchLint.Proofs.RuleOrder
import SwitchLint.Proofs.LintCommand
import SwitchLint.Proofs.SettingsFaults
import SwitchLint.Proofs.EmptyLabels
import SwitchLint.Proofs.ClauseLoop
import SwitchLint.Proofs.Locality
import SwitchLint.Proofs.FallThroughGroups
import SwitchLint.Proofs.AtomicNodes
import SwitchLint.Proofs.EnabledRules
import SwitchLint.Proofs.TextsAndFiles
import SwitchLint.Proofs.PositiveWidths
import SwitchLint.Proofs.Gaps
import SwitchLint.Proofs.CaseSpacing
import SwitchLint.Proofs.Searches
import SwitchLint.Proofs.LeafTokens
