import FindingFilter.Main
import FindingFilter.Proofs.Filter.DeadRules
import FindingFilter.Proofs.Filter.Report
import FindingFilter.Proofs.Rule.SymbolCover
import FindingFilter.Proofs.RuleStore.Indices
import FindingFilter.Proofs.RuleStore.Sharding
import FindingFilter.Proofs.Wildcard.Machine
import FindingFilter.Proofs.RuleStore.Acceptance
import FindingFilter.Proofs.RuleStore.FirstRule
import FindingFilter.Proofs.RuleStore.History
import FindingFilter.Proofs.Rule.LineForm
import FindingFilter.Proofs.RuleStore.Rendering
import FindingFilter.Proofs.RuleStore.FileMatching
import FindingFilter.Proofs.Filter.Batches
import FindingFilter.Proofs.RuleStore.Concatenation
import FindingFilter.Proofs.Filter.Sources
import FindingFilter.Proofs.Filter.SourceOrder
import FindingFilter.Proofs.Json.Printing
import FindingFilter.Proofs.Command.Verdict
import FindingFilter.Proofs.Filter.ConfigEntries
import FindingFilter.Proofs.Filter.Settings
import FindingFilter.Proofs.Finding.Encodings
import FindingFilter.Proofs.RuleStore.Separators
import FindingFilter.Proofs.Text.FixedWidth
import FindingFilter.Proofs.Text.LeadingInt
import FindingFilter.Proofs.Rule.Markup
import FindingFilter.Proofs.Rule.Comment
import FindingFilter.Proofs.Wildcard.Retries
import FindingFilter.Proofs.Report.Compact
