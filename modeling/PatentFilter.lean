import PatentFilter.Text.Blank
import PatentFilter.Text.Quoted
import PatentFilter.Decimal.Notation
import PatentFilter.Code.Written
import PatentFilter.Markup.Token
import PatentFilter.Markup.Offsets
import PatentFilter.Markup.Path
import PatentFilter.Markup.Capture
import PatentFilter.QuerySet.Evaluate
import PatentFilter.Specimen
import PatentFilter.Config.Reading
import PatentFilter.CommandLine
import PatentFilter.Main
import PatentFilter.Office
import PatentFilter.Yaml.Layout
import PatentFilter.Yaml.Document
import PatentFilter.Proofs.Markup.Forest
import PatentFilter.Proofs.Markup.Reading
import PatentFilter.Proofs.Markup.Growth
import PatentFilter.Proofs.Markup.Separation
import PatentFilter.Proofs.Markup.Streaming
import PatentFilter.Proofs.QuerySet.FirstFit
import PatentFilter.Proofs.Screening.History
import PatentFilter.Proofs.Office.Histories
import PatentFilter.Proofs.Office.Isolation
import PatentFilter.Proofs.Office.Explanation
import PatentFilter.Proofs.Markup.Continuation
import PatentFilter.Proofs.Markup.Finished
import PatentFilter.Proofs.Markup.Rendering
import PatentFilter.Proofs.Markup.EndTag
import PatentFilter.Proofs.Markup.Simplification
import PatentFilter.Proofs.Markup.OffPath
import PatentFilter.Proofs.Markup.Persistence
import PatentFilter.Proofs.QuerySet.Prolonged
import PatentFilter.Proofs.QuerySet.Union
import PatentFilter.Proofs.QuerySet.CompileOrder
import PatentFilter.Proofs.QuerySet.Table
import PatentFilter.Proofs.Query.Reading
import PatentFilter.Proofs.Specimen.Forest
import PatentFilter.Proofs.Specimen.Evaluation
import PatentFilter.Proofs.Office.Kinds
import PatentFilter.Proofs.Office.Lifecycle
import PatentFilter.Proofs.Office.Accounting
import PatentFilter.Proofs.CommandLine.Documents
import PatentFilter.Proofs.Office.Repetition
import PatentFilter.Proofs.Markup.Instruction
import PatentFilter.Proofs.Markup.EmptyTag
import PatentFilter.Proofs.QuerySet.EmptyTag
import PatentFilter.Proofs.Office.SetUpLog
import PatentFilter.Proofs.Code.Written
import PatentFilter.Proofs.Markup.Consistency
import PatentFilter.Proofs.Markup.Offsets
import PatentFilter.Proofs.Markup.Locality
