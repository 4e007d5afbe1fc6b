import ChomskyChart.Chart
import ChomskyChart.CommandLine.Arguments
import ChomskyChart.CommandLine.Logger
import ChomskyChart.CommandLine.Run
import ChomskyChart.Event
import ChomskyChart.Gather
import ChomskyChart.Grammar.Alternative
import ChomskyChart.Grammar.Basic
import ChomskyChart.Grammar.Derivation
import ChomskyChart.Grammar.Language
import ChomskyChart.Grammar.NormalForm
import ChomskyChart.Grammar.Rules
import ChomskyChart.Grammar.Vocabulary
import ChomskyChart.Journal
import ChomskyChart.Layout.Grid
import ChomskyChart.Layout.Productions
import ChomskyChart.Layout.Report
import ChomskyChart.Location
import ChomskyChart.Main
import ChomskyChart.Proofs.Agreement
import ChomskyChart.Proofs.Alignment
import ChomskyChart.Proofs.Construction
import ChomskyChart.Proofs.Encoding
import ChomskyChart.Proofs.Exactness
import ChomskyChart.Proofs.FileReading
import ChomskyChart.Proofs.Filling
import ChomskyChart.Proofs.Header
import ChomskyChart.Proofs.Inclusion
import ChomskyChart.Proofs.Insertion
import ChomskyChart.Proofs.Legibility
import ChomskyChart.Proofs.LineGrammar
import ChomskyChart.Proofs.Lookup
import ChomskyChart.Proofs.Mirroring
import ChomskyChart.Proofs.OneWord
import ChomskyChart.Proofs.Outcome
import ChomskyChart.Proofs.Rearrangement
import ChomskyChart.Proofs.Records
import ChomskyChart.Proofs.Redeclaration
import ChomskyChart.Proofs.Redisplay
import ChomskyChart.Proofs.Relocation
import ChomskyChart.Proofs.Renaming
import ChomskyChart.Proofs.Reporting
import ChomskyChart.Proofs.Respelling
import ChomskyChart.Proofs.Rewriting
import ChomskyChart.Proofs.RoundTrip
import ChomskyChart.Proofs.RuleLine
import ChomskyChart.Proofs.Scanning
import ChomskyChart.Proofs.Splits
import ChomskyChart.Proofs.StartOverride
import ChomskyChart.Proofs.Subchart
import ChomskyChart.Proofs.Triangle
import ChomskyChart.Proofs.Unproduced
import ChomskyChart.Proofs.Wording
import ChomskyChart.Sorted.Map
import ChomskyChart.Sorted.Set
import ChomskyChart.Source.Document
import ChomskyChart.Source.Fault
import ChomskyChart.Source.Reading
import ChomskyChart.Source.Rule
import ChomskyChart.Source.Spelling
import ChomskyChart.Source.Token
import ChomskyChart.Source.Word
import ChomskyChart.Text.Blank
import ChomskyChart.Text.Lines
import ChomskyChart.Word
