import Wikidown.Main
import Wikidown.Proofs.Lines
import Wikidown.Proofs.TidyScan
import Wikidown.Proofs.FencedCode
import Wikidown.Proofs.CodeBlocks
import Wikidown.Proofs.PageLayout
import Wikidown.Proofs.Ink
import Wikidown.Proofs.KeptText
import Wikidown.Proofs.StruckText
import Wikidown.Proofs.Notices
import Wikidown.Proofs.Places
import Wikidown.Proofs.ShownNotices
import Wikidown.Proofs.References
import Wikidown.Proofs.Cuts
import Wikidown.Proofs.Spelling
import Wikidown.Proofs.Coverage
import Wikidown.Proofs.Linearization
import Wikidown.Proofs.Repair
import Wikidown.Proofs.TokenNodes
import Wikidown.Proofs.BlankLines
import Wikidown.Proofs.ContentLines
import Wikidown.Proofs.SteadyLines
import Wikidown.Proofs.WrappedCode
import Wikidown.Proofs.Resolution
import Wikidown.Proofs.FlattenedText
import Wikidown.Proofs.PartedTexts
import Wikidown.Proofs.Paragraphs
import Wikidown.Proofs.LineEnds
import Wikidown.Proofs.Edges
import Wikidown.Proofs.JsonBundles
import Wikidown.Proofs.HardBreaks
import Wikidown.Proofs.Runs
import Wikidown.Proofs.Delimiters
import Wikidown.Proofs.Transparency
import Wikidown.Proofs.Characters
import Wikidown.Proofs.Quotes
import Wikidown.Proofs.Outlines
import Wikidown.Proofs.CodeSpans
import Wikidown.Proofs.SplitTexts
import Wikidown.Proofs.Gaps
import Wikidown.Proofs.Tables
import Wikidown.Proofs.Locality
import Wikidown.Proofs.Decoding
import Wikidown.Proofs.ReadBack
import Wikidown.Proofs.Instants
import Wikidown.Proofs.TimestampText
import Wikidown.Proofs.TimestampForms
import Wikidown.Proofs.Timestamps
import Wikidown.Proofs.Seams
import Wikidown.Proofs.ShownTimestamps
import Wikidown.Proofs.Wrapping
import Wikidown.Proofs.Flanks
import Wikidown.Proofs.Arguments
import Wikidown.Proofs.Deliveries
