import VocabTypes.Listing
import VocabTypes.Declaration.Json
import VocabTypes.Formats
import VocabTypes.Registry.Standard
import VocabTypes.Proofs.Acyclic
import VocabTypes.Proofs.Loading
import VocabTypes.Proofs.Interleaving
import VocabTypes.Proofs.PublicAlias
import VocabTypes.Proofs.Factors
import VocabTypes.Proofs.Rounds
import VocabTypes.Proofs.BaseAlias
import VocabTypes.Proofs.CheckedListing
import VocabTypes.Proofs.History
import VocabTypes.Proofs.Representation
import VocabTypes.Proofs.AddedClass
import VocabTypes.Proofs.LoadedGraph
import VocabTypes.Proofs.CallLog
import VocabTypes.Proofs.References
import VocabTypes.Proofs.Weight
import VocabTypes.Proofs.Undocumented
import VocabTypes.Proofs.LocalEffect
import VocabTypes.Proofs.Recovery
import VocabTypes.Proofs.RoundTrip
import VocabTypes.Proofs.Decision
import VocabTypes.Proofs.Inheritance
import VocabTypes.Proofs.GlobalOrder
import VocabTypes.Proofs.ArmOrder
import VocabTypes.Proofs.StableSort
import VocabTypes.Proofs.BaseParts
import VocabTypes.Proofs.NameClashes
import VocabTypes.Proofs.SkippedProperties
import VocabTypes.Proofs.PrintableTypes
import VocabTypes.Proofs.ShortNames
import VocabTypes.Proofs.Literals
import VocabTypes.Proofs.Headings
import VocabTypes.Proofs.CommentBlocks
import VocabTypes.Proofs.Ranges
import VocabTypes.Proofs.SortedViews
import VocabTypes.Proofs.GenerationReport
import VocabTypes.Proofs.AncestorSearch
import VocabTypes.Proofs.FieldSearch
import VocabTypes.Proofs.LocalNames
import VocabTypes.Proofs.StandardTypes
