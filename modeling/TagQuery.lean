import TagQuery.Compile
import TagQuery.Query.Tree
import TagQuery.Query.Parser
import TagQuery.Cache
import TagQuery.Command
import TagQuery.Command.Directory
import TagQuery.Main
import TagQuery.Proofs.Tokenization
import TagQuery.Proofs.Grammar
import TagQuery.Proofs.Parsing
import TagQuery.Proofs.Concealment
import TagQuery.Proofs.ErrorSpots
import TagQuery.Proofs.CachedSearch
import TagQuery.Proofs.Stages
import TagQuery.Proofs.Staleness
import TagQuery.Proofs.Interleaving
import TagQuery.Proofs.LateEntries
import TagQuery.Proofs.MessagePack
import TagQuery.Proofs.CaseFolding
import TagQuery.Proofs.Snapshots
import TagQuery.Proofs.StoreChanges
import TagQuery.Proofs.Consistency
import TagQuery.Proofs.Registry
import TagQuery.Proofs.Spacing
import TagQuery.Proofs.Places
import TagQuery.Proofs.Writing
import TagQuery.Proofs.Parameters
import TagQuery.Proofs.Placeholders
import TagQuery.Proofs.OnePass
import TagQuery.Proofs.Traversal
import TagQuery.Proofs.Batching
import TagQuery.Proofs.Joining
import TagQuery.Proofs.Precedence
import TagQuery.Proofs.LastingErrors
import TagQuery.Proofs.Synonyms
import TagQuery.Proofs.Arguments
import TagQuery.Proofs.Commands
import TagQuery.Proofs.Encodings
import TagQuery.Proofs.ShortWrites
import TagQuery.Proofs.Respacing
import TagQuery.Proofs.Concatenation
import TagQuery.Proofs.LetterCase
import TagQuery.Proofs.Misreading
import TagQuery.Proofs.Quotation
import TagQuery.Proofs.Readability
import TagQuery.Proofs.Shape
import TagQuery.Proofs.Fallbacks
import TagQuery.Proofs.NodeTokens
import TagQuery.Proofs.Indentation
import TagQuery.Proofs.ReportedTokens
import TagQuery.Proofs.Walks
