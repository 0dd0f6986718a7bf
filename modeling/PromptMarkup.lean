import PromptMarkup.Markup.Single
import PromptMarkup.PromptSet
import PromptMarkup.Session
import PromptMarkup.Workflow.Registry
import PromptMarkup.Proofs.TreeNodes
import PromptMarkup.Proofs.CacheContents
import PromptMarkup.Proofs.IncrementalRuns
import PromptMarkup.Proofs.BracketText
import PromptMarkup.Proofs.GroupText
import PromptMarkup.Proofs.PieceRules
import PromptMarkup.Proofs.CanonicalText
import PromptMarkup.Proofs.SwappedText
import PromptMarkup.Proofs.Rereading
import PromptMarkup.Proofs.CanonicalExpansion
import PromptMarkup.Proofs.CanonicalTree
import PromptMarkup.Proofs.TreeReading
import PromptMarkup.Proofs.UnitDraws
import PromptMarkup.Proofs.RecursiveExpansion
import PromptMarkup.Proofs.TreeExpansion
import PromptMarkup.Proofs.CompleteExpansion
import PromptMarkup.Proofs.NormalForm
import PromptMarkup.Proofs.WellMadeTree
import PromptMarkup.Proofs.DeletedCharacters
import PromptMarkup.Proofs.RepeatedNormalization
import PromptMarkup.Proofs.TreeParents
import PromptMarkup.Proofs.DependencyReach
import PromptMarkup.Proofs.RecordedDependencies
import PromptMarkup.Proofs.DependencyRuns
import PromptMarkup.Proofs.ExpandingRequests
import PromptMarkup.Proofs.StableReading
import PromptMarkup.Proofs.CheckedReading
import PromptMarkup.Proofs.PresetMarks
import PromptMarkup.Proofs.CondensedTree
import PromptMarkup.Proofs.NormalizedTree
import PromptMarkup.Proofs.ClosedText
import PromptMarkup.Proofs.JoinedPrompts
import PromptMarkup.Proofs.DamagedTrees
import PromptMarkup.Proofs.CacheIndex
import PromptMarkup.Proofs.LeastRecentlyUsed
import PromptMarkup.Proofs.CacheRefinement
import PromptMarkup.Proofs.DependencyEntries
import PromptMarkup.Proofs.BrokenCompilations
import PromptMarkup.Proofs.SingleSegments
import PromptMarkup.Proofs.NestingDepth
import PromptMarkup.Proofs.SpanLevels
import PromptMarkup.Proofs.TreeInvalidation
import PromptMarkup.Proofs.LargerCache
import PromptMarkup.Proofs.AppendedText
import PromptMarkup.Proofs.ReusedTexts
import PromptMarkup.Proofs.Places
import PromptMarkup.Proofs.RemovedPlaces
import PromptMarkup.Proofs.RemovedSubtree
import PromptMarkup.Proofs.JoinedRuns
import PromptMarkup.Proofs.SplitTexts
import PromptMarkup.Proofs.MergedObjects
import PromptMarkup.Proofs.PatchedSegments
import PromptMarkup.Proofs.ValidEdits
import PromptMarkup.Proofs.TrimmedText
import PromptMarkup.Proofs.ValueLines
import PromptMarkup.Proofs.OptionLists
import PromptMarkup.Proofs.FolderTrees
import PromptMarkup.Proofs.NameOrder
import PromptMarkup.Proofs.PresetLibraries
import PromptMarkup.Proofs.FolderLabels
import PromptMarkup.Proofs.BracketWords
import PromptMarkup.Proofs.AcceptedOptions
import PromptMarkup.Proofs.RoundedQuotients
import PromptMarkup.Proofs.ShownWeights
import PromptMarkup.Proofs.StoredTints
import PromptMarkup.Proofs.ReportLines
