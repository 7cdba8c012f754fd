import CAbi.CommandLine.Run
import CAbi.Main
import CAbi.Proofs.Acceptance
import CAbi.Proofs.ByteBounds
import CAbi.Proofs.DeclarationOrder
import CAbi.Proofs.DeclaredNames
import CAbi.Proofs.EntriesByName
import CAbi.Proofs.FileToTable
import CAbi.Proofs.FirstFault
import CAbi.Proofs.HeaderProtocol
import CAbi.Proofs.KnownLayouts
import CAbi.Proofs.LayoutRelation
import CAbi.Proofs.MemberAlignment
import CAbi.Proofs.MissingLayout
import CAbi.Proofs.NameIndex
import CAbi.Proofs.Placement
import CAbi.Proofs.ReferencePaths
import CAbi.Proofs.RepeatedRequests
import CAbi.Proofs.RequestOrder
import CAbi.Proofs.RequestOutcomes
import CAbi.Proofs.ResolvedTypes
import CAbi.Proofs.SpellingGrammar
import CAbi.Proofs.SpellingRoundTrip
import CAbi.Proofs.TemplateCollisions
import CAbi.Proofs.TokenLayout
import CAbi.Proofs.UnambiguousText
import CAbi.Proofs.UnionLayout
import CAbi.Proofs.ZeroSize
