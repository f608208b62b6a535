import GraphCompare.Main
import GraphCompare.Files.Tree
import GraphCompare.Proofs.Edit.Metric
import GraphCompare.Proofs.Edit.Pruning
import GraphCompare.Proofs.Graph.History
import GraphCompare.Proofs.GraphML.Construction
import GraphCompare.Proofs.Hash.Layout
import GraphCompare.Proofs.Hash.Locality
import GraphCompare.Proofs.Similarity
import GraphCompare.Proofs.Similarity.Invariance
import GraphCompare.Proofs.Summary.Groups
import GraphCompare.Proofs.Graph.Listing
import GraphCompare.Proofs.Graph.Coherence
import GraphCompare.Proofs.Summary.Superedges
import GraphCompare.Proofs.Summary.Canonical
import GraphCompare.Proofs.Summary.Bisimulation
import GraphCompare.Proofs.Difference.Drawing
import GraphCompare.Proofs.Difference.Sharing
import GraphCompare.Proofs.Difference.Division
import GraphCompare.Proofs.Difference.Absence
import GraphCompare.Proofs.Difference.Distance
import GraphCompare.Proofs.Hash.Histories
import GraphCompare.Proofs.Hash.Listing
import GraphCompare.Proofs.Hash.Recovery
import GraphCompare.Proofs.Hash.Start
import GraphCompare.Proofs.Markup.Nesting
import GraphCompare.Proofs.GraphML.Truncation
import GraphCompare.Proofs.Markup.Escape
import GraphCompare.Proofs.Markup.Writer
import GraphCompare.Proofs.Decimal.Numeral
import GraphCompare.Proofs.GraphML.Outline
import GraphCompare.Proofs.GraphML.ReadBack
import GraphCompare.Proofs.GraphML.Denotation
import GraphCompare.Proofs.Markup.Forest
import GraphCompare.Proofs.GraphML.Role
import GraphCompare.Proofs.GraphML.SelfClosing
import GraphCompare.Proofs.GraphML.Meaning
import GraphCompare.Proofs.GraphML.Records
import GraphCompare.Proofs.Summary.Supernodes
import GraphCompare.Proofs.Graph.Query
import GraphCompare.Proofs.Markup.Pieces
import GraphCompare.Proofs.GraphML.Spelling
import GraphCompare.Proofs.Graph.Adjacency
import GraphCompare.Proofs.Json.Scalar
import GraphCompare.Proofs.Json.ReadBack
import GraphCompare.Proofs.Json.Form
import GraphCompare.Proofs.Graph.AdjacencyText
import GraphCompare.Proofs.Text.Front
import GraphCompare.Proofs.Graph.DotText
import GraphCompare.Proofs.Edit.Telescoping
import GraphCompare.Proofs.Json.Record
import GraphCompare.Proofs.Edit.Labels
import GraphCompare.Proofs.Summary.Rounds
