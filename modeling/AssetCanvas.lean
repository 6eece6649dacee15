import AssetCanvas.Graph.Validation
import AssetCanvas.Canvas
import AssetCanvas.Summary
import AssetCanvas.Preview.Positions
import AssetCanvas.Preview.Density.Grid
import AssetCanvas.Graph.Document
import AssetCanvas.Json.Reader
import AssetCanvas.Json.Printer
import AssetCanvas.Graph.Export
import AssetCanvas.Graph.Restore
import AssetCanvas.Proofs.Clashes
import AssetCanvas.Proofs.Forest
import AssetCanvas.Proofs.Assembling
import AssetCanvas.Proofs.Isomorphism
import AssetCanvas.Proofs.Canonicalization
import AssetCanvas.Proofs.Reloading
import AssetCanvas.Proofs.Refusals
import AssetCanvas.Proofs.Splitting
import AssetCanvas.Proofs.FailingPreviews
import AssetCanvas.Proofs.Coverage
import AssetCanvas.Proofs.EdgeOrder
import AssetCanvas.Proofs.Confinement
import AssetCanvas.Proofs.Anonymity
import AssetCanvas.Proofs.Idling
import AssetCanvas.Proofs.Truncation
import AssetCanvas.Proofs.Independence
import AssetCanvas.Proofs.SignedZeros
import AssetCanvas.Proofs.SimplexZeros
import AssetCanvas.Proofs.Tabulation
import AssetCanvas.Proofs.Correspondence
import AssetCanvas.Proofs.Locality
import AssetCanvas.Proofs.LocalHandlers
import AssetCanvas.Proofs.Stacking
import AssetCanvas.Proofs.Documents
import AssetCanvas.Proofs.Editing
import AssetCanvas.Proofs.NearestRoot
import AssetCanvas.Proofs.Reading
import AssetCanvas.Proofs.Amending
import AssetCanvas.Proofs.FloatOrder
import AssetCanvas.Proofs.Stalling
import AssetCanvas.Proofs.Thinning
import AssetCanvas.Proofs.NamedInputs
import AssetCanvas.Proofs.Replacing
import AssetCanvas.Proofs.Rows
import AssetCanvas.Proofs.ItemPorts
import AssetCanvas.Proofs.Violations
import AssetCanvas.Proofs.Census
import AssetCanvas.Proofs.Sameness
import AssetCanvas.Proofs.Chains
import AssetCanvas.Proofs.NoiseSeeds
import AssetCanvas.Proofs.SmoothExtrema
import AssetCanvas.Proofs.Lookup
import AssetCanvas.Proofs.LegacyPorts
import AssetCanvas.Proofs.Search
import AssetCanvas.Proofs.NearestTwo
