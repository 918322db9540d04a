import StridedGrid.Boundary
import StridedGrid.Decimal.Shortest
import StridedGrid.Element.Basic
import StridedGrid.Element.Kind
import StridedGrid.Element.Rounding
import StridedGrid.Error
import StridedGrid.Shape
import StridedGrid.Grid.Basic
import StridedGrid.Grid.View
import StridedGrid.Json.Basic
import StridedGrid.Json.Read
import StridedGrid.Json.Write
import StridedGrid.Kernel.Copy
import StridedGrid.Kernel.Basic
import StridedGrid.Layout.Basic
import StridedGrid.Layout.Strides
import StridedGrid.Range
import StridedGrid.Service.Encode
import StridedGrid.Service.Fields
import StridedGrid.Service.Respond
import StridedGrid.Service.Serde
import StridedGrid.Session.Program
import StridedGrid.Session.Store
import StridedGrid.Traversal.Odometer
import StridedGrid.Word
import StridedGrid.Proofs.Box
import StridedGrid.Proofs.ViewBounds
import StridedGrid.Proofs.Representation
import StridedGrid.Proofs.ColumnWalk
import StridedGrid.Proofs.ViewAddressing
import StridedGrid.Proofs.Preservation
import StridedGrid.Proofs.StoreInvariant
import StridedGrid.Proofs.LoopOrder
import StridedGrid.Proofs.LoopNestPlan
import StridedGrid.Proofs.LoopNestWalk
import StridedGrid.Proofs.LoopNestExact
import StridedGrid.Proofs.Listing
import StridedGrid.Proofs.Contiguity
import StridedGrid.Proofs.BoundedWalk
import StridedGrid.Proofs.DistinctPositions
import StridedGrid.Proofs.WriteKernels
import StridedGrid.Proofs.MapInto
import StridedGrid.Proofs.Refusal
import StridedGrid.Proofs.DenseStrides
import StridedGrid.Proofs.Conversion
import StridedGrid.Proofs.RangeCompilation
import StridedGrid.Proofs.Folds
import StridedGrid.Proofs.Slicing
import StridedGrid.Proofs.BoundaryResolution
import StridedGrid.Proofs.Permutation
import StridedGrid.Proofs.Shifting
import StridedGrid.Proofs.NaturalRanges
import StridedGrid.Proofs.IntegerCasts
import StridedGrid.Proofs.ShapeValidation
import StridedGrid.Proofs.ColumnOrder
