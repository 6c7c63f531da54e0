import Cosimulation.Acceleration.Scheme
import Cosimulation.Config.Record
import Cosimulation.Exchange.Geometry
import Cosimulation.Exchange.SharedVertices
import Cosimulation.Mapping.Basic
import Cosimulation.Proofs.Aitken.Affine
import Cosimulation.Proofs.Exchange.Delivery
import Cosimulation.Proofs.Exchange.MeshMessages
import Cosimulation.Proofs.Exchange.MeshReception
import Cosimulation.Proofs.Exchange.Rounds
import Cosimulation.Proofs.Exchange.SharedSums
import Cosimulation.Proofs.Factorization.NormalEquations
import Cosimulation.Proofs.Factorization.Survivors
import Cosimulation.Proofs.Geometry.Degenerate
import Cosimulation.Proofs.Mapping.Outdated
import Cosimulation.Proofs.Mapping.Selection
import Cosimulation.Proofs.Mapping.Adjoint
import Cosimulation.Proofs.Mapping.Tagging
import Cosimulation.Proofs.Mapping.Ties
import Cosimulation.Proofs.Mesh.Lasting
import Cosimulation.Proofs.QuasiNewton.Filtering
import Cosimulation.Proofs.QuasiNewton.Occupancy
import Cosimulation.Proofs.QuasiNewton.ResidualShares
import Cosimulation.Proofs.QuasiNewton.Updates
import Cosimulation.Proofs.Scheme.BlockOrder
import Cosimulation.Proofs.Scheme.Footprint
import Cosimulation.Proofs.Scheme.Forgetful
import Cosimulation.Proofs.Scheme.Refusal
import Cosimulation.Proofs.Scheme.SingleBlock
import Cosimulation.Proofs.Search.BoxQueries
import Cosimulation.Wire.Hex
