import Restack.Loader
import Restack.Main
import Restack.Proofs.AnnotationContents
import Restack.Proofs.ArrayContents
import Restack.Proofs.BackwardBranches
import Restack.Proofs.CallArguments
import Restack.Proofs.CallHistories
import Restack.Proofs.ClassIndex
import Restack.Proofs.ClassMembers
import Restack.Proofs.ClassNames
import Restack.Proofs.ClassShape
import Restack.Proofs.CodeItems
import Restack.Proofs.ContainerClosure
import Restack.Proofs.DataBlocks
import Restack.Proofs.DebugLabels
import Restack.Proofs.DescriptorGrammar
import Restack.Proofs.EncodedValues
import Restack.Proofs.ExceptionEdges
import Restack.Proofs.ExceptionTable
import Restack.Proofs.ForwardJoins
import Restack.Proofs.FrameMerges
import Restack.Proofs.GroupHistories
import Restack.Proofs.HandlerOffsets
import Restack.Proofs.ItemLocality
import Restack.Proofs.JoinOrder
import Restack.Proofs.LabelledAddresses
import Restack.Proofs.Listings
import Restack.Proofs.Lowering.Recorded
import Restack.Proofs.MethodPolicies
import Restack.Proofs.NumberDecoding
import Restack.Proofs.OperandLayouts
import Restack.Proofs.OptionalIndices
import Restack.Proofs.ParameterRecords
import Restack.Proofs.Passes
import Restack.Proofs.Preservation
import Restack.Proofs.RegisterSlots
import Restack.Proofs.Stack.Balance
import Restack.Proofs.StringData
import Restack.Proofs.Switches
import Restack.Proofs.TreeReplay
import Restack.Proofs.TryRanges
import Restack.Proofs.VariableScopes
