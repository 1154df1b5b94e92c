import AbiConformance.Power
import AbiConformance.Bytes.LittleEndian
import AbiConformance.Ieee.Binary64
import AbiConformance.Ieee.Binary32
import AbiConformance.Memory.Pointer
import AbiConformance.Scalar
import AbiConformance.Accumulation
import AbiConformance.ElementType
import AbiConformance.Matrix.Shape
import AbiConformance.Matrix.View
import AbiConformance.Matrix.Owned
import AbiConformance.Sequence
import AbiConformance.Text
import AbiConformance.Memory.Basic
import AbiConformance.Memory.Typed
import AbiConformance.Memory.CString
import AbiConformance.Record.Numeric
import AbiConformance.Record.Counter
import AbiConformance.Record.Linked
import AbiConformance.Record.Composite
import AbiConformance.Record.Layout
import AbiConformance.Heap.Ledger
import AbiConformance.Heap.Script
import AbiConformance.Heap.Event
import AbiConformance.Heap.Arena
import AbiConformance.Heap.Block
import AbiConformance.Heap.Counter
import AbiConformance.Matrix.InMemory
import AbiConformance.Record.FieldInfo
import AbiConformance.Call.Basic
import AbiConformance.Random.Source
import AbiConformance.Random.ChaCha
import AbiConformance.Random.Sample
import AbiConformance.Session.Object
import AbiConformance.Session.Basic
import AbiConformance.Proofs.Memory.Array
import AbiConformance.Proofs.Memory.Region
import AbiConformance.Proofs.Memory.Addition
import AbiConformance.Proofs.Matrix.Traversal
import AbiConformance.Proofs.Matrix.LayoutAgreement
import AbiConformance.Proofs.Matrix.Footprint
import AbiConformance.Proofs.Record.Increment
import AbiConformance.Proofs.Record.IncrementAction
import AbiConformance.Proofs.Record.Footprint
import AbiConformance.Proofs.Call.Footprint
import AbiConformance.Proofs.Call.Commutation
import AbiConformance.Proofs.Heap.Allocation
import AbiConformance.Proofs.Heap.Custody
import AbiConformance.Proofs.Heap.Accounting
import AbiConformance.Proofs.Heap.Conservation
import AbiConformance.Proofs.Heap.Contents
import AbiConformance.Proofs.Heap.Trace
import AbiConformance.Proofs.Sum.Integers
import AbiConformance.Proofs.Record.Layout
import AbiConformance.Proofs.Record.Slots
import AbiConformance.Proofs.Record.Tables
import AbiConformance.Proofs.Record.Description
import AbiConformance.Proofs.Record.Placement
import AbiConformance.Proofs.Record.Transfer
import AbiConformance.Proofs.Record.Mutation
import AbiConformance.Proofs.Text.Truncation
import AbiConformance.Proofs.Text.Copy
import AbiConformance.Proofs.Record.RepeatedMutation
import AbiConformance.Proofs.Record.Sharing
import AbiConformance.Proofs.Matrix.Totality
import AbiConformance.Proofs.Matrix.Rows
import AbiConformance.Proofs.Matrix.Acceptance
import AbiConformance.Proofs.Memory.Words
import AbiConformance.Proofs.Sum.Counted
import AbiConformance.Proofs.Call.Assignment
import AbiConformance.Proofs.Ieee.Exact
import AbiConformance.Proofs.Sum.Assigned
import AbiConformance.Proofs.Matrix.ErrorText
import AbiConformance.Proofs.Matrix.Generation
import AbiConformance.Proofs.Sum.Headroom
import AbiConformance.Proofs.Matrix.Transposition
import AbiConformance.Proofs.Sum.Pairs
import AbiConformance.Proofs.Ieee.SignedZero
import AbiConformance.Proofs.Sum.SignedZero
import AbiConformance.Proofs.Call.Increments
import AbiConformance.Proofs.Random.Samples
import AbiConformance.Proofs.Heap.Refusal
import AbiConformance.Proofs.Heap.Header
import AbiConformance.Proofs.Heap.Filling
