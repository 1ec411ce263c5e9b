import CilTemplate.Template
import CilTemplate.Accessor.Draft
import CilTemplate.Sink.Emitter
import CilTemplate.Sink.Transcript
import CilTemplate.Proofs.Entries
import CilTemplate.Proofs.Accessor.Definition
import CilTemplate.Proofs.Accessor.Recording
import CilTemplate.Proofs.Accessor.Execution
import CilTemplate.Proofs.Accessor.ClaimOnce
import CilTemplate.Proofs.FailedPass
import CilTemplate.Proofs.Code.KnownOpcodes
import CilTemplate.Proofs.Emission.Emit
import CilTemplate.Proofs.Emission.StackPaths
import CilTemplate.Proofs.Bytes.Reading
import CilTemplate.Proofs.Bytes.Windows
import CilTemplate.Proofs.Code.Constants
import CilTemplate.Proofs.Code.Correspondence
import CilTemplate.Proofs.Code.TypedForms
import CilTemplate.Proofs.Emission.Encode
import CilTemplate.Proofs.Emission.Layout
import CilTemplate.Proofs.Emission.ReadBack
import CilTemplate.Proofs.Code.Addresses
import CilTemplate.Proofs.Emission.ReadBody
import CilTemplate.Proofs.Emission.RoundTrip
import CilTemplate.Proofs.Expansion.TemplateCode
import CilTemplate.Proofs.Expansion.Lookahead
import CilTemplate.Proofs.Expansion.Sites
import CilTemplate.Proofs.Expansion.Accessors
import CilTemplate.Proofs.Expansion.Nesting
import CilTemplate.Proofs.Decoding.Grammar
import CilTemplate.Proofs.Decoding.Bodies
import CilTemplate.Proofs.Decoding.Decoded
import CilTemplate.Proofs.Emission.Narrowing
import CilTemplate.Proofs.Emission.Pieces
import CilTemplate.Proofs.Emission.Parallel
import CilTemplate.Proofs.Emission.Relocation
import CilTemplate.Proofs.Emission.Normal
import CilTemplate.Proofs.Expansion.Cutting
import CilTemplate.Proofs.Expansion.Trace
import CilTemplate.Proofs.Expansion.Tracing
import CilTemplate.Proofs.Expansion.Remainder
import CilTemplate.Proofs.Expansion.Depth
import CilTemplate.Proofs.Expansion.Partition
import CilTemplate.Proofs.Expansion.Effects
import CilTemplate.Proofs.Expansion.Delegates
import CilTemplate.Proofs.Expansion.Balance
import CilTemplate.Proofs.Expansion.Cells
import CilTemplate.Proofs.Expansion.Sharing
import CilTemplate.Proofs.Expansion.HandOver
import CilTemplate.Proofs.Emission.Validation
import CilTemplate.Proofs.Decoding.Closed
import CilTemplate.Proofs.Expansion.Insertions
import CilTemplate.Proofs.Encodable
import CilTemplate.Proofs.Emission.Reached
import CilTemplate.Proofs.Emission.ShortForms
import CilTemplate.Proofs.Emission.Rejection
import CilTemplate.Proofs.Emission.Histories
import CilTemplate.Proofs.Emission.Requests
import CilTemplate.Proofs.Emission.StackEffects
import CilTemplate.Proofs.Emission.FailedRequests
import CilTemplate.Proofs.Emission.Strings
import CilTemplate.Proofs.Decoding.OpenParameters
import CilTemplate.Proofs.Expansion.Arguments
import CilTemplate.Proofs.Expansion.Reads
import CilTemplate.Proofs.Emission.Literals
