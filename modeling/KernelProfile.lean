import KernelProfile.Dwarf.Forest
import KernelProfile.Log.Progress
import KernelProfile.Main
import KernelProfile.Proofs.Reference
import KernelProfile.Proofs.Registration
import KernelProfile.Proofs.Merge
import KernelProfile.Proofs.Numbering
import KernelProfile.Proofs.Definition
import KernelProfile.Proofs.Dwarf.Member
import KernelProfile.Proofs.Dwarf.Reference
import KernelProfile.Proofs.Dwarf.Run
import KernelProfile.Proofs.Dwarf.Closure
import KernelProfile.Proofs.Dwarf.Loss
import KernelProfile.Proofs.Dwarf.SeenSet
import KernelProfile.Proofs.Dwarf.Repetition
import KernelProfile.Proofs.Memory
import KernelProfile.Proofs.Dwarf.Translate
import KernelProfile.Proofs.Profile.FieldSearch
import KernelProfile.Proofs.Profile.Walk
import KernelProfile.Proofs.Json.Token
import KernelProfile.Proofs.Json.RoundTrip
import KernelProfile.Proofs.Profile.RoundTrip
import KernelProfile.Proofs.Bytes
import KernelProfile.Proofs.Frame
import KernelProfile.Proofs.CodeView.Decode
import KernelProfile.Proofs.CodeView.Collect
import KernelProfile.Proofs.CodeView.TypeStream
import KernelProfile.Proofs.Pdb.AddressMap
import KernelProfile.Proofs.Pdb.PublicSymbol
import KernelProfile.Proofs.Pdb.File
import KernelProfile.Proofs.Dwarf.BitField
import KernelProfile.Proofs.CodeView.Member
import KernelProfile.Proofs.Members
import KernelProfile.Proofs.CodeView.BitField
import KernelProfile.Proofs.CodeView.Written
import KernelProfile.Proofs.Text.Utf8
import KernelProfile.Proofs.CodeView.RoundTrip
import KernelProfile.Proofs.Overlay
import KernelProfile.Proofs.Msf.Stream
import KernelProfile.Proofs.Msf.Directory
import KernelProfile.Proofs.Msf.Layout
import KernelProfile.Proofs.Msf.Truncation
import KernelProfile.Proofs.CodeView.Definitions
import KernelProfile.Proofs.CodeView.Array
import KernelProfile.Proofs.CodeView.Extent
import KernelProfile.Proofs.CodeView.Chain
import KernelProfile.Proofs.CodeView.FieldList
import KernelProfile.Proofs.CodeView.Closure
import KernelProfile.Proofs.CodeView.Forward
import KernelProfile.Proofs.CodeView.ArrayField
import KernelProfile.Proofs.Pdb.Rearrangement
import KernelProfile.Proofs.Pdb.DebugInformation
import KernelProfile.Proofs.Dwarf.Chain
import KernelProfile.Proofs.Dwarf.Enumerator
import KernelProfile.Proofs.Dwarf.Anomaly
import KernelProfile.Proofs.Text.Fields
import KernelProfile.Proofs.SystemMap.Grammar
import KernelProfile.Proofs.Text.Lines
import KernelProfile.Proofs.SystemMap.Boundaries
import KernelProfile.Proofs.Profile.Reported
import KernelProfile.Proofs.Variant
import KernelProfile.Proofs.Profile.Shape
import KernelProfile.Proofs.Profile.Normal
