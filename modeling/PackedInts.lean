import PackedInts.Text.Bytes
import PackedInts.Text.Numeral
import PackedInts.Error
import PackedInts.Width
import PackedInts.StreamState
import PackedInts.Sink.Basic
import PackedInts.Sink.Memory
import PackedInts.Sink.Scripted
import PackedInts.Sink.Stream
import PackedInts.Source.Basic
import PackedInts.Source.Memory
import PackedInts.Source.Scripted
import PackedInts.Source.Stream
import PackedInts.Packer
import PackedInts.Unpacker
import PackedInts.Packing
import PackedInts.Session.Packing
import PackedInts.Session.Unpacking
import PackedInts.Text.Words
import PackedInts.Text.ValueList
import PackedInts.Text.Base64
import PackedInts.FileTree.Path
import PackedInts.FileTree.Basic
import PackedInts.FileTree.Lookup
import PackedInts.FileTree.Access
import PackedInts.Command.Error
import PackedInts.Command.Request
import PackedInts.Command.Job
import PackedInts.Command.Run
import PackedInts.Main
import PackedInts.Bits
import PackedInts.Segment
import PackedInts.Proofs.BitString
import PackedInts.Proofs.Packing.Carrying
import PackedInts.Proofs.Packing.Layout
import PackedInts.Proofs.Packing.Turns
import PackedInts.Proofs.Unpacking.Reading
import PackedInts.Proofs.Unpacking.Reads
import PackedInts.Proofs.Unpacking.Retrying
import PackedInts.Proofs.RoundTrip
import PackedInts.Proofs.MixedStream
import PackedInts.Proofs.Text.Base64
import PackedInts.Proofs.FileTree.Writing
import PackedInts.Proofs.Command.Outcome
import PackedInts.Proofs.Text.ValueList
import PackedInts.Proofs.Command.Numerals
import PackedInts.Proofs.Command.Arguments
import PackedInts.Proofs.Command.RoundTrip
import PackedInts.Proofs.Unpacking.Mirroring
import PackedInts.Proofs.Repacking
import PackedInts.Proofs.Text.Base64Layout
import PackedInts.Proofs.FileTree.SameBut
import PackedInts.Proofs.Command.Base64
import PackedInts.Proofs.Unpacking.SizeCheck
import PackedInts.Proofs.Unpacking.EndOfData
import PackedInts.Proofs.Packing.Closing
import PackedInts.Proofs.Packing.Refinishing
import PackedInts.Proofs.Packing.Overfull
import PackedInts.Proofs.Packing.Capacity
import PackedInts.Proofs.Text.Base64Blocks
import PackedInts.Proofs.Text.Base64Canonical
import PackedInts.Proofs.Text.MaximalRuns
import PackedInts.Proofs.Text.ValueTokens
import PackedInts.Proofs.Text.NormalForm
import PackedInts.Proofs.Command.Unpacking
import PackedInts.Proofs.Command.Packing
import PackedInts.Proofs.Command.Numbers
import PackedInts.Proofs.Command.OptionLists
import PackedInts.Proofs.FileTree.Ancestors
import PackedInts.Proofs.FileTree.Effects
import PackedInts.Proofs.Watched
import PackedInts.Proofs.Packing.Bounds
import PackedInts.Proofs.Unpacking.Bounds
import PackedInts.Proofs.Bounds
import PackedInts.Text.Base64Codec
import PackedInts.Proofs.Text.Base64Codec
