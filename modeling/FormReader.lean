import FormReader.Bounded
import FormReader.Bytes
import FormReader.Decimal.Counted
import FormReader.Decimal.Double
import FormReader.Decimal.Shortest
import FormReader.Decimal.Written
import FormReader.Display
import FormReader.Failure
import FormReader.Files
import FormReader.Form.Basic
import FormReader.Form.Text
import FormReader.Hash.Blake2b
import FormReader.Json.Number
import FormReader.Json.Read
import FormReader.Json.Skip
import FormReader.Json.Text
import FormReader.Json.Write
import FormReader.Line
import FormReader.LineEditor
import FormReader.Main
import FormReader.Options.Basic
import FormReader.Options.Flags
import FormReader.Options.Number
import FormReader.Packed.Decode
import FormReader.Packed.Encode
import FormReader.Packed.Skip
import FormReader.Packed.Stream
import FormReader.Packed.Wire
import FormReader.Program
import FormReader.Reader.Basic
import FormReader.Reader.Cursor
import FormReader.Reader.Error
import FormReader.Reader.Scan
import FormReader.Reader.Sessions
import FormReader.Repl.Basic
import FormReader.Repl.Start
import FormReader.Source
import FormReader.SymbolTable
import FormReader.Text.Quoted
import FormReader.Text.Utf8
import FormReader.Transcript.Archive
import FormReader.Transcript.Basic
import FormReader.Value.Basic
import FormReader.Value.Import
import FormReader.Value.Unpack
import FormReader.Proofs.AnyTable
import FormReader.Proofs.Arrays
import FormReader.Proofs.Batches
import FormReader.Proofs.BoundedPasses
import FormReader.Proofs.BoundedReads
import FormReader.Proofs.Buffers
import FormReader.Proofs.Carried
import FormReader.Proofs.CommandWords
import FormReader.Proofs.Completions
import FormReader.Proofs.CursorReading
import FormReader.Proofs.CutStream
import FormReader.Proofs.CutTranscript
import FormReader.Proofs.Data
import FormReader.Proofs.DataDecoded
import FormReader.Proofs.DataUnpacked
import FormReader.Proofs.Emission
import FormReader.Proofs.Encoded
import FormReader.Proofs.Encoders
import FormReader.Proofs.Equality
import FormReader.Proofs.Fetches
import FormReader.Proofs.Framing
import FormReader.Proofs.Grammar
import FormReader.Proofs.HeldSymbols
import FormReader.Proofs.IndexedTable
import FormReader.Proofs.Injectivity
import FormReader.Proofs.Interning
import FormReader.Proofs.JoinedLines
import FormReader.Proofs.JsonForms
import FormReader.Proofs.JsonText
import FormReader.Proofs.Layout
import FormReader.Proofs.LimitedOutput
import FormReader.Proofs.LineBreaks
import FormReader.Proofs.OpenLists
import FormReader.Proofs.PlainValues
import FormReader.Proofs.PrettyLines
import FormReader.Proofs.Printed
import FormReader.Proofs.PrintedBatches
import FormReader.Proofs.ReadForms
import FormReader.Proofs.Reading
import FormReader.Proofs.Recovery
import FormReader.Proofs.RefusedTokens
import FormReader.Proofs.RoundTrip
import FormReader.Proofs.Saved
import FormReader.Proofs.SessionDisplay
import FormReader.Proofs.SessionLines
import FormReader.Proofs.SessionTranscript
import FormReader.Proofs.SharedTables
import FormReader.Proofs.Sizes
import FormReader.Proofs.SpreadTokens
import FormReader.Proofs.StreamLines
import FormReader.Proofs.StreamedForms
import FormReader.Proofs.StreamsAsBytes
import FormReader.Proofs.TableUses
import FormReader.Proofs.TakenTokens
import FormReader.Proofs.TakenValues
import FormReader.Proofs.TextsAsStreams
import FormReader.Proofs.Tokens
import FormReader.Proofs.Turns
import FormReader.Proofs.Utf8
import FormReader.Proofs.ValuesRead
import FormReader.Proofs.WellFormed
import FormReader.Proofs.Wire
import FormReader.Proofs.WordDigits
