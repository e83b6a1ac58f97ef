import BytePack.Session
import BytePack.Record.Json
import BytePack.Proofs.Bounds
import BytePack.Proofs.Cursors
import BytePack.Proofs.LastStore
import BytePack.Proofs.RoundTrip
import BytePack.Proofs.Lemmas.Scanning
import BytePack.Proofs.Grammar
import BytePack.Proofs.Lemmas.Taking
import BytePack.Proofs.Acceptance
import BytePack.Proofs.Lemmas.ReadInPlace
import BytePack.Proofs.ReaderBounds
import BytePack.Proofs.Lemmas.Restoring
import BytePack.Proofs.Repacking
import BytePack.Proofs.Lemmas.Pieces
import BytePack.Proofs.Lemmas.GroupScanning
import BytePack.Proofs.Pieces
import BytePack.Proofs.Lemmas.Demands
import BytePack.Proofs.Lemmas.Supply
import BytePack.Proofs.Arguments
import BytePack.Proofs.Lemmas.Stars
import BytePack.Proofs.Settled
import BytePack.Proofs.Lemmas.CheckedSizing
import BytePack.Proofs.Lemmas.ExactCursor
import BytePack.Proofs.Overflow
import BytePack.Proofs.Concatenation
import BytePack.Proofs.Clamps
import BytePack.Proofs.Lemmas.Akin
import BytePack.Proofs.Lemmas.Recoding
import BytePack.Proofs.Lemmas.Turning
import BytePack.Proofs.ByteOrders
import BytePack.Proofs.Lemmas.Spots
import BytePack.Proofs.Noninterference
import BytePack.Proofs.Insertions
import BytePack.Proofs.Embedding
import BytePack.Proofs.OutputSize
import BytePack.Proofs.Lemmas.Refusals
import BytePack.Proofs.Reporting
import BytePack.Proofs.Lemmas.CutNames
import BytePack.Proofs.NameLimit
import BytePack.Proofs.Nibbles
import BytePack.Proofs.Lemmas.DecimalIntegers
import BytePack.Proofs.Lemmas.Recasting
import BytePack.Proofs.DecimalTexts
import BytePack.Proofs.Lemmas.Truncating
import BytePack.Proofs.Truncation
import BytePack.Proofs.IntegerWords
import BytePack.Proofs.FloatWords
import BytePack.Proofs.Lemmas.Delimiting
import BytePack.Proofs.RecordTexts
import BytePack.Proofs.Lemmas.Layering
import BytePack.Proofs.Lemmas.Readers
import BytePack.Proofs.Layers
