import HashCryptoLib.Lib.Cursor
import HashCryptoLib.Lib.Transducer
import HashCryptoLib.Lib.Search
import HashCryptoLib.Lib.Sha
import HashCryptoLib.Lib.KeyWrap
import HashCryptoLib.Lib.Chunks
import HashCryptoLib.Lib.Records
import HashCryptoLib.Lib.Hex
import HashCryptoLib.Lib.ChunkedBody
import HashCryptoLib.Lib.CheckedArray
import HashCryptoLib.Pgp.Packet
import HashCryptoLib.Pgp.Framing
import HashCryptoLib.Pgp.PacketForm
import HashCryptoLib.Pgp.PacketStream
import HashCryptoLib.Pgp.PacketTree
import HashCryptoLib.Pgp.RangeConfinement
import HashCryptoLib.Pgp.Armor
import HashCryptoLib.Pgp.Bzip2
import HashCryptoLib.Pgp.Mpi
import HashCryptoLib.Pgp.Primitives
import HashCryptoLib.Pgp.StandIn
import HashCryptoLib.Pgp.KeyPacket
import HashCryptoLib.Pgp.StringToKey
import HashCryptoLib.Pgp.Signature
import HashCryptoLib.Pgp.SignatureLayout
import HashCryptoLib.Pgp.HashPreimage
import HashCryptoLib.Pgp.SessionKey
import HashCryptoLib.Pgp.Own
import HashCryptoLib.Pgp.Peer
import HashCryptoLib.Pgp.SubkeyChoice
import HashCryptoLib.Pgp.PeerBlock
import HashCryptoLib.Pgp.Step
import HashCryptoLib.Pgp.Export
import HashCryptoLib.Pgp.PeerIdentity
import HashCryptoLib.Pgp.PeerReplacement
import HashCryptoLib.Pgp.Message
import HashCryptoLib.Pgp.MessageRoundTrip
import HashCryptoLib.Pgp.Verification
import HashCryptoLib.Pgp.HeldKeys
import HashCryptoLib.Pgp.KeyChoice
import HashCryptoLib.Pgp.Engine
import HashCryptoLib.Pgp.BufferRoundTrip
import HashCryptoLib.Pgp.SignedRoundTrip
import HashCryptoLib.Pgp.Soundness
import HashCryptoLib.Pgp.SignedContent
import HashCryptoLib.Pgp.Inspection
import HashCryptoLib.Pgp.FileVerification
import HashCryptoLib.Pgp.ClearSign
import HashCryptoLib.Pgp.ClearSignRoundTrip
import HashCryptoLib.Pgp.CompressionTransparency
import HashCryptoLib.Pgp.OwnState
import HashCryptoLib.Pgp.PrimaryFlag
import HashCryptoLib.Pgp.Faults
import HashCryptoLib.Pgp.Atomicity
import HashCryptoLib.Pgp.Revocation
import HashCryptoLib.Pgp.Passwords
import HashCryptoLib.Pgp.SecretExport
import HashCryptoLib.Pgp.FileDecryption
import HashCryptoLib.Pgp.LiteralDrain
import HashCryptoLib.Pgp.Dechunking
import HashCryptoLib.Pgp.SeipStream
import HashCryptoLib.Pgp.FileSafety
import HashCryptoLib.Lib.Results
import HashCryptoLib.Pgp.FileEncryption
import HashCryptoLib.Pgp.FileAcceptance
import HashCryptoLib.Pgp.FileFront
import HashCryptoLib.Pgp.FileExactness
import HashCryptoLib.Pgp.FileRoundTrip
import HashCryptoLib.Pgp.FileInterchange
import HashCryptoLib.Pgp.FileSigning
import HashCryptoLib.CryptoApi.ChunkedAead
import HashCryptoLib.CryptoApi.FileCalls
import HashCryptoLib.CryptoApi.FileFailure
import HashCryptoLib.CryptoApi.Cipher
import HashCryptoLib.CryptoApi.PasswordFormat
import HashCryptoLib.CryptoApi.StandIn
import HashCryptoLib.CryptoApi.Decoding
import HashCryptoLib.CryptoApi.PasswordRoundTrip
import HashCryptoLib.CryptoApi.Recombination
import HashCryptoLib.Pgp.State
import HashCryptoLib.Pgp.CheckedReads
import HashCryptoLib.Pgp.FieldsInside
import HashCryptoLib.Lib.BigEndian
import HashCryptoLib.Pgp.Bzip2Tables
import HashCryptoLib.Pgp.Bzip2Arrays
import HashCryptoLib.Pgp.Bzip2Reading
import HashCryptoLib.Pgp.Bzip2Confinement
import HashCryptoLib.Pgp.Bzip2Agreement
import HashCryptoLib.Pgp.Bzip2Format
import HashCryptoLib.Pgp.Bzip2Decoding
import HashCryptoLib.Pgp.Bzip2Symbols
import HashCryptoLib.Lib.Bwt
import HashCryptoLib.Lib.Buckets
import HashCryptoLib.Lib.Bits
import HashCryptoLib.Pgp.ArmorText
import HashCryptoLib.Pgp.OutputSizes
import HashCryptoLib.Pgp.SigningSizes
import HashCryptoLib.Pgp.EncryptionSizes
import HashCryptoLib.Wrapper.CommandLine
import HashCryptoLib.Utils.Base64
import HashCryptoLib.Utils.Padding
import HashCryptoLib.Utils.OutputGuards
import HashCryptoLib.Utils.Hex
import HashCryptoLib.Wrapper.Gpg
import HashCryptoLib.Wrapper.PeerKeys
import HashCryptoLib.Wrapper.Verdict
import HashCryptoLib.Wrapper.Scripts
import HashCryptoLib.Wrapper.Identity
import HashCryptoLib.Wrapper.PacketListing
import HashCryptoLib.Wrapper.ListingFormat
import HashCryptoLib.Wrapper.ListingReport
import HashCryptoLib.Wrapper.PacketInspection
import HashCryptoLib.Certificates.CmsService
import HashCryptoLib.CryptoApi.LegacyBuffer
import HashCryptoLib.Pgp.InspectionCalls
