import BlockTemplate.Cryptonote.HashingBlob
import BlockTemplate.Cryptonote.TransactionHash
import BlockTemplate.Cryptonote.PricingRecordBytes
import BlockTemplate.Native.BlockId
import BlockTemplate.Native.ExtraNonce
import BlockTemplate.Native.Share
import BlockTemplate.Native.Address
import BlockTemplate.Native.Base58Language
import BlockTemplate.Wire.Hex
import BlockTemplate.Wire.Uvarint
import BlockTemplate.Wire.CompactSize
import BlockTemplate.Wire.Reader
import BlockTemplate.Crypto.Sha2
import BlockTemplate.Crypto.TreeBranch
import BlockTemplate.Bitcoin.TransactionRoundTrip
import BlockTemplate.Bitcoin.RavenTemplate
import BlockTemplate.Bitcoin.RtmBalance
import BlockTemplate.Bitcoin.SeedCache
import BlockTemplate.Bitcoin.RavenScript
import BlockTemplate.Bitcoin.NumberPush
import BlockTemplate.Bitcoin.Base58Check
import BlockTemplate.Bitcoin.Pearl
import BlockTemplate.Cryptonote.TxExtraFields
import BlockTemplate.Native.AddressKeys
import BlockTemplate.Bitcoin.TemplateRuns
import BlockTemplate.Bitcoin.PearlRuns
import BlockTemplate.Crypto.TreePaths
import BlockTemplate.Crypto.KeccakSponge
import BlockTemplate.Bitcoin.RtmMining
import BlockTemplate.Cryptonote.TxExtraRuns
import BlockTemplate.Bitcoin.Difficulty
