import BlockTemplate.Bitcoin.BigInt
import BlockTemplate.Bitcoin.NonceWriting

/-!
# RTM templates

`RtmBlockTemplate` of `rtm.js` and what it builds the coinbase from: the
payouts, the two parts around the placeholder of the extra nonce, and the
transactions of the daemon, each of which has to be readable.
-/

namespace BlockTemplate.Rtm

variable (packages : Packages)

def maxRtmTemplateTransactions : Nat := 4999

def maxRtmTransactionBytes : Nat := 1024 * 1024

def maxRtmTemplateTransactionBytes : Nat := 64 * 1024 * 1024

/-- The answer of the daemon. -/
structure RtmRpcData where
  height : Int
  version : JsValue
  curtime : Int
  bits : JsValue
  previousblockhash : JsValue
  target : JsString
  coinbaseaux : JsValue
  coinbasevalue : Int
  coinbasePayload : JsValue
  coinbasedevreward : JsValue
  defaultWitnessCommitment : JsValue
  smartnode : JsValue
  superblock : JsValue
  founder : JsValue
  founderPaymentsStarted : JsValue
  transactions : JsValue

/-- `difficulty` is in units of `1 / DIFF_PRECISION`. -/
structure RtmTemplate where
  difficulty : Nat
  height : Int
  prevHash : JsString
  blocktemplateBlob : JsString
  reservedOffset : Nat

/-- The amount, if `isValidSatoshisAmount` holds of it. -/
def isValidSatoshisAmount (amount : JsValue) : Option Int :=
  amount.safeInteger.filter (0 ≤ ·)

def packInt64LE (num : JsValue) : Except String Bytes :=
  match isValidSatoshisAmount num with
  | none => .error "Invalid transaction amount"
  | some amount => do
    let low ← writeUIntLE 4 (amount % 2 ^ 32)
    let high ← writeUIntLE 4 (amount / 2 ^ 32)
    pure (low ++ high)

/-- The last branch packs a number that does not fit. -/
def varIntBuffer (n : Nat) : Except String Bytes :=
  if n < 0xfd then .ok [BitVec.ofNat 8 n]
  else if n ≤ 0xffff then (packUInt16LE n).map (0xfd :: ·)
  else if n ≤ 0xffffffff then (packUInt32LE n).map (0xfe :: ·)
  else (packUInt16LE n).map fun buff => 0xff :: (buff ++ List.replicate 6 0)

/-- The bytes behind the length; the buffer has room for eight. -/
def serializeDigits : Nat → Int → Except String Bytes
  | 0, _ => .error outOfRange
  | room + 1, n =>
    if 0x7f < n then
      (serializeDigits room (n / 256)).map (BitVec.ofInt 8 (n % 256) :: ·)
    else writeUIntLE 1 n

/-- "Serialized CScript" formatting. -/
def serializeNumber (n : Int) : Except String Bytes :=
  if 1 ≤ n ∧ n ≤ 16 then .ok [BitVec.ofInt 8 (0x50 + n)]
  else
    (serializeDigits 8 n).map fun digits =>
      BitVec.ofNat 8 digits.length :: digits

def asciiBytes (s : JsString) : Bytes :=
  s.map fun char => BitVec.ofNat 8 char.toNat

/-- `serializeString` of ASCII text. -/
def serializeString (s : JsString) : Except String Bytes :=
  if s.length < 253 then .ok (BitVec.ofNat 8 s.length :: asciiBytes s)
  else if s.length < 0x10000 then
    (packUInt16LE s.length).map fun size => 253 :: (size ++ asciiBytes s)
  else if s.length < 0x100000000 then
    (packUInt32LE s.length).map fun size => 254 :: (size ++ asciiBytes s)
  else
    (packUInt16LE s.length).map fun size => 255 :: (size ++ asciiBytes s)

def uint256BufferFromHash (hex : JsString) : Bytes :=
  let fromHex := ofHex hex
  if fromHex.length ≠ 32 then
    reverseBuffer (copy fromHex (List.replicate 32 0) 0 fromHex.length)
  else reverseBuffer fromHex

/-- What is left to pay, and the outputs so far. -/
structure Payouts where
  reward : Int
  rewardToPool : Int
  txOutputBuffers : List Bytes

def payeeScript (payee : JsValue) (payeeScriptArg : Option Bytes) :
    Except String Bytes :=
  match payeeScriptArg with
  | some script => .ok script
  | none => BitcoinUtils.addressToScript packages payee

def createTransactionOutput (amount payee : JsValue)
    (payeeScriptArg : Option Bytes) (payouts : Payouts) :
    Except String Payouts :=
  match isValidSatoshisAmount amount with
  | none => .error "Invalid payout amount"
  | some payeeReward => do
    throwIf
      (payouts.rewardToPool < payeeReward || payouts.reward < payeeReward)
      "Invalid payout amount"
    let script ← payeeScript packages payee payeeScriptArg
    let value ← packInt64LE amount
    let size ← varIntBuffer script.length
    pure
      { reward := toDouble (payouts.reward - payeeReward)
        rewardToPool := toDouble (payouts.rewardToPool - payeeReward)
        txOutputBuffers :=
          payouts.txOutputBuffers ++ [value ++ size ++ script] }

def isHexText (text : JsString) : Bool :=
  text.all fun char => (hexValue char).isSome

def validateCoinbaseDevReward (coinbaseDevReward : JsValue)
    (rewardToPool : Int) : Except String Bool :=
  if !coinbaseDevReward.truthy || !coinbaseDevReward.isObject then .ok false
  else do
    let value ← coinbaseDevReward.get .value
    let scriptpubkey ← coinbaseDevReward.get .scriptpubkey
    match isValidSatoshisAmount value, scriptpubkey with
    | some amount, .string text =>
      pure (amount ≤ rewardToPool && !text.isEmpty &&
        text.length % 2 == 0 && isHexText text)
    | _, _ => pure false

def hasValidCoinbaseDevReward (rpcData : RtmRpcData) : Except String Bool :=
  if rpcData.coinbasedevreward.isMissing then .ok false
  else do
    let valid ←
      validateCoinbaseDevReward rpcData.coinbasedevreward
        rpcData.coinbasevalue
    throwIf (!valid) "Invalid coinbase dev reward"
    pure true

/-- The dev reward comes on top of the coinbase value. -/
def payDevReward (rpcData : RtmRpcData) (hasDevReward : Bool) :
    Except String Payouts :=
  if hasDevReward then do
    let value ← rpcData.coinbasedevreward.get .value
    let scriptpubkey ← rpcData.coinbasedevreward.get .scriptpubkey
    let script ← packages.hexBuffer scriptpubkey
    let reward :=
      toDouble (rpcData.coinbasevalue + (value.safeInteger.getD 0))
    createTransactionOutput packages value .null (some script)
      { reward, rewardToPool := reward, txOutputBuffers := [] }
  else
    pure
      { reward := rpcData.coinbasevalue, rewardToPool := rpcData.coinbasevalue
        txOutputBuffers := [] }

def payEntry (payouts : Payouts) (entry : JsValue) :
    Except String Payouts := do
  let amount ← entry.get .amount
  let payee ← entry.get .payee
  createTransactionOutput packages amount payee none payouts

def paySmartnode (smartnode : JsValue) (payouts : Payouts) :
    Except String Payouts :=
  if smartnode.truthy then do
    let payee ← smartnode.get .payee
    if payee.truthy then payEntry packages payouts smartnode
    else
      match smartnode with
      | .array items => items.foldlM (payEntry packages) payouts
      | _ => pure payouts
  else pure payouts

def paySuperblock (superblock : JsValue) (payouts : Payouts) :
    Except String Payouts :=
  if superblock.truthy then
    superblock.entries.foldlM (payEntry packages) payouts
  else pure payouts

def payFounder (rpcData : RtmRpcData) (payouts : Payouts) :
    Except String Payouts :=
  if rpcData.founderPaymentsStarted.truthy && rpcData.founder.truthy then do
    let amount ← rpcData.founder.get .amount
    let payee ← rpcData.founder.get .payee
    createTransactionOutput packages (amount.orElse (.number 0)) payee none
      payouts
  else pure payouts

/-- The rewards that are left are not updated. -/
def payPool (poolAddress : JsValue) (payouts : Payouts) :
    Except String Payouts := do
  let script ← BitcoinUtils.addressToScript packages poolAddress
  let paid ←
    createTransactionOutput packages (.number payouts.rewardToPool) .null
      (some script) payouts
  pure { payouts with txOutputBuffers := paid.txOutputBuffers }

/-- The commitment, and the witness of the coinbase behind the outputs. -/
def payCommitment (rpcData : RtmRpcData) (payouts : Payouts) :
    Except String (List Bytes) :=
  if rpcData.defaultWitnessCommitment.truthy then do
    let script ← packages.hexBuffer rpcData.defaultWitnessCommitment
    let paid ←
      createTransactionOutput packages (.number 0) .null (some script) payouts
    let items ← varIntBuffer 1
    let size ← varIntBuffer 32
    pure (paid.txOutputBuffers ++ [items ++ size ++ List.replicate 32 0])
  else pure payouts.txOutputBuffers

/-- The witness is not counted. -/
def generateTransactionOutputs (rpcData : RtmRpcData) (poolAddress : JsValue)
    (hasDevReward : Bool) : Except String Bytes := do
  let payouts ← payDevReward packages rpcData hasDevReward
  let payouts ← paySmartnode packages rpcData.smartnode payouts
  let payouts ← paySuperblock packages rpcData.superblock payouts
  let payouts ← payFounder packages rpcData payouts
  let payouts ← payPool packages poolAddress payouts
  let txOutputBuffers ← payCommitment packages rpcData payouts
  let count ←
    varIntBuffer
      (if rpcData.defaultWitnessCommitment.truthy then
        txOutputBuffers.length - 1
      else txOutputBuffers.length)
  pure (count ++ txOutputBuffers.flatten)

def extraNoncePlaceholder : Bytes :=
  List.replicate 17 0xcc

def coinbaseVersion (hasDevReward : Bool) : Except String Bytes :=
  if hasDevReward then do
    let version ← packUInt16LE 1
    let type ← packUInt16LE 0
    pure (version ++ type)
  else do
    let version ← packUInt16LE 3
    let type ← packUInt16LE 5
    pure (version ++ type)

/-- `now` is in seconds. -/
def scriptSigPart1 (rpcData : RtmRpcData) (now : Int) :
    Except String Bytes := do
  throwIf (!rpcData.coinbaseaux.truthy || !rpcData.coinbaseaux.isObject)
    "Invalid RTM coinbaseaux"
  let height ← serializeNumber rpcData.height
  let flags ← rpcData.coinbaseaux.get .flags
  let flags ← packages.hexBuffer (flags.orElse (.string []))
  let date ← serializeNumber now
  pure (height ++ flags ++ date ++
    [BitVec.ofNat 8 extraNoncePlaceholder.length])

def scriptSigPart2 : Except String Bytes :=
  serializeString "/nodeStratum/".toList

def isWitness (rpcData : RtmRpcData) : Bool :=
  !rpcData.defaultWitnessCommitment.isUndefined

/-- `blob1`. -/
def coinbaseHead (rpcData : RtmRpcData) (version part1 part2 : Bytes) :
    Except String Bytes := do
  let marker := ofHex (if isWitness rpcData then "0001".toList else [])
  let txInputsCount ← varIntBuffer 1
  let txInPrevOutHash := uint256BufferFromHash []
  let txInPrevOutIndex ← packUInt32LE (2 ^ 32 - 1)
  let scriptSize ←
    varIntBuffer (part1.length + extraNoncePlaceholder.length + part2.length)
  pure (version ++ marker ++ txInputsCount ++ txInPrevOutHash ++
    txInPrevOutIndex ++ scriptSize ++ part1)

def coinbasePayload (rpcData : RtmRpcData) : Except String Bytes :=
  if rpcData.coinbasePayload.truthy then
    packages.hexBuffer rpcData.coinbasePayload
  else .ok []

/-- The payload comes behind the lock time if there is one, whatever the
version, and for a type of transaction that has one. -/
def payloadBytes (rpcData : RtmRpcData) (version : Bytes) :
    Except String Bytes :=
  if rpcData.coinbasePayload.truthy || leValue (version.drop 2) != 0 then do
    let payload ← coinbasePayload packages rpcData
    let size ← varIntBuffer payload.length
    pure (size ++ payload)
  else .ok []

/-- `blob2`. -/
def coinbaseTail (rpcData : RtmRpcData) (poolAddress : JsValue)
    (hasDevReward : Bool) (version part2 : Bytes) : Except String Bytes := do
  let txInSequence ← packUInt32LE 0
  let outputs ←
    generateTransactionOutputs packages rpcData poolAddress hasDevReward
  let txLockTime ← packUInt32LE 0
  let payload ← payloadBytes packages rpcData version
  pure (part2 ++ txInSequence ++ outputs ++ txLockTime ++ payload)

def validateRtmTransaction (buffer : Bytes) : Except String Unit := do
  let (_, rest) ← (readTransaction true).run buffer
  throwIf (!rest.isEmpty) "Transaction has unexpected data"

def decodeRtmTransactionData (tx : JsValue) : Except String Bytes :=
  if !tx.truthy then .error "Invalid RTM transaction data"
  else do
    match ← tx.get .data with
    | .string data =>
      throwIf (data.length % 2 != 0) "Invalid RTM transaction data"
      throwIf (maxRtmTransactionBytes < data.length / 2)
        "RTM transaction data is too large"
      throwIf (!isHexText data) "Invalid RTM transaction data"
      pure (ofHex data)
    | _ => throw "Invalid RTM transaction data"

def describeRtmTransaction (tx : JsValue) : String :=
  match tx.truthy, tx.get .data with
  | true, .ok (.string data) =>
    toString (data.length / 2) ++ (if data.length % 2 = 0 then "" else ".5") ++
      " byte transaction"
  | _, _ => "invalid transaction data"

/-- The block of the loop that is tried. -/
def validTransactionData (tx : JsValue) : Except String Bytes := do
  let txBuffer ← decodeRtmTransactionData tx
  validateRtmTransaction txBuffer
  pure txBuffer

def readDaemonTransaction (tx : JsValue) : Except String Bytes :=
  match validTransactionData tx with
  | .ok txBuffer => .ok txBuffer
  | .error message =>
    .error ("Unparseable RTM transaction (" ++ describeRtmTransaction tx ++
      "): " ++ message)

/-- The loop over the transactions; `txBytes` is the size of those before. -/
def readDaemonTransactions : List JsValue → Nat → Except String (List Bytes)
  | [], _ => .ok []
  | tx :: others, txBytes => do
    let txBuffer ← readDaemonTransaction tx
    throwIf (maxRtmTemplateTransactionBytes < txBytes + txBuffer.length)
      "RTM transaction data is too large"
    let txs ← readDaemonTransactions others (txBytes + txBuffer.length)
    pure (txBuffer :: txs)

def daemonTransactions (transactions : JsValue) : Except String (List Bytes) :=
  match transactions with
  | .array items => do
    throwIf (maxRtmTemplateTransactions < items.length)
      "Too many RTM transactions"
    readDaemonTransactions items 0
  | _ => .error "Invalid RTM transactions"

def packVersion (version : JsValue) : Except String Bytes :=
  match version with
  | .number num =>
    if num < -0x80000000 ∨ 0x7fffffff < num then .error "Invalid RTM version"
    else packInt32LE num
  | _ => .error "Invalid RTM version"

/-- The fields of the header that depend on the request. -/
structure Header where
  prevHash : Bytes
  version : Bytes
  curtime : Bytes
  bits : Bytes

def blockHeader (rpcData : RtmRpcData) : Except String Header := do
  let prevHashBuf ←
    packages.hexBuffer (rpcData.previousblockhash.orElse (.string []))
  throwIf (prevHashBuf.length != 32) "Invalid RTM previousblockhash"
  let version ← packVersion rpcData.version
  let curtime ← packUInt32LE rpcData.curtime
  let bits ← packages.hexBuffer rpcData.bits
  throwIf (bits.length != 4) "Invalid RTM bits"
  pure
    { prevHash := reverseBuffer prevHashBuf, version, curtime
      bits := reverseBuffer bits }

/-- `RtmBlockTemplate`. -/
def RtmBlockTemplate (rpcData : RtmRpcData) (poolAddress : JsValue)
    (now : Int) : Except String RtmTemplate := do
  let hasDevReward ← hasValidCoinbaseDevReward rpcData
  let version ← coinbaseVersion hasDevReward
  let part1 ← scriptSigPart1 packages rpcData now
  let part2 ← scriptSigPart2
  let blob1 ← coinbaseHead rpcData version part1 part2
  let blob2 ←
    coinbaseTail packages rpcData poolAddress hasDevReward version part2
  let header ← blockHeader packages rpcData
  let txs ← daemonTransactions rpcData.transactions
  let txn ← varIntBuffer (txs.length + 1)
  let difficulty ←
    BigInt.difficultyToFloat BigInt.baseDiff rpcData.target "RTM target"
  pure
    { difficulty
      height := rpcData.height
      prevHash := toHex header.prevHash
      blocktemplateBlob :=
        toHex header.version ++ toHex header.prevHash ++
          toHex (List.replicate 32 0) ++ toHex header.curtime ++
          toHex header.bits ++ toHex (List.replicate 4 0) ++ toHex txn ++
          toHex blob1 ++ toHex extraNoncePlaceholder ++ toHex blob2 ++
          toHex txs.flatten
      reservedOffset := 80 + txn.length + blob1.length }

end BlockTemplate.Rtm
