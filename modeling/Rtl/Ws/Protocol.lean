import Mathlib.Algebra.Group.Nat.Defs
import Rtl.Ws.Json

/-! # Messages and file transfers

The message format of the server and the transfer of a file in chunks. Sizes are
`size_t` and wrap around at 2^64.
-/

namespace Rtl.Ws

structure JsonMessage where
  id : String := ""
  correlationId : String := ""
  kind : String := "event"
  ts : String := ""
  room : String := ""
  type : String := ""
  sender : String := ""
  version : String := "1"
  error : Option String := none
  payload : Json := .object []
  metadata : Json := .object []

def messageToJson (msg : JsonMessage) : Json :=
  let j := Json.null
  let j := j.set "id" (.string msg.id)
  let j := j.set "correlation_id" (.string msg.correlationId)
  let j := j.set "kind" (.string msg.kind)
  let j := j.set "ts" (.string msg.ts)
  let j := j.set "room" (.string msg.room)
  let j := j.set "type" (.string msg.type)
  let j := j.set "sender" (.string msg.sender)
  let j := j.set "version" (.string msg.version)
  let j := match msg.error with
    | some error => j.set "error" (.string error)
    | none => j
  let j := j.set "payload" msg.payload
  j.set "meta" msg.metadata

/-- A missing field keeps its default; a field that is not a string fails. -/
def readStringField (j : Json) (key target : String) : Option String :=
  match j.find key with
  | none => some target
  | some (.string value) => some value
  | some _ => none

def readError (j : Json) : Option (Option String) :=
  match j.find "error" with
  | none => some none
  | some .null => some none
  | some (.string value) => some (some value)
  | some _ => none

def jsonToMessage (j : Json) : Option JsonMessage :=
  if !j.isObject then none
  else do
    let id ← readStringField j "id" ""
    let correlationId ← readStringField j "correlation_id" ""
    let kind ← readStringField j "kind" "event"
    let ts ← readStringField j "ts" ""
    let room ← readStringField j "room" ""
    let type ← readStringField j "type" ""
    let sender ← readStringField j "sender" ""
    let version ← readStringField j "version" "1"
    let error ← readError j
    some { id, correlationId, kind, ts, room, type, sender, version, error
           payload := (j.find "payload").getD (.object [])
           metadata := (j.find "meta").getD (.object []) }

def stringToMessage (parse : List UInt8 → Option Json) (text : List UInt8) : Option JsonMessage :=
  (parse text).bind jsonToMessage

/-- A message survives its encoding. -/
theorem jsonToMessage_messageToJson (msg : JsonMessage) :
    jsonToMessage (messageToJson msg) = some msg := by
  obtain ⟨id, correlationId, kind, ts, room, type, sender, version, error, payload, metadata⟩ := msg
  cases error <;>
    simp [jsonToMessage, messageToJson, readStringField, readError]

/-! ## Cutting a file into messages -/

def sizeLimit : Nat := 2 ^ 64

def sizeJson (n : Nat) : Json := .numberUnsigned (UInt64.ofNat n)

def startMessage (transferId fileName : String) (totalBytes totalChunks chunkSize : Nat) :
    JsonMessage :=
  { id := transferId ++ ":start"
    correlationId := transferId
    type := "chunk_start"
    metadata := .ofPairs
      [("transfer_id", .string transferId), ("file_name", .string fileName),
        ("total_bytes", sizeJson totalBytes), ("total_chunks", sizeJson totalChunks),
        ("chunk_size", sizeJson chunkSize)] }

def chunkMessage (transferId : String) (chunkIndex totalChunks currentChunkSize : Nat)
    (bytes : List UInt8) : JsonMessage :=
  { id := transferId ++ ":" ++ toString chunkIndex
    correlationId := transferId
    type := "chunk_data"
    metadata := .ofPairs
      [("transfer_id", .string transferId), ("chunk_index", sizeJson chunkIndex),
        ("total_chunks", sizeJson totalChunks), ("chunk_bytes", sizeJson currentChunkSize)]
    payload := .array (bytes.map fun byte => .numberUnsigned byte.toUInt64) }

def endMessage (transferId : String) (totalBytes totalChunks : Nat) : JsonMessage :=
  { id := transferId ++ ":end"
    correlationId := transferId
    type := "chunk_end"
    metadata := .ofPairs
      [("transfer_id", .string transferId), ("total_bytes", sizeJson totalBytes),
        ("total_chunks", sizeJson totalChunks)] }

def totalChunks (sizeOfFile chunkSize : Nat) : Nat :=
  (sizeOfFile + chunkSize + (sizeLimit - 1)) % sizeLimit / chunkSize

def offset (chunkSize chunkIndex : Nat) : Nat := chunkIndex * chunkSize % sizeLimit

def currentChunkSize (sizeOfFile chunkSize chunkIndex : Nat) : Nat :=
  min chunkSize ((sizeOfFile + (sizeLimit - offset chunkSize chunkIndex)) % sizeLimit)

/-- The bytes of one chunk, read from its offset on. -/
def chunkBytes (binaryData : List UInt8) (chunkSize chunkIndex : Nat) : List UInt8 :=
  (binaryData.drop (offset chunkSize chunkIndex)).take
    (currentChunkSize binaryData.length chunkSize chunkIndex)

structure VectorLimit where
  maxSize : Nat
  addressable : maxSize < sizeLimit

/-- `blob_to_chunk` on the contents of the file; a file that cannot be read has
none. Without a result the vector of messages would have to grow beyond its limit,
and `reserve` or `push_back` throws. -/
def blobToChunk (limit : VectorLimit) (binaryData : List UInt8) (fileName : String)
    (chunkSize : Nat) (naming : String) : Option (List JsonMessage) :=
  if chunkSize = 0 then some []
  else if binaryData.isEmpty then some []
  else
    let sizeOfFile := binaryData.length
    let transferId := if naming.isEmpty then fileName else naming
    let total := totalChunks sizeOfFile chunkSize
    if limit.maxSize < total + 2 then none
    else
      some (startMessage transferId fileName sizeOfFile total chunkSize ::
        (List.range total).map (fun chunkIndex =>
          chunkMessage transferId chunkIndex total
            (currentChunkSize sizeOfFile chunkSize chunkIndex)
            (chunkBytes binaryData chunkSize chunkIndex)) ++
        [endMessage transferId sizeOfFile total])

/-! ## Putting a file together -/

def readSizeField (obj : Json) (key : String) : Option Nat :=
  match obj.find key with
  | some (.numberUnsigned value) => some value.toNat
  | _ => none

def readTextField (obj : Json) (key : String) : Option String :=
  match obj.find key with
  | some (.string value) => some value
  | _ => none

structure Transfer where
  transferId : String
  totalChunks : Nat
  totalBytes : Nat
  deriving Repr, DecidableEq

def readTransfer (obj : Json) : Option Transfer := do
  let transferId ← readTextField obj "transfer_id"
  let totalChunks ← readSizeField obj "total_chunks"
  let totalBytes ← readSizeField obj "total_bytes"
  some ⟨transferId, totalChunks, totalBytes⟩

/-- One element of a payload; `get<unsigned int>` keeps the low 32 bits. -/
def readByte : Json → Option UInt8
  | .numberUnsigned item =>
      let value := item.toNat % 2 ^ 32
      if 0xFF < value then none else some (UInt8.ofNat value)
  | _ => none

structure Assembly where
  orderedChunks : List (List UInt8)
  seen : List Bool
  accumulatedBytes : Nat
  deriving Repr, DecidableEq

/-- The body of the loop over the messages between the first and the last. -/
def placeChunk (transfer : Transfer) (a : Assembly) (chunk : JsonMessage) : Option Assembly :=
  match chunk.payload with
  | .array items =>
      if chunk.type ≠ "chunk_data" ∨ chunk.metadata.isObject = false then none
      else do
        let transferId ← readTextField chunk.metadata "transfer_id"
        let chunkIndex ← readSizeField chunk.metadata "chunk_index"
        let chunkCount ← readSizeField chunk.metadata "total_chunks"
        let chunkBytes ← readSizeField chunk.metadata "chunk_bytes"
        if transferId ≠ transfer.transferId ∨ chunkCount ≠ transfer.totalChunks ∨
            transfer.totalChunks ≤ chunkIndex ∨ a.seen[chunkIndex]? = some true then none
        else if items.length ≠ chunkBytes then none
        else do
          let target ← items.mapM readByte
          some {
            orderedChunks := a.orderedChunks.set chunkIndex target
            seen := a.seen.set chunkIndex true
            accumulatedBytes := (a.accumulatedBytes + target.length) % sizeLimit }
  | _ => none

/-- `chunks_to_blob` up to the opening of the output file. -/
def assemble (chunks : List JsonMessage) : Option (List (List UInt8)) :=
  if chunks.length < 3 then none
  else do
    let first ← chunks.head?
    let last ← chunks.getLast?
    if first.type ≠ "chunk_start" ∨ last.type ≠ "chunk_end" then none
    else if first.metadata.isObject = false ∨ last.metadata.isObject = false then none
    else do
      let transfer ← readTransfer first.metadata
      let transferEnd ← readTransfer last.metadata
      if transfer ≠ transferEnd then none
      else if chunks.length ≠ (transfer.totalChunks + 2) % sizeLimit then none
      else do
        let blank : Assembly := ⟨List.replicate transfer.totalChunks [],
          List.replicate transfer.totalChunks false, 0⟩
        let a ← (chunks.tail.dropLast).foldlM (placeChunk transfer) blank
        if a.seen.all id = false then none
        else if a.accumulatedBytes ≠ transfer.totalBytes then none
        else some a.orderedChunks

/-- The output file as its environment has it: whether it can be opened, and which
writes leave the stream good. -/
structure OutputFile where
  isOpen : Bool
  accepts : Nat → Bool

def OutputFile.writable : OutputFile := ⟨true, fun _ => true⟩

/-- The loop of writes: whether all succeed, and the bytes written. -/
def OutputFile.write (output : OutputFile) (written : List UInt8) :
    Nat → List (List UInt8) → Bool × List UInt8
  | _, [] => (true, written)
  | n, chunk :: rest =>
      if chunk.isEmpty then output.write written n rest
      else if output.accepts n then output.write (written ++ chunk) (n + 1) rest
      else (false, written)

/-- The result of `chunks_to_blob` and the contents of the file it creates, if any. -/
def chunksToBlob (output : OutputFile) (chunks : List JsonMessage) : Bool × Option (List UInt8) :=
  match assemble chunks with
  | none => (false, none)
  | some ordered =>
      if output.isOpen then
        ((output.write [] 0 ordered).1, some (output.write [] 0 ordered).2)
      else (false, none)

end Rtl.Ws
