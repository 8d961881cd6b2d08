import ImageGateway.Archive.Ledger
import ImageGateway.Archive.Numbering
import ImageGateway.Base64
import ImageGateway.Seed
import ImageGateway.Text.Blank

/-!
# Recording what was generated

The answer to a generation request is a batch of images in base64. Each image is written to its file
and gets a record with the parameters of the request, its share of the time, and the seed found in
it; the records are put at the end of the ledger.
-/

namespace ImageGateway.Archive

open Storage

/-! ## The batch -/

/-- Reads an array of texts. -/
def readTexts : Json.Reader (List String)
  | 91 :: rest => Json.listing 93 Json.string? rest
  | _ => none

/-- Reads the images of a batch; every other field is stepped over. -/
def batchField (key : String) : Json.Reader (Option (List String)) :=
  if key = "images" then fun bs => (readTexts bs).map fun (images, rest) => (some images, rest)
  else fun bs => (Json.skip bs).map fun (_, rest) => (none, rest)

/-- Reads a batch. -/
def readBatch : Json.Reader (List String) := fun bs => do
  let (fields, rest) ← Json.fields batchField [batchField "images"] bs
  let images ← Record.atMostOne? (fields.filterMap id)
  some (images.getD [], rest)

/-- The encoded images in the answer to a generation request. An answer that is no batch has
none. -/
def batchImages (answer : Bytes) : List String := (readBatch.whole? answer).getD []

/-- The parameters of a generation request: the object that is its body, if it is one. -/
def requestParameters (body : Bytes) : Json.Members :=
  ((Json.parse? body).bind Json.Value.object?).getD []

/-- The bytes of an encoded image, or none at all where it is not encoded correctly. -/
def decodeImage (encoded : String) : Bytes :=
  (Base64.decode? (Text.trim encoded.toList)).getD []

/-! ## Recording -/

/-- The record of one image. -/
def recordOf (parameters : Json.Members) (genTime : UInt64) (id : RecordId)
    (token : Record.CacheToken) (image : Bytes) : Record :=
  let r : Record := ⟨Record.imageReference id token, parameters, genTime, id, none⟩
  match Seed.find? image with
  | some seed => r.withSeed seed
  | none => r

/-- Writes the images and gives their records, numbered one after the other. -/
def recordImages (a : Archive) (p : Project) (parameters : Json.Members) (genTime : UInt64) :
    Numbering → List (String × Record.CacheToken) → Disk (List Record)
  | _, [] => pure []
  | numbering, (encoded, token) :: rest =>
    match numbering.next with
    | .error e => throw e
    | .ok (id, numbering) => do
      let image := decodeImage encoded
      a.writeImage p id image
      let more ← a.recordImages p parameters genTime numbering rest
      pure (recordOf parameters genTime id token image :: more)

/-- Records a batch: `request` and `answer` are the bodies, `elapsed` the milliseconds it took, and
`tokens` the cache tokens drawn for the images in their order. The records made are the result. -/
def recordBatch (a : Archive) (p : Project) (tokens : Nat → Record.CacheToken)
    (request answer : Bytes) (elapsed : UInt64) : Disk (List Record) :=
  let images := batchImages answer
  if images.isEmpty then pure []
  else
    let drawn := images.zip ((List.range images.length).map tokens)
    let share := elapsed / UInt64.ofNat images.length
    a.update p fun records => do
      let created ← a.recordImages p (requestParameters request) share
        (Numbering.aboveRecords records) drawn
      pure (.write (records ++ created) created)

end ImageGateway.Archive
