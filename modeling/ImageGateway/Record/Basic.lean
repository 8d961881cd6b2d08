import ImageGateway.Decimal.Digits
import ImageGateway.Json.Value

/-!
# Records of generated images

A record says which image was generated, from which parameters, how long it took, and which seed
the image was made with if that is known.
-/

namespace ImageGateway

/-- The number of a record, unique within a project. -/
abbrev RecordId := UInt64

/-- One generated image. -/
structure Record where
  /-- The name of the image file, with a token that changes whenever the file does. -/
  imageName : String
  /-- The parameters of the request. -/
  taskData : Json.Members
  /-- Milliseconds spent on the image. -/
  genTime : UInt64
  id : RecordId
  seed : Option UInt64
  deriving Repr, Inhabited

namespace Record

/-- The record with its seed, which also takes the place of the seed among the parameters. -/
def withSeed (r : Record) (seed : UInt64) : Record :=
  { r with
    taskData := Json.Members.insert "seed" (.ofWord seed) r.taskData
    seed := some seed }

/-- The name of the image file of a record: the number with at least five digits. -/
def imageFileName (id : RecordId) : String :=
  String.ofList (Decimal.padded 5 id.toNat ++ ".png".toList)

/-- How many cache tokens there are. -/
def tokenCount : Nat := 100000

/-- A random number that keeps browsers from showing an old image under a number used again. -/
abbrev CacheToken := Fin tokenCount

/-- The reference to an image that is handed out: the file name and a token of five digits. -/
def imageReference (id : RecordId) (token : CacheToken) : String :=
  imageFileName id ++ "?" ++ String.ofList (Decimal.padded 5 token.val)

/-! ## Drawing tokens -/

/-- The token that a word of 32 bits gives: the high half of its product with the number of tokens.
Words whose low half is beyond the last full round are refused, so that all tokens are equally
likely. -/
def tokenOfWord? (word : UInt32) : Option CacheToken :=
  let product := word.toNat * tokenCount
  let lastFull := tokenCount * 32768 - 1
  if product % UInt32.size ≤ lastFull then
    if h : product / UInt32.size < tokenCount then some ⟨product / UInt32.size, h⟩ else none
  else none

/-- The first token among the words that a source gives, with the source after it. At most `fuel`
words are drawn. -/
def drawToken? (next : σ → UInt32 × σ) : Nat → σ → Option (CacheToken × σ)
  | 0, _ => none
  | fuel + 1, source =>
    let (word, source) := next source
    match tokenOfWord? word with
    | some token => some (token, source)
    | none => drawToken? next fuel source

end Record

end ImageGateway
