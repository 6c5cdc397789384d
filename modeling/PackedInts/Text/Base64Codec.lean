import PackedInts.Text.Base64

/-!
# Base64 text through an outside codec

The work on blocks can be left to a codec that comes from outside and is given as a parameter: an
encoder that is fed with bytes and asked for its text, and a decoder that is started on a text and read
piece by piece. What is done before and behind it stands here.

A text is looked through before it is decoded, in one pass that counts padding signs, so that the number
of bytes to come is known; the pieces are put together up to this number. Bytes go to the encoder as they
are. Every answer of the codec is looked at, and a codec cannot be given everything at once.

* `BlockEncoder`, `encodeWith` -- an encoder, and the text of bytes by it;
* `paddingFrom`, `expectedSize` -- the pass over a text, and the number of bytes to come;
* `BlockDecoder`, `BlockDecoder.fill`, `decodeWith` -- a decoder, reading it piece by piece, and the
  bytes of a text by it;
* `EncodingFailure`, `Failure` -- why bytes are not written, and why a text is not read;
* `Codec` -- both together;
* `standardCodec` -- one that keeps to the standard.

Main statement: `bytesOfBlocks_cons`, the standard decoder goes block by block.
-/

namespace PackedInts.Base64

/-- The most bytes or characters that a codec can be given at once. -/
def mostCharacters : Nat :=
  0x7FFFFFFF

/-! ## 1. Encoders -/

/-- An encoder. It is fed with bytes, of which it takes so many, then flushed, which is done if it
    answers one, and then asked for its text. -/
structure BlockEncoder (τ : Type) where
  start : τ
  write : Bytes → τ → Int × τ
  flush : τ → Int × τ
  text? : τ → Option Bytes

/-- Why bytes are not written by an encoder. -/
inductive EncodingFailure
  /-- There are more bytes than an encoder can be given. -/
  | tooLarge
  /-- The encoder did not take all bytes. -/
  | notTaken
  | notFlushed
  /-- The encoder has no text. -/
  | noText
  deriving DecidableEq, Repr

def EncodingFailure.message : EncodingFailure → Bytes
  | .tooLarge => ascii "Buffer too large for base64 encoding"
  | .notTaken => ascii "Failed to base64-encode buffer"
  | .notFlushed => ascii "Failed to flush base64 encoder"
  | .noText => ascii "Failed to access base64 output buffer"

/-- The text of bytes by an encoder. No bytes need none. -/
def encodeWith {τ : Type} (e : BlockEncoder τ) (bytes : Bytes) : Except EncodingFailure Bytes :=
  if bytes = [] then .ok []
  else if mostCharacters < bytes.length then .error .tooLarge
  else
    let (taken, fed) := e.write bytes e.start
    if taken ≠ bytes.length then .error .notTaken
    else
      let (done, flushed) := e.flush fed
      if done ≠ 1 then .error .notFlushed
      else
        match e.text? flushed with
        | none => .error .noText
        | some text => .ok text

/-! ## 2. The pass over a text -/

/-- Letters, digits, the plus sign and the slash. -/
def isKnown (c : UInt8) : Bool :=
  isUpper c || ('a'.toUInt8 ≤ c && c ≤ 'z'.toUInt8) || isDigit c || c == '+'.toUInt8
    || c == '/'.toUInt8

/-- The number of padding signs of a text of the given total length whose characters all stand where
    they may, from an index on, with those found before. -/
def paddingFrom (total index found : Nat) : Bytes → Except Error Nat
  | [] => .ok found
  | c :: rest =>
    if c = padding then
      if index + 2 < total then .error .earlyPadding
      else paddingFrom total (index + 1) (found + 1) rest
    else if 0 < found ∨ isKnown c = false then .error .character
    else paddingFrom total (index + 1) found rest

/-- The number of bytes that a text without blanks at its ends stands for. -/
def expectedSize (s : Bytes) : Except Error Nat :=
  if s.length % 4 ≠ 0 then .error .length
  else (paddingFrom s.length 0 0 s).map fun found => s.length / 4 * 3 - found

/-! ## 3. Decoders -/

/-- A decoder that is started on a text and then read piece by piece. A read of at most so many bytes
    delivers a piece; an empty one is the end. -/
structure BlockDecoder (σ : Type) where
  start : Bytes → σ
  read : Nat → σ → Bytes × σ

/-- Reads until so many bytes are there or nothing more is delivered. -/
def BlockDecoder.fill {σ : Type} (d : BlockDecoder σ) (wanted : Nat) (state : σ) : Bytes :=
  if 0 < wanted ∧ 0 < (d.read wanted state).1.length then
    (d.read wanted state).1
      ++ d.fill (wanted - (d.read wanted state).1.length) (d.read wanted state).2
  else []
termination_by wanted

/-- Why a text is not read by a decoder of blocks. -/
inductive Failure
  /-- The pass over the text refuses it. -/
  | invalid (error : Error)
  /-- The text has more characters than a decoder of blocks can be given. -/
  | tooLarge
  /-- The blocks give fewer bytes than expected. -/
  | malformed
  deriving DecidableEq, Repr

/-- The classes of failures that a caller can tell apart. -/
inductive FailureClass
  | invalidArgument
  | length
  deriving DecidableEq, Repr

def Failure.message : Failure → Bytes
  | .invalid error => error.message
  | .tooLarge => ascii "Text too large for base64 decoding"
  | .malformed => ascii "Malformed base64 input"

def Failure.failureClass : Failure → FailureClass
  | .invalid _ | .malformed => .invalidArgument
  | .tooLarge => .length

/-- The bytes of a text by a decoder of blocks. -/
def decodeWith {σ : Type} (d : BlockDecoder σ) (text : Bytes) : Except Failure Bytes :=
  match expectedSize (trim text) with
  | .error e => .error (.invalid e)
  | .ok expected =>
    if expected = 0 then .ok []
    else if mostCharacters < (trim text).length then .error .tooLarge
    else if (d.fill expected (d.start (trim text))).length ≠ expected then .error .malformed
    else .ok (d.fill expected (d.start (trim text)))

/-! ## 4. The standard codec -/

/-- An encoder with a decoder. -/
structure Codec (τ σ : Type) where
  encoder : BlockEncoder τ
  decoder : BlockDecoder σ

/-- Keeps what it is given and makes the text of it in the end. -/
def standardEncoder : BlockEncoder Bytes where
  start := []
  write bytes given := (bytes.length, given ++ bytes)
  flush given := (1, given)
  text? given := some (encode given)

/-- The bytes of a block of four characters, where padding counts as zero bits and takes away
    bytes. -/
def bytesOfBlock (a b c e : UInt8) : Bytes :=
  (bytesOfFour ((code? a).getD 0) ((code? b).getD 0) ((code? c).getD 0) ((code? e).getD 0)).take
    (3 - [c, e].count padding)

/-- The bytes of blocks, behind the bytes decoded before. -/
def blocksOnto (out : Array UInt8) : Bytes → Bytes
  | a :: b :: c :: e :: rest => blocksOnto (out ++ bytesOfBlock a b c e) rest
  | _ => out.toList

def bytesOfBlocks (text : Bytes) : Bytes :=
  blocksOnto #[] text

/-- What was decoded before stands in front and changes nothing else. -/
theorem blocksOnto_eq (out : Array UInt8) (text : Bytes) :
    blocksOnto out text = out.toList ++ bytesOfBlocks text := by
  have general : ∀ (left right : Array UInt8),
      blocksOnto (left ++ right) text = left.toList ++ blocksOnto right text := by
    intro left right
    fun_induction blocksOnto right text with
    | case1 right a b c e rest ih =>
      rw [blocksOnto, ← ih]
      exact congrArg (blocksOnto · rest) (Array.toList_inj.1 (by simp))
    | case2 right text short => simp [blocksOnto]
  simpa [bytesOfBlocks] using general out #[]

@[simp] theorem bytesOfBlocks_nil : bytesOfBlocks [] = [] := rfl

/-- **The standard decoder goes block by block.** -/
theorem bytesOfBlocks_cons (a b c e : UInt8) (rest : Bytes) :
    bytesOfBlocks (a :: b :: c :: e :: rest) = bytesOfBlock a b c e ++ bytesOfBlocks rest := by
  rw [bytesOfBlocks, blocksOnto, blocksOnto_eq]
  simp

/-- Decodes all blocks at the start and then delivers what is asked for, as long as there is any. -/
def standardDecoder : BlockDecoder Bytes where
  start := bytesOfBlocks
  read wanted state := (state.take wanted, state.drop wanted)

def standardCodec : Codec Bytes Bytes where
  encoder := standardEncoder
  decoder := standardDecoder

end PackedInts.Base64
