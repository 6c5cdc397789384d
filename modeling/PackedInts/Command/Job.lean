import PackedInts.Command.Request
import PackedInts.Packing

/-!
# Jobs and reports

A job reads one file, makes another from its content and says what it did. The making is a function
of the content alone, and of the codec that base64 text is left to; the codec and what reads and writes
the files are given from outside.

* `Report` -- the exit code and the two texts that a run leaves;
* `Product` -- what is made of the input: a warning, and the output with its summary or an error;
* `packProduct`, `unpackProduct` -- the two makings;
* `FileAccess`, `Job.perform` -- the reading and writing, and a job done with it.

Main statements: `packProduct_of_tooWide`, a value that does not fit stops a packing;
`unpackBytes_of_short`, so does an input that is too short for an unpacking.
-/

namespace PackedInts

/-! ## 1. Reports -/

/-- What a run leaves beside its files. -/
structure Report where
  exit : UInt32
  stdout : Bytes
  stderr : Bytes
  deriving DecidableEq, Repr

def Report.success (stdout : Bytes) (warning : Bytes) : Report :=
  ⟨0, stdout, warning⟩

def Report.failure (warning : Bytes) (e : CommandError) : Report :=
  ⟨1, [], warning ++ ascii "Error: " ++ e.message ++ ascii "\n"⟩

def usage : Bytes :=
  ascii "Usage:\n" ++
  ascii "  narrowpack help\n" ++
  ascii "  narrowpack pack   --width <0-8> --input <values> --output <packed> [--base64]\n" ++
  ascii "  narrowpack unpack --width <0-8> --count <n> --input <packed> --output <values> [--base64]\n" ++
  ascii "  narrowpack layout --width <0-8>\n\n" ++
  ascii "Notes:\n" ++
  ascii "  - Values are decimal integers separated by whitespace or commas.\n" ++
  ascii "  - The packed stream carries no header: width and count must be\n" ++
  ascii "    supplied again when unpacking.\n" ++
  ascii "  - --base64 writes (pack) or reads (unpack) the packed bytes as base64 text.\n"

/-- The text on the group of a width. -/
def layoutText (w : BitWidth) : Bytes :=
  ascii "bit width:        " ++ Numeral.decimal w.bits ++ ascii "\n" ++
  ascii "values per group: " ++ Numeral.decimal w.groupValues ++ ascii "\n" ++
  ascii "bytes per group:  " ++ Numeral.decimal w.groupBytes ++ ascii "\n" ++
  ascii "value mask:       0x" ++ Numeral.hexadecimal (lowMask w.bits).toNat ++ ascii "\n"

/-! ## 2. Products -/

/-- What is made of an input: a warning, and the content of the output file with the summary of
    what was done, or why there is none. -/
structure Product where
  warning : Bytes
  result : Except CommandError (Bytes × Bytes)

/-- The first value that does not fit a width, with its position. -/
def firstTooWide (w : BitWidth) (vs : List UInt32) : Option (UInt32 × Nat) :=
  vs.zipIdx.find? fun entry => lowMask w.bits < entry.1.toUInt64

section Products

variable {τ σ : Type} (codec : Base64.Codec τ σ)

/-- The content of an output file that holds packed bytes, raw or as a line of base64. -/
def packedContent (base64 : Bool) (packed : Bytes) : Except CommandError Bytes :=
  if base64 then
    match Base64.encodeWith codec.encoder packed with
    | .error e => .error (.encoding e)
    | .ok text => .ok (text ++ ascii "\n")
  else .ok packed

variable {codec} in
/-- Packed bytes that the codec makes a text of stand in the file as a line of it. -/
theorem packedContent_of_encodeWith {packed text : Bytes}
    (written : Base64.encodeWith codec.encoder packed = .ok text) :
    packedContent codec true packed = .ok (text ++ ascii "\n") := by
  simp [packedContent, written]

def packSummary (values bytes : Nat) : Bytes :=
  ascii "Packed " ++ Numeral.decimal values ++ ascii " values into " ++ Numeral.decimal bytes
    ++ ascii " bytes\nPacking completed successfully\n"

/-- Packs the values of a text. A value that does not fit the width is refused, not cut. -/
def packProduct (w : BitWidth) (base64 : Bool) (text : Bytes) : Product :=
  match ValueList.parse text with
  | .error e => ⟨[], .error (.values e)⟩
  | .ok vs =>
    match firstTooWide w vs with
    | some (v, position) => ⟨[], .error (.valueTooWide v position w)⟩
    | none =>
      match pack vs w.toUInt32 with
      | .error e => ⟨[], .error (.packing e)⟩
      | .ok packed =>
        match packedContent codec base64 packed with
        | .error e => ⟨[], .error e⟩
        | .ok content => ⟨[], .ok (content, packSummary vs.length packed.length)⟩

/-- The packed bytes of an input file that holds them raw or as base64 text. -/
def packedOfContent (base64 : Bool) (content : Bytes) : Except CommandError Bytes :=
  if base64 then (Base64.decodeWith codec.decoder content).mapError .base64 else .ok content

variable {codec} in
/-- Text that the codec reads is found as its bytes. -/
theorem packedOfContent_of_decodeWith {text packed : Bytes}
    (read : Base64.decodeWith codec.decoder text = .ok packed) :
    packedOfContent codec true text = .ok packed := by
  rw [packedOfContent, if_pos rfl, read]
  rfl

/-- The warning of bytes behind the last value; nothing if there are none. -/
def trailingWarning (bytes : Nat) : Bytes :=
  if bytes = 0 then []
  else ascii "Warning: ignoring " ++ Numeral.decimal bytes ++ ascii " trailing bytes\n"

def unpackSummary (values bytes : Nat) : Bytes :=
  ascii "Unpacked " ++ Numeral.decimal values ++ ascii " values from " ++ Numeral.decimal bytes
    ++ ascii " bytes\nUnpacking completed successfully\n"

/-- Unpacks so many values from packed bytes. -/
def unpackBytes (w : BitWidth) (count : UInt64) (packed : Bytes) : Product :=
  match packedSize count w.toUInt32 with
  | .error e => ⟨[], .error (.packing e)⟩
  | .ok needed =>
    if packed.length < needed.toNat then
      ⟨[], .error (.inputTooShort packed.length count w needed)⟩
    else
      ⟨trailingWarning (packed.length - needed.toNat),
        match unpack packed count w.toUInt32 with
        | .error e => .error (.packing e)
        | .ok vs => .ok (ValueList.format vs, unpackSummary vs.length needed.toNat)⟩

/-- Unpacks so many values from the content of a file. -/
def unpackProduct (w : BitWidth) (count : UInt64) (base64 : Bool) (content : Bytes) : Product :=
  match packedOfContent codec base64 content with
  | .error e => ⟨[], .error e⟩
  | .ok packed => unpackBytes w count packed

/-- **A value that does not fit stops a packing.** -/
theorem packProduct_of_tooWide {w : BitWidth} {text : Bytes} {vs : List UInt32} {v : UInt32}
    {position : Nat} (hp : ValueList.parse text = .ok vs)
    (hv : firstTooWide w vs = some (v, position)) (base64 : Bool) :
    packProduct codec w base64 text = ⟨[], .error (.valueTooWide v position w)⟩ := by
  simp [packProduct, hp, hv]

/-- **An input that is too short stops an unpacking.** -/
theorem unpackBytes_of_short {w : BitWidth} {count needed : UInt64} {packed : Bytes}
    (hn : packedSize count w.toUInt32 = .ok needed) (short : packed.length < needed.toNat) :
    unpackBytes w count packed = ⟨[], .error (.inputTooShort packed.length count w needed)⟩ := by
  simp [unpackBytes, hn, short]

end Products

/-! ## 3. Jobs -/

/-- How files are read and written, in some monad. -/
structure FileAccess (m : Type → Type) where
  readInput : Bytes → m (Except CommandError Bytes)
  writeOutput : Bytes → Bytes → m (Except CommandError Unit)

/-- The file to read, the file to write, and what is made of the one for the other. -/
structure Job where
  input : Bytes
  output : Bytes
  make : Bytes → Product

/-- Reads, makes and writes. The output file is not touched before its content is there. -/
def Job.perform {m : Type → Type} [Monad m] (files : FileAccess m) (job : Job) : m Report := do
  match ← files.readInput job.input with
  | .error e => pure (.failure [] e)
  | .ok content =>
    match job.make content with
    | ⟨warning, .error e⟩ => pure (.failure warning e)
    | ⟨warning, .ok (result, summary)⟩ =>
      match ← files.writeOutput job.output result with
      | .error e => pure (.failure warning e)
      | .ok () => pure (.success summary warning)

section Perform

variable {τ σ : Type} (codec : Base64.Codec τ σ) {m : Type → Type} [Monad m] (files : FileAccess m)

/-- Does what a request asks for. -/
def Request.perform : Request → m Report
  | .help => pure (.success usage [])
  | .layout w => pure (.success (layoutText w) [])
  | .pack w base64 input output => Job.perform files ⟨input, output, packProduct codec w base64⟩
  | .unpack w count base64 input output =>
    Job.perform files ⟨input, output, unpackProduct codec w count base64⟩

/-- Does what the arguments ask for. -/
def performArguments (arguments : List Bytes) : m Report :=
  match Request.parse arguments with
  | .error e => pure (.failure [] e)
  | .ok request => request.perform codec files

end Perform

end PackedInts
