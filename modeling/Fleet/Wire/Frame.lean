import Fleet.Json.Reader
import Fleet.Json.Writer
import Fleet.Wire.Encoding

/-!
# Frames

Nodes exchange frames.  The first one on a connection introduces the node, every other one carries
a message.  A frame is two chunks, the header in JSON and the content, each after its length as four
bytes, the most significant first.  What follows the second chunk is not looked at.

## Main definitions

* `Frame` — a frame.
* `Frame.encode`, `Frame.decode` — frames as bytes.
-/

namespace Fleet

/-- What nodes send each other. -/
inductive Frame where
  | hello (node : Identity)
  | message (m : Message)
deriving DecidableEq

/-- Why bytes are not a frame. -/
inductive FrameError where
  /-- The header does not read as one. -/
  | header
  | truncated (expected available : Nat)
  | invalid (e : MessageError)
deriving DecidableEq

/-- The wording of a fault. -/
def FrameError.message : FrameError → String
  | .header => "Invalid frame header"
  | .truncated expected available =>
    s!"Frame truncated: expected {Decimal.text expected} bytes, {Decimal.text available} available"
  | .invalid e => s!"Invalid message: {e.message}"

namespace Frame

/-- A number as four bytes, the most significant first. -/
def lengthBytes (n : Nat) : Bytes :=
  [(n / 0x1000000).toUInt8, (n / 0x10000).toUInt8, (n / 0x100).toUInt8, n.toUInt8]

/-- The number of four bytes. -/
def lengthOf (a b c d : UInt8) : Nat :=
  ((a.toNat * 0x100 + b.toNat) * 0x100 + c.toNat) * 0x100 + d.toNat

/-- Bytes after their length. -/
def chunk (b : Bytes) : Bytes := lengthBytes b.length ++ b

/-- Takes a chunk off the front. -/
def takeChunk : Bytes → Except FrameError (Bytes × Bytes)
  | a :: b :: c :: d :: rest =>
    let n := lengthOf a b c d
    if rest.length < n then .error (.truncated n rest.length)
    else .ok (rest.take n, rest.drop n)
  | short => .error (.truncated 4 short.length)

/-- The header of a frame. -/
def header : Frame → Header
  | .hello node => .hello node
  | .message m => .message m.channel m.sender m.targets m.query m.correlation

/-- The content of a frame; an introduction has none. -/
def content : Frame → Bytes
  | .hello _ => []
  | .message m => m.content

/-- The bytes of a frame's header. -/
def headerBytes (f : Frame) : Bytes := f.header.toJson.write

/-- The bytes of a frame. -/
def encode (f : Frame) : Bytes := chunk f.headerBytes ++ chunk f.content

/-- The frame with a header and a content; a message has to keep the rules. -/
def ofHeader (content : Bytes) : Header → Except FrameError Frame
  | .hello node => .ok (.hello node)
  | .message channel sender targets query correlation =>
    match Message.checked { channel, sender, targets, content, query, correlation } with
    | .ok m => .ok (.message m)
    | .error e => .error (.invalid e)

/-- Reads the header of a frame. -/
def readHeader (b : Bytes) : Except FrameError Header :=
  match (Json.read? b).bind Header.ofJson? with
  | some h => .ok h
  | none => .error .header

/-- Reads a frame. -/
def decode (b : Bytes) : Except FrameError Frame := do
  let (header, rest) ← takeChunk b
  let (content, _) ← takeChunk rest
  ofHeader content (← readHeader header)

end Frame

end Fleet
