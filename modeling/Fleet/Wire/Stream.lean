import Fleet.Wire.Frame

/-!
# Streams of frames

On a stream of bytes each frame stands after its length, four bytes with the most significant first.
A frame may have eight mebibytes; a longer one is neither read nor written, and a stream that ends
within a frame is broken.

## Main definitions

* `Stream.maxFrame` — the length of the longest frame.
* `Stream.next` — the next frame of what has arrived.
* `Stream.wrap?` — a frame as it goes onto a stream.
-/

namespace Fleet.Stream

/-- The number of bytes in the longest frame. -/
def maxFrame : Nat := 8 * 1024 * 1024

/-- What stands at the front of the bytes that have arrived. -/
inductive Front where
  | frame (bytes rest : Bytes)
  /-- More has to arrive. -/
  | partly
  /-- A length that no frame may have. -/
  | tooLong
deriving DecidableEq

/-- The next frame of what has arrived. -/
def next : Bytes → Front
  | a :: b :: c :: d :: rest =>
    let n := Frame.lengthOf a b c d
    if maxFrame < n then .tooLong
    else if rest.length < n then .partly
    else .frame (rest.take n) (rest.drop n)
  | _ => .partly

/-- A frame as it goes onto a stream, none if it is too long. -/
def wrap? (frame : Bytes) : Option Bytes :=
  if maxFrame < frame.length then none else some (Frame.chunk frame)

end Fleet.Stream
