import Fieldbus.Frame.Codec
import Fieldbus.Settings.Basic

/-!
# Framed exchanges

A frame is sent, and the stream is read until the codec finds a response in all bytes read so far
or refuses them.  A stream that ends before that is an error.
-/

namespace Fieldbus

/-- The result of reading a response, the reads that were made for it and those that were not.  A
read of no bytes is the end of the stream. -/
structure Reception where
  result : Except RequestError Response
  reads : List (List UInt8)
  unread : List (List UInt8)

namespace FrameCodec

/-- Reads until the codec decides.  The stream ends after the last of the reads. -/
def receive (codec : FrameCodec) (request : Request) (received : List UInt8) :
    (reads : List (List UInt8)) → Reception
  | [] => ⟨.error (.io .unexpectedEof), [[]], []⟩
  | bytes :: rest =>
    match codec.decode request (received ++ bytes) with
    | .error error => ⟨.error error, [bytes], rest⟩
    | .ok (some response) => ⟨.ok response, [bytes], rest⟩
    | .ok none =>
      let reception := receive codec request (received ++ bytes) rest
      { reception with reads := bytes :: reception.reads }

end FrameCodec

/-- The largest number of bytes of one read. -/
def readSize : Nat := 256

/-- A text of bytes in pieces of a size; `fuel` is at least the number of pieces. -/
def piecesFrom (size : Nat) : (fuel : Nat) → List UInt8 → List (List UInt8)
  | _, [] => []
  | 0, bytes => [bytes]
  | fuel + 1, bytes => bytes.take size :: piecesFrom size fuel (bytes.drop size)

def pieces (size : Nat) (bytes : List UInt8) : List (List UInt8) :=
  piecesFrom size bytes.length bytes

/-- The number of bytes on a line of the log. -/
def bytesPerLine : Nat := 18

inductive Direction where
  | sent
  | received
  deriving DecidableEq, Repr

def Direction.text : Direction → String
  | sent => "TX"
  | received => "RX"

/-- The line for some bytes, if the level shows any. -/
def channelLine? (level : PhysicalLevel) (direction : Direction) (bytes : List UInt8) :
    Option String :=
  let header := s!"PHYS {direction.text} - {bytes.length} bytes"
  match level with
  | .nothing => none
  | .length => some header
  | .data =>
    some (header ++ String.join ((pieces bytesPerLine bytes).map fun line =>
      "\n" ++ Text.hexBytes line))

end Fieldbus
