import Fieldbus.Codec.Words
import Fieldbus.Link.Request

/-!
# Frames

A frame codec turns requests into bytes and finds the response in the bytes received so far.  The
register codec below reads holding registers and writes words, with function codes 3 and 16; a
function code with its highest bit set announces an exception.
-/

namespace Fieldbus

structure FrameCodec where
  encode : Request → Except RequestError (List UInt8)
  /-- Nothing, as long as bytes are missing. -/
  decode : Request → List UInt8 → Except RequestError (Option Response)

namespace RegisterFrame

def readFunction : UInt8 := 0x03

def writeFunction : UInt8 := 0x10

/-- The function code of a frame that no device sends. -/
def badFunction : UInt8 := 0x7F

def exceptionFlag : UInt8 := 0x80

def unsupported (registerClass : RegisterClass) : RequestError :=
  .badRequest (.unsupportedClass registerClass)

def encode : Request → Except RequestError (List UInt8)
  | .read request =>
    if request.registerClass = .holdingRegister then
      .ok ([request.unit.value, readFunction]
        ++ Words.toBytes [request.range.start, request.range.count])
    else .error (unsupported request.registerClass)
  | .write request =>
    match request.values with
    | .words words =>
      .ok ([request.unit.value, writeFunction]
        ++ Words.toBytes [request.start, UInt16.ofNat words.length]
        ++ [UInt8.ofNat (2 * words.length)] ++ Words.toBytes words)
    | .bits _ => .error (unsupported request.registerClass)

/-- The number of bytes of a write acknowledgement. -/
def acknowledgementSize : Nat := 6

def decode (request : Request) (bytes : List UInt8) : Except RequestError (Option Response) :=
  match bytes with
  | _ :: function :: code :: content =>
    if function = badFunction then .error (.badFrame "function")
    else if function &&& exceptionFlag ≠ 0 then .error (.exception code)
    else
      match request with
      | .read request =>
        let size := 2 * request.range.count.toNat
        if content.length < size then .ok none
        else .ok (some (.registers (Words.ofBytes (content.take size))))
      | .write _ =>
        if bytes.length < acknowledgementSize then .ok none else .ok (some .written)
  | _ => .ok none

end RegisterFrame

def FrameCodec.registers : FrameCodec := { encode := RegisterFrame.encode,
                                           decode := RegisterFrame.decode }

end Fieldbus
