import Fieldbus.Frame.Transport

/-!
# A scripted peer

A framed transport against a peer that answers each frame with chunks of bytes.  A chunk is sent
when everything before it has been read, and none after the exchange is over; what was not read of
the last chunk is read first by the next exchange.
-/

namespace Fieldbus

/-- What the transport finds at its endpoint. -/
inductive PeerKind where
  | reachable
  | failing (fault : ChannelFault)
  deriving DecidableEq, Repr

/-- The peer's side of an open channel. -/
structure Channel where
  backlog : List UInt8 := []
  /-- The peer has closed the stream. -/
  ended : Bool := false
  deriving DecidableEq, Repr

structure PeerBench where
  kind : PeerKind
  level : PhysicalLevel
  channel : Option Channel := none
  deriving DecidableEq, Repr

/-- What is seen of one exchange. -/
structure ExchangeReport where
  result : Except RequestError Response
  /-- The frame, if it was sent. -/
  frame : Option (List UInt8)
  /-- How many bytes the codec was shown each time. -/
  shown : List Nat
  log : List String

namespace PeerBench

/-- An open transport stays as it is. -/
def openChannel (bench : PeerBench) : Except RequestError Unit × PeerBench :=
  match bench.channel, bench.kind with
  | some _, _ => (.ok (), bench)
  | none, .reachable => (.ok (), { bench with channel := some {} })
  | none, .failing fault => (.error (.openFailed fault), bench)

def closeChannel (bench : PeerBench) : PeerBench := { bench with channel := none }

/-- What is left of the segment in which the last of the bytes read lies. -/
def leftover : (read : Nat) → List (List UInt8) → List UInt8
  | _, [] => []
  | read, segment :: rest =>
    if read = 0 then []
    else if read < segment.length then segment.drop read
    else leftover (read - segment.length) rest

/-- The running totals of the sizes of reads, the end of the stream left out. -/
def totals (total : Nat) : List (List UInt8) → List Nat
  | [] => []
  | read :: rest =>
    if read.isEmpty then totals total rest
    else (total + read.length) :: totals (total + read.length) rest

def exchange (codec : FrameCodec) (request : Request) (chunks : List (List UInt8)) (ends : Bool)
    (bench : PeerBench) : ExchangeReport × PeerBench :=
  match bench.channel with
  | none => (⟨.error (.io .notConnected), none, [], []⟩, bench)
  | some channel =>
    match codec.encode request with
    | .error error => (⟨.error error, none, [], []⟩, bench)
    | .ok frame =>
      let segments := channel.backlog :: (if channel.ended then [] else chunks)
      let reception := codec.receive request [] (segments.flatMap (pieces readSize))
      let read := reception.reads.flatten.length
      let log := (channelLine? bench.level .sent frame).toList
        ++ reception.reads.filterMap (channelLine? bench.level .received)
      let channel : Channel :=
        { backlog := leftover read segments
          ended := channel.ended || (ends && read == segments.flatten.length) }
      (⟨reception.result, some frame, totals 0 reception.reads, log⟩,
        { bench with channel := some channel })

end PeerBench

end Fieldbus
