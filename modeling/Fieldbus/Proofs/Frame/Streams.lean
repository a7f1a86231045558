import Fieldbus.Bench.Peer
import Mathlib.Data.List.Infix

/-!
# Streams in pieces

A stream comes in reads that say nothing about where a frame ends.  With a codec that keeps to its
answer when more bytes follow, the reads do not matter: an exchange ends with the answer to the
shortest part of the stream that the codec does not ask to continue.
-/

namespace Fieldbus

namespace FrameCodec

variable {codec : FrameCodec} {request : Request}

/-- The answer of the codec to some bytes, unless it asks for more of them. -/
def verdict? (codec : FrameCodec) (request : Request) (bytes : List UInt8) :
    Option (Except RequestError Response) :=
  match codec.decode request bytes with
  | .error error => some (.error error)
  | .ok (some response) => some (.ok response)
  | .ok none => none

/-- More bytes do not change an answer. -/
def Stable (codec : FrameCodec) : Prop :=
  ∀ request bytes more result, codec.verdict? request bytes = some result →
    codec.verdict? request (bytes ++ more) = some result

/-- The answer to the shortest non-empty beginning of a stream that has one.  The beginnings come
in the order of their lengths, the empty one first. -/
def answer (codec : FrameCodec) (request : Request) (stream : List UInt8) :
    Except RequestError Response :=
  (stream.inits.tail.findSome? (codec.verdict? request)).getD (.error (.io .unexpectedEof))

end FrameCodec

/-- The reads together are the stream, and each one brings at least a byte and at most as many as
fit. -/
structure IsCut (stream : List UInt8) (reads : List (List UInt8)) : Prop where
  flatten_eq : reads.flatten = stream
  ne_nil : ∀ read ∈ reads, read ≠ []
  length_le : ∀ read ∈ reads, read.length ≤ readSize

/-- Everything that the peer still sends before it closes the stream. -/
def Channel.stream (chunks : List (List UInt8)) (channel : Channel) : List UInt8 :=
  channel.backlog ++ if channel.ended then [] else chunks.flatten

theorem inits_tail_append (first second : List UInt8) :
    (first ++ second).inits.tail = first.inits.tail ++ second.inits.tail.map (first ++ ·) := by
  rw [List.inits_append]
  cases first <;> simp

theorem mem_inits_tail_self {bytes : List UInt8} (hsome : bytes ≠ []) :
    bytes ∈ bytes.inits.tail := by
  cases bytes with
  | nil => exact absurd rfl hsome
  | cons byte rest => simp

namespace FrameCodec

variable {codec : FrameCodec} {request : Request} {bytes : List UInt8}

theorem receive_cons (codec : FrameCodec) (request : Request) (received bytes : List UInt8)
    (rest : List (List UInt8)) :
    (codec.receive request received (bytes :: rest)).result =
      (codec.verdict? request (received ++ bytes)).getD
        (codec.receive request (received ++ bytes) rest).result := by
  rw [receive, verdict?]
  split <;> simp_all

/-- The answer to some bytes is that to their shortest beginning with an answer. -/
theorem Stable.findSome?_inits (hstable : codec.Stable) (hsome : bytes ≠ [])
    (received : List UInt8) :
    (bytes.inits.tail.map (received ++ ·)).findSome? (codec.verdict? request) =
      codec.verdict? request (received ++ bytes) := by
  rw [List.findSome?_map]
  cases hfirst : bytes.inits.tail.findSome? (codec.verdict? request ∘ (received ++ ·)) with
  | none =>
      exact (List.findSome?_eq_none_iff.mp hfirst bytes (mem_inits_tail_self hsome)).symm
  | some result =>
      obtain ⟨beginning, hmem, hverdict⟩ := List.exists_of_findSome?_eq_some hfirst
      obtain ⟨more, rfl⟩ := (List.mem_inits _ _).mp (List.mem_of_mem_tail hmem)
      rw [← List.append_assoc]
      exact (hstable _ _ more _ hverdict).symm

/-- After some bytes have been received, reading goes on up to the first answer. -/
theorem Stable.receive (hstable : codec.Stable) {reads : List (List UInt8)}
    (hreads : ∀ read ∈ reads, read ≠ []) (received : List UInt8) :
    (codec.receive request received reads).result =
      ((reads.flatten.inits.tail.map (received ++ ·)).findSome? (codec.verdict? request)).getD
        (.error (.io .unexpectedEof)) := by
  induction reads generalizing received with
  | nil => rfl
  | cons bytes rest ih =>
      have hbytes : bytes ≠ [] := hreads bytes List.mem_cons_self
      have hrest := ih (fun read hmem => hreads read (List.mem_cons_of_mem _ hmem))
        (received ++ bytes)
      have hlater : (received ++ ·) ∘ (bytes ++ ·) = (received ++ bytes ++ ·) := by
        funext more
        exact (List.append_assoc received bytes more).symm
      rw [receive_cons, hrest, List.flatten_cons, inits_tail_append, List.map_append,
        List.findSome?_append, hstable.findSome?_inits hbytes, List.map_map, hlater]
      cases codec.verdict? request (received ++ bytes) <;> rfl

theorem Stable.receive_of_isCut (hstable : codec.Stable) {stream : List UInt8}
    {reads : List (List UInt8)} (hcut : IsCut stream reads) :
    (codec.receive request [] reads).result = codec.answer request stream := by
  rw [hstable.receive hcut.ne_nil, hcut.flatten_eq]
  simp [answer]

end FrameCodec

namespace IsCut

variable {stream rest : List UInt8} {reads later : List (List UInt8)}

theorem nil : IsCut [] [] := ⟨rfl, by simp, by simp⟩

theorem cons {read : List UInt8} (hsome : read ≠ []) (hsize : read.length ≤ readSize)
    (hrest : IsCut rest later) : IsCut (read ++ rest) (read :: later) where
  flatten_eq := by rw [List.flatten_cons, hrest.flatten_eq]
  ne_nil := List.forall_mem_cons.mpr ⟨hsome, hrest.ne_nil⟩
  length_le := List.forall_mem_cons.mpr ⟨hsize, hrest.length_le⟩

theorem append (hcut : IsCut stream reads) (hrest : IsCut rest later) :
    IsCut (stream ++ rest) (reads ++ later) where
  flatten_eq := by rw [List.flatten_append, hcut.flatten_eq, hrest.flatten_eq]
  ne_nil := List.forall_mem_append.mpr ⟨hcut.ne_nil, hrest.ne_nil⟩
  length_le := List.forall_mem_append.mpr ⟨hcut.length_le, hrest.length_le⟩

theorem piecesFrom {fuel : Nat} {bytes : List UInt8} (hfuel : bytes.length ≤ fuel) :
    IsCut bytes (Fieldbus.piecesFrom readSize fuel bytes) := by
  induction fuel generalizing bytes with
  | zero =>
      obtain rfl := List.eq_nil_of_length_eq_zero (Nat.le_zero.mp hfuel)
      exact nil
  | succ fuel ih =>
      cases bytes with
      | nil => exact nil
      | cons byte more =>
          have hdrop : ((byte :: more).drop readSize).length ≤ fuel := by
            rw [List.length_drop, List.length_cons, readSize]
            rw [List.length_cons] at hfuel
            omega
          have hcut := cons (by simp [readSize]) (List.length_take_le readSize (byte :: more))
            (ih hdrop)
          rwa [List.take_append_drop] at hcut

/-- A transport reads every segment for itself, in pieces that fit a read. -/
theorem flatMap_pieces (segments : List (List UInt8)) :
    IsCut segments.flatten (segments.flatMap (pieces readSize)) := by
  induction segments with
  | nil => exact nil
  | cons segment rest ih => exact append (piecesFrom (Nat.le_refl _)) ih

end IsCut

/-- However the peer's stream is cut into reads, an exchange ends with the same answer: that to
the shortest beginning of the stream that the codec does not ask to continue, or an error where
the stream ends before there is one. -/
theorem exchange_of_stream {codec : FrameCodec} (hstable : codec.Stable) {request : Request}
    {frame : List UInt8} (hframe : codec.encode request = .ok frame) (stream : List UInt8) :
    (∀ reads, IsCut stream reads →
      (codec.receive request [] reads).result = codec.answer request stream) ∧
    ∀ (bench : PeerBench) (channel : Channel) (chunks : List (List UInt8)),
      bench.channel = some channel → channel.stream chunks = stream →
      (bench.exchange codec request chunks true).1.frame = some frame ∧
        (bench.exchange codec request chunks true).1.result = codec.answer request stream := by
  refine ⟨fun reads hcut => hstable.receive_of_isCut hcut, ?_⟩
  rintro bench channel chunks hchannel rfl
  have hcut : IsCut (channel.stream chunks)
      ((channel.backlog :: if channel.ended then [] else chunks).flatMap (pieces readSize)) := by
    have hpieces := IsCut.flatMap_pieces (channel.backlog :: if channel.ended then [] else chunks)
    rw [List.flatten_cons] at hpieces
    rw [Channel.stream]
    split <;> simp_all
  simp only [PeerBench.exchange, hchannel, hframe]
  exact ⟨trivial, hstable.receive_of_isCut hcut⟩

/-- Once the codec has an answer, it does not look at what follows. -/
theorem RegisterFrame.decode_append {request : Request} {bytes : List UInt8}
    (hanswer : RegisterFrame.decode request bytes ≠ .ok none) (more : List UInt8) :
    RegisterFrame.decode request (bytes ++ more) = RegisterFrame.decode request bytes := by
  match bytes with
  | [] | [_] | [_, _] => simp [decode] at hanswer
  | unit :: function :: code :: content =>
      simp only [decode, List.cons_append] at hanswer ⊢
      by_cases hbad : function = badFunction
      · rw [if_pos hbad, if_pos hbad]
      rw [if_neg hbad] at hanswer
      rw [if_neg hbad, if_neg hbad]
      by_cases hflag : function &&& exceptionFlag ≠ 0
      · rw [if_pos hflag, if_pos hflag]
      rw [if_neg hflag] at hanswer
      rw [if_neg hflag, if_neg hflag]
      cases request with
      | read request =>
          have hsize : 2 * request.range.count.toNat ≤ content.length := by
            by_contra hshort
            exact hanswer (if_pos (Nat.lt_of_not_le hshort))
          have hlonger : 2 * request.range.count.toNat ≤ (content ++ more).length := by
            rw [List.length_append]
            exact Nat.le_add_right_of_le hsize
          simp only [Nat.not_lt.mpr hsize, Nat.not_lt.mpr hlonger, if_false,
            List.take_append_of_le_length hsize]
      | write request =>
          have hsize : acknowledgementSize ≤ content.length + 3 := by
            by_contra hshort
            exact hanswer (if_pos (Nat.lt_of_not_le hshort))
          have hlonger : acknowledgementSize ≤ (content ++ more).length + 3 := by
            rw [List.length_append]
            omega
          simp only [List.length_cons, Nat.not_lt.mpr hsize, Nat.not_lt.mpr hlonger, if_false]

theorem FrameCodec.stable_registers : FrameCodec.registers.Stable := by
  intro request bytes more result hverdict
  have hanswer : RegisterFrame.decode request bytes ≠ .ok none := by
    intro hnone
    simp [verdict?, registers, hnone] at hverdict
  have hlonger : registers.decode request (bytes ++ more) = registers.decode request bytes :=
    RegisterFrame.decode_append hanswer more
  rwa [verdict?, hlonger]

/-- Two holding registers of unit 7 are asked for. -/
def Request.sampleRead : Request := .read ⟨⟨7⟩, .holdingRegister, ⟨0, 2⟩⟩

/-- The answer to the sample and the first byte of something else. -/
def sampleStream : List UInt8 := [7, 3, 4, 0, 1, 0xCA, 0xFE, 7]

/-- The stream is cut inside the head of the frame and inside a register. -/
def sampleReads : List (List UInt8) := [[7], [3, 4, 0, 1, 0xCA], [0xFE, 7]]

/-- An answer in three reads, and the same answer with a part of it left from before. -/
theorem exchange_of_stream_sample :
    FrameCodec.registers.Stable ∧
      FrameCodec.registers.encode .sampleRead = .ok [7, 3, 0, 0, 0, 2] ∧
      IsCut sampleStream sampleReads ∧
      (FrameCodec.registers.receive .sampleRead [] sampleReads).result =
        .ok (.registers [1, 0xCAFE]) ∧
      (({ kind := .reachable, level := .nothing, channel := some { backlog := [7, 3] } } :
        PeerBench).exchange .registers .sampleRead [[4, 0, 1], [0xCA, 0xFE, 7]] true).1.result =
          .ok (.registers [1, 0xCAFE]) := by
  have hanswer : FrameCodec.registers.answer .sampleRead sampleStream =
      .ok (.registers [1, 0xCAFE]) := by
    decide +kernel
  have hencode : FrameCodec.registers.encode .sampleRead = .ok [7, 3, 0, 0, 0, 2] := by decide
  have hcut : IsCut sampleStream sampleReads := ⟨by decide, by decide, by decide⟩
  obtain ⟨hreads, hchunks⟩ :=
    exchange_of_stream FrameCodec.stable_registers hencode sampleStream
  refine ⟨FrameCodec.stable_registers, hencode, hcut, (hreads _ hcut).trans hanswer, ?_⟩
  exact (hchunks _ _ [[4, 0, 1], [0xCA, 0xFE, 7]] rfl (by decide)).2.trans hanswer

end Fieldbus
