import FhServer.HeadReading

namespace FhServer
open GoBytes RequestHead ChunkedMessage List

-- A request with a chunked body that this server takes: a head that ends where
-- its first blank line ends and passes the head checks, kept alive, and a body
-- within the stream's grammar.
structure ChunkedRequest (cfg : ServerConfig) where
  head : Bytes
  message : ChunkedMessage
  header : RequestHeader
  fields : List Header
  long : 4 ≤ head.length
  ends : findHeaderEnd head = some (head.length - 4)
  parsed : parseHead cfg head (head.length - 4) = .ok header
  admitted : admitBody cfg header = .ok ()
  chunked : header.chunked = true
  keepAlive : header.keepAlive = true
  lines : ∀ line ∈ message.allLines, StreamLine line
  reads : (streamRules cfg.maxRequestBodySize).Reads message fields

namespace ChunkedRequest
variable {cfg : ServerConfig}

def wire (q : ChunkedRequest cfg) : Bytes := q.head ++ q.message.render

def served (q : ChunkedRequest cfg) : Served := ⟨q.header,q.message.body,q.fields,none⟩

theorem accepted (q : ChunkedRequest cfg) : AcceptedHead cfg q.head q.header := ⟨q.long,q.ends,q.parsed⟩
end ChunkedRequest

theorem readAll_finish
    (lines : ∀ line ∈ m.allLines, StreamLine line) (reads : (streamRules limit).Reads m fields)
    (wire : buffered ++ conn.bytes = m.render ++ rest) (length : Nat) (size : Nat → Nat) :
    ∃ after, (newRequestBodyStream conn buffered length true limit).readAll size ((buffered ++ conn.bytes).length+1) =
        some (m.body,.eof,after) ∧ after.finish = ([],fields,none) ∧ after.conn = conn.drop (m.render.length - buffered.length) := by
  have ended := RequestBodyStream.readAll_decodes size _
    (RequestBodyStream.newRequestBodyStream_ready conn buffered length limit) (Nat.lt_succ_self _)
  have decoded : (newRequestBodyStream conn buffered length true limit).pending = .clean m.body fields rest :=
    stream_clean_iff.mpr ⟨m,wire,lines,reads,rfl⟩
  rw [decoded] at ended
  obtain ⟨after,k,eq,moved,total,-,recorded,-,clear⟩ := ended
  have used : k = m.render.length := by
    have size : (buffered ++ conn.bytes).length = k + rest.length := total
    rw [wire,length_append] at size
    lia
  refine ⟨after,eq,?_,?_⟩
  · simp only [RequestBodyStream.finish,moved.kept,recorded,clear]
    rfl
  · rw [moved.conn,used]
    rfl

theorem hand_over_iff {conn : Conn} (wire : buffered ++ conn.bytes = text ++ rest) :
    (conn.drop (text.length - buffered.length)).bytes = rest ↔ buffered.length ≤ text.length := by
  rw [Conn.drop_bytes]
  have total := congrArg List.length wire
  simp only [length_append] at total
  constructor
  · intro same
    have length := congrArg List.length same
    rw [length_drop] at length
    lia
  · intro within
    obtain ⟨more,rfl⟩ : ∃ more, text = buffered ++ more := by
      obtain ⟨more,eq⟩ := prefix_of_prefix_length_le (prefix_append buffered conn.bytes)
        (wire ▸ prefix_append text rest) within
      exact ⟨more,eq.symm⟩
    rw [append_assoc] at wire
    have tail := append_cancel_left wire
    rw [tail]
    simp

def bodyStream (cfg : ServerConfig) (header : RequestHeader) (headEnd : Nat) (held : LoopState) : RequestBodyStream :=
  newRequestBodyStream held.conn (held.accumulated.drop (headEnd+4)) header.contentLength header.chunked cfg.maxRequestBodySize

theorem serveRequest_step {cfg : ServerConfig} {s : LoopState} {rest : Bytes} {reply : Reply} (q : ChunkedRequest cfg)
    (streaming : cfg.streamRequestBody = true) (persistent : cfg.disableKeepAlive = false) (keeps : reply.Keeps)
    (sound : s.Sound) (ahead : s.bytes = q.wire ++ rest) :
    ∃ held after next, readRequestHead cfg s = .ok (q.head.length - 4,held) ∧
      (bodyStream cfg q.header (q.head.length - 4) held).readAll reply.readSize
        ((bodyStream cfg q.header (q.head.length - 4) held).bytes.length+1) = some (q.message.body,.eof,after) ∧
      serveRequest cfg reply s = .next q.served next ∧ next.Sound ∧ next.bytes = after.finish.1 ++ after.conn.bytes ∧
      (next.bytes = rest ↔ held.accumulated.length ≤ q.wire.length) := by
  rw [ChunkedRequest.wire,append_assoc] at ahead
  obtain ⟨held,read,heldSound,bytes,long⟩ := readRequestHead_reads q.accepted sound ahead
  have index : q.head.length - 4 + 4 = q.head.length := by have := q.long; lia
  have part : held.accumulated <+: q.head ++ (q.message.render ++ rest) := by rw [← bytes]; exact prefix_append _ _
  obtain ⟨buffered,eq⟩ := prefix_of_prefix_length_le (prefix_append q.head _) part long
  have drop : held.accumulated.drop q.head.length = buffered := by rw [← eq,drop_left]
  have wire : buffered ++ held.conn.bytes = q.message.render ++ rest := by
    rw [LoopState.bytes,← eq,append_assoc] at bytes
    exact append_cancel_left bytes
  have stream : bodyStream cfg q.header (q.head.length - 4) held =
      newRequestBodyStream held.conn buffered q.header.contentLength true cfg.maxRequestBodySize := by
    rw [bodyStream,index,drop,q.chunked]
  obtain ⟨after,all,finished,conn⟩ := readAll_finish q.lines q.reads wire q.header.contentLength reply.readSize
  have parsed : parseHead cfg held.accumulated (q.head.length - 4) = .ok q.header := by rw [← eq]; exact parseHead_append q.long q.parsed buffered
  have body : readBody cfg reply q.header (q.head.length - 4 + 4) held = .ok ⟨q.served,[],held.cap,after.conn⟩ := by
    have reading : (newRequestBodyStream held.conn buffered q.header.contentLength true cfg.maxRequestBodySize).readAll
        reply.readSize ((newRequestBodyStream held.conn buffered q.header.contentLength true
          cfg.maxRequestBodySize).bytes.length+1) = some (q.message.body,.eof,after) := all
    simp only [readBody,index,drop,streaming,q.chunked,true_or,and_self,if_true,reading,finished]
    rfl
  let next : LoopState := ⟨[],nextCap cfg true held.cap 0,after.conn⟩
  have serving : serveRequest cfg reply s = .next q.served next := by
    have alive : (q.header.keepAlive && !reply.forceClose && !reply.upgraded && !cfg.disableKeepAlive &&
        !reply.draining && q.served.error.isNone) = true := by
      simp [ChunkedRequest.served,q.keepAlive,keeps.open_,keeps.http1,keeps.serving,persistent]
    simp only [serveRequest,read,parsed,q.admitted,body]
    rw [if_pos alive,q.chunked]
    rfl
  have nextBytes : next.bytes = (held.conn.drop (q.message.render.length - buffered.length)).bytes := by rw [← conn]; rfl
  refine ⟨held,after,next,read,?_,serving,?_,?_,?_⟩
  · rw [stream]; exact all
  · refine ⟨Nat.zero_le _,?_,?_⟩
    · exact nextCap_pos heldSound.room true 0
    · simp only [next,conn]
      exact heldSound.calm
  · rw [finished]; rfl
  · rw [nextBytes,hand_over_iff wire,ChunkedRequest.wire,← eq]
    simp only [length_append]
    lia

section
variable (cfg : ServerConfig) (reply : Nat → Reply)

-- The loop serves the requests one by one, and each time finish and the socket
-- together hold exactly what follows the body.
def KeepsBoundaries : List (ChunkedRequest cfg) → Bytes → LoopState → Prop
  | [],tail,s => s.bytes = tail
  | q :: qs,tail,s => ∃ headEnd held after next, readRequestHead cfg s = .ok (headEnd,held) ∧
      (bodyStream cfg q.header headEnd held).readAll (reply qs.length).readSize
        ((bodyStream cfg q.header headEnd held).bytes.length+1) = some (q.message.body,.eof,after) ∧
      after.finish.1 ++ after.conn.bytes = qs.flatMap ChunkedRequest.wire ++ tail ∧
      serveRequest cfg (reply qs.length) s = .next q.served next ∧ KeepsBoundaries qs tail next

def HeldWithin : List (ChunkedRequest cfg) → LoopState → Prop
  | [],_ => True
  | q :: qs,s => (∀ headEnd held, readRequestHead cfg s = .ok (headEnd,held) → held.accumulated.length ≤ q.wire.length) ∧
      ∀ next, serveRequest cfg (reply qs.length) s = .next q.served next → HeldWithin qs next

variable {cfg} {reply}

-- However many requests with chunked bodies are pipelined and however they
-- arrive, the streaming loop keeps their boundaries exactly when no request was
-- buffered before the one in front of it was read; then it serves all of them.
theorem streamed_boundaries_kept_iff (streaming : cfg.streamRequestBody = true) (persistent : cfg.disableKeepAlive = false)
    (keeps : ∀ n, (reply n).Keeps) (qs : List (ChunkedRequest cfg)) (tail : Bytes) (s : LoopState) (sound : s.Sound)
    (ahead : s.bytes = qs.flatMap ChunkedRequest.wire ++ tail) :
    (KeepsBoundaries cfg reply qs tail s ↔ HeldWithin cfg reply qs s) ∧
      (HeldWithin cfg reply qs s → (serveConn cfg reply qs.length s).1 = qs.map ChunkedRequest.served) := by
  induction qs generalizing s with
  | nil => exact ⟨⟨fun _ => trivial,fun _ => ahead⟩,fun _ => rfl⟩
  | cons q qs ih =>
    rw [flatMap_cons,append_assoc] at ahead
    obtain ⟨held,after,next,read,all,serving,nextSound,nextBytes,kept⟩ :=
      serveRequest_step q streaming persistent (keeps qs.length) sound ahead
    refine ⟨⟨?_,?_⟩,?_⟩
    · rintro ⟨headEnd,other,final,later,again,delivered,handed,served,rest⟩
      rw [read] at again; cases again
      rw [all] at delivered; cases delivered
      rw [serving] at served; cases served
      have here : next.bytes = qs.flatMap ChunkedRequest.wire ++ tail := nextBytes.trans handed
      refine ⟨fun headEnd other again => ?_,fun other served => ?_⟩
      · rw [read] at again; cases again
        exact kept.mp here
      · rw [serving] at served; cases served
        exact (ih next nextSound here).1.mp rest
    · rintro ⟨within,rest⟩
      have here := kept.mpr (within _ _ read)
      exact ⟨_,held,after,next,read,all,nextBytes.symm.trans here,serving,
        (ih next nextSound here).1.mpr (rest next serving)⟩
    · rintro ⟨within,rest⟩
      have here := kept.mpr (within _ _ read)
      have others := (ih next nextSound here).2 (rest next serving)
      simp [serveConn,serving,others]
end

def streamingConfig : ServerConfig := {bufferedConfig with streamRequestBody := true}

def plainReply : Reply := ⟨fun _ => 511,false,false,false⟩

def uploadHead : Bytes := ascii "POST / HTTP/1.1\r\nHost: a\r\nTransfer-Encoding: chunked\r\n\r\n"
def uploadMessage : ChunkedMessage := ⟨[(ascii "2",ascii "hi")],ascii "0",[]⟩

def uploadHeader : RequestHeader :=
  match parseHead streamingConfig uploadHead (uploadHead.length - 4) with
  | .ok header => header
  | .error _ => default

theorem uploadHead_parsed : 4 ≤ uploadHead.length ∧ findHeaderEnd uploadHead = some (uploadHead.length - 4) ∧
    parseHead streamingConfig uploadHead (uploadHead.length - 4) = .ok uploadHeader ∧ admitBody streamingConfig uploadHeader = .ok () ∧
    uploadHeader.chunked = true ∧ uploadHeader.keepAlive = true := by
  decide

-- What follows the head, and what does not yet, changes nothing in it.
theorem head_alone (cfg : ServerConfig) (found : findHeaderEnd buf = some headEnd) (same : other.take (headEnd+4) = buf.take (headEnd+4)) :
    findHeaderEnd other = some headEnd ∧ ∀ h, parseHead cfg other headEnd = .ok h ↔ parseHead cfg buf headEnd = .ok h := by
  have there : findHeaderEnd other = some headEnd := by
    have begun := index_append (other.drop (headEnd+4)) (index_reaches found (Nat.le_refl (headEnd+4)))
    rwa [← same,take_append_drop] at begun
  refine ⟨there,fun h => ?_⟩
  rw [parseHead_iff there,parseHead_iff found,same]

theorem upload_head_alone : parseHead streamingConfig (uploadHead ++ [65]) (uploadHead.length - 4) = .ok uploadHeader := by
  have same : (uploadHead ++ [65]).take (uploadHead.length - 4+4) = uploadHead.take (uploadHead.length - 4+4) := by
    rw [Nat.sub_add_cancel uploadHead_parsed.1,take_left,take_length]
  exact ((head_alone streamingConfig uploadHead_parsed.2.1 same).2 _).mpr uploadHead_parsed.2.2.1

def upload : ChunkedRequest streamingConfig where
  head := uploadHead
  message := uploadMessage
  header := uploadHeader
  fields := []
  long := uploadHead_parsed.1
  ends := uploadHead_parsed.2.1
  parsed := uploadHead_parsed.2.2.1
  admitted := uploadHead_parsed.2.2.2.1
  chunked := uploadHead_parsed.2.2.2.2.1
  keepAlive := uploadHead_parsed.2.2.2.2.2
  lines := by decide
  reads := ⟨⟨by decide,by decide,by decide,trivial⟩,by decide,by decide,by decide⟩

def uploadSegment : {segment : Bytes // segment ≠ []} := ⟨upload.wire,append_ne_nil_of_left_ne_nil (ne_nil_of_length_pos (by have := upload.long; lia)) _⟩
def separateUploads : LoopState := ⟨[],512,⟨[uploadSegment,uploadSegment],.eof,false⟩⟩

theorem separate_uploads_kept : (serveConn streamingConfig (fun _ => plainReply) 2 separateUploads).1 =
    [upload.served,upload.served] := by
  obtain ⟨read,served,again,ahead⟩ : readRequestHead streamingConfig separateUploads =
        .ok (uploadHead.length - 4,⟨upload.wire,512,⟨[uploadSegment],.eof,false⟩⟩) ∧
      serveRequest streamingConfig plainReply separateUploads = .next upload.served ⟨[],512,⟨[uploadSegment],.eof,false⟩⟩ ∧
      readRequestHead streamingConfig ⟨[],512,⟨[uploadSegment],.eof,false⟩⟩ = .ok (uploadHead.length - 4,⟨upload.wire,512,⟨[],.eof,false⟩⟩) ∧
      separateUploads.bytes = [upload,upload].flatMap ChunkedRequest.wire ++ [] := by
    decide +kernel
  refine (streamed_boundaries_kept_iff rfl rfl (fun _ => ⟨rfl,rfl,rfl⟩) [upload,upload] [] separateUploads
    ⟨by decide,by decide,rfl⟩ ahead).2 ⟨fun headEnd held got => ?_,fun next got => ⟨fun headEnd held later => ?_,fun _ _ => trivial⟩⟩
  · rw [read] at got; cases got
    exact Nat.le_refl _
  · rw [served] at got; cases got
    rw [again] at later; cases later
    exact Nat.le_refl _

-- Two uploads in one segment: the second is buffered with the first. finish hands
-- nothing back, and the loop reads on from a connection that is empty.
def pipelinedUploads : LoopState := ⟨upload.wire ++ upload.wire,512,⟨[],.eof,false⟩⟩

theorem pipelined_upload_lost :
    (((bodyStream streamingConfig uploadHeader (uploadHead.length - 4) pipelinedUploads).readAll plainReply.readSize 100).map
      fun result => (result.2.1,result.2.2.finish.1 ++ result.2.2.conn.bytes)) = some (.eof,[]) ∧
    serveConn streamingConfig (fun _ => plainReply) 2 pipelinedUploads = ([upload.served],some (.closed .eof)) := by
  decide +kernel
end FhServer
