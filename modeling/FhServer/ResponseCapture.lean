import FhServer.ResponseWriter

namespace FhServer
open GoBytes

-- A context after CaptureResponseBody, which sets no flag. HTTP/2, entity tags and a transform have flags of their own. The
-- transform and the hooks do not fail, and matched says whether If-None-Match has the entity tag of a body.
structure CaptureCtx where
  ctx : DefaultCtx := {}
  h2 : Bool := false
  autoETag : Bool := false
  transform : Option (Bytes → Bytes) := none
  matched : Bytes → Bool := fun _ => false

inductive BufferedSend where
  | sendString (s : Bytes)
  | html (s : Bytes)
  | jsonString (s : Bytes)
  | sendBytes (b : Bytes)
  | jsonBytes (b : Bytes)
  | xml (b : Bytes)
  | jsonMarshal (b : Bytes)
  | json (b : Bytes)
  | jsonAppend (fn : Option Bytes)
  | sendStatus (code : Int)

namespace CaptureCtx
variable (c : CaptureCtx)

def canDirectWrite200 : Bool := c.ctx.canDirectWrite200 && !c.h2 && !c.autoETag && c.transform.isNone

-- Over HTTP/2 the data goes before the trailers, whatever the method and the status are.
def hides (status : Int) : Bool := !(c.h2 && c.ctx.hasTrailers) && (c.ctx.flags.head || !responseBodyAllowed status)

def tagged (body : Bytes) : Bool := !c.h2 && c.autoETag && decide (c.ctx.status = 0 ∨ c.ctx.status = 200) && c.matched body

-- What ResponseBody returns afterwards, and the body that the connection is given.
def writeResponse (body : Bytes) : Bytes × Bytes :=
  if c.canDirectWrite200 then (body,body)
  else if c.tagged body then (body,if c.hides 304 then [] else c.transform.elim [] fun f => f [])
  else (body,if c.hides c.ctx.status then [] else c.transform.elim body fun f => f body)

def writeResponseString (s : Bytes) : Bytes × Bytes :=
  if c.canDirectWrite200 then (s,s)
  else if c.h2 || c.transform.isSome && responseBodyAllowed c.ctx.status then c.writeResponse s
  else (s,if c.hides c.ctx.status then [] else s)

-- The direct JSON writers record nothing.
def writeJSON (body : Bytes) : Bytes × Bytes := if c.canDirectWrite200 then ([],body) else c.writeResponse body

def withStatus (code : Int) : CaptureCtx := {c with ctx := c.ctx.putStatus code}

def send : BufferedSend → Bytes × Bytes
  | .sendString s | .html s | .jsonString s => c.writeResponseString s
  | .sendBytes b | .jsonBytes b | .xml b | .jsonMarshal b => c.writeResponse b
  | .json b | .jsonAppend (some b) => c.writeJSON b
  | .jsonAppend none => c.writeResponse (ascii "null")
  | .sendStatus code => (c.withStatus code).writeResponse []

-- A body that is not sent is empty, and the transform leaves one that is sent alone.
def Untouched (body : Bytes) : Prop :=
  if c.hides c.ctx.status || c.tagged body then body = [] else ∀ f ∈ c.transform, f body = body

def Keeps : BufferedSend → Prop
  | .sendString s | .html s | .jsonString s =>
    c.canDirectWrite200 = true ∨ if c.h2 || c.transform.isSome then c.Untouched s else c.hides c.ctx.status = true → s = []
  | .sendBytes b | .jsonBytes b | .xml b | .jsonMarshal b => c.canDirectWrite200 = true ∨ c.Untouched b
  | .json b | .jsonAppend (some b) => if c.canDirectWrite200 then b = [] else c.Untouched b
  | .jsonAppend none => c.canDirectWrite200 = true ∨ c.Untouched (ascii "null")
  | .sendStatus code => (c.withStatus code).canDirectWrite200 = true ∨ (c.withStatus code).Untouched []

variable {c}

-- The messages of the response writers end with the body that is handed over here.
structure Plain (c : CaptureCtx) : Prop where
  http1 : c.h2 = false
  untagged : c.autoETag = false
  whole : c.transform = none
  clean : c.ctx.Clean

theorem assemble_payload (c : DefaultCtx) (cfg : ResponseConfig) :
    ∃ head : Nat → Bytes, ∀ body, c.assemble cfg body = head body.length ++ c.payload body :=
  ⟨fun n => appendStatusLine c.status ++ (DefaultCtx.dateLine cfg ++ (c.contentTypeLine ++ (DefaultCtx.fieldLines c.headers ++
    (DefaultCtx.appendSecurityHeaders cfg ++ (c.cookies.flatMap (fun text => ascii "Set-Cookie: " ++ (text ++ crlf)) ++
      (c.framingLines n ++ (c.connectionLine cfg ++ crlf))))))),fun body => by simp only [DefaultCtx.assemble,List.append_assoc]⟩

section
variable (plain : c.Plain)
include plain

theorem Plain.sent (body : Bytes) : c.ctx.payload (c.writeResponse body).2 = c.ctx.payload body := by
  unfold writeResponse DefaultCtx.payload hides tagged
  by_cases direct : c.canDirectWrite200 = true
  · rw [if_pos direct]
  · rw [if_neg direct,plain.http1,plain.untagged,plain.whole]
    cases c.ctx.flags.head <;> cases responseBodyAllowed c.ctx.status <;> simp

theorem Plain.sent_string (s : Bytes) : (c.writeResponseString s).2 = (c.writeResponse s).2 := by
  unfold writeResponseString writeResponse tagged
  simp [plain.http1,plain.untagged,plain.whole]

theorem Plain.payload_direct (can : c.ctx.canDirectWrite200 = true) (body : Bytes) : c.ctx.payload body = body := by
  obtain ⟨status,flags,-,trailers,-⟩ := plain.clean.direct can
  rw [DefaultCtx.payload,DefaultCtx.hasTrailers,status,flags,trailers]
  rfl

theorem writes_captured (cfg : ResponseConfig) : ∃ head text : Nat → Bytes, ∀ body,
    c.ctx.writeResponse cfg body = head body.length ++ c.ctx.payload (c.writeResponse body).2 ∧
      c.ctx.writeResponseString cfg body = text body.length ++ c.ctx.payload (c.writeResponseString body).2 := by
  by_cases direct : c.ctx.canDirectWrite200 = true
  · refine ⟨c.ctx.directHeader cfg,fun n => if decide (n < 256) && c.ctx.bareHeaders cfg && decide (c.ctx.contentType = some .plainTextCT) then
      DefaultCtx.directPlain200Headers n else c.ctx.directHeader cfg n,fun body => ?_⟩
    rw [plain.sent_string,plain.sent,plain.payload_direct direct,DefaultCtx.writeResponse,if_pos direct,DefaultCtx.writeResponseString,
      if_pos direct,DefaultCtx.writeDirect200String]
    refine ⟨rfl,?_⟩
    dsimp only
    split <;> rfl
  · obtain ⟨head,ends⟩ := assemble_payload c.ctx cfg
    refine ⟨head,head,fun body => ?_⟩
    rw [plain.sent_string,plain.sent,DefaultCtx.writeResponse,if_neg direct,DefaultCtx.writeResponseString,if_neg direct]
    exact ⟨ends body,ends body⟩
end

end CaptureCtx
end FhServer
