import Cognitive.About
import Cognitive.Batch.Archive
import Cognitive.Json.Encoding
import Cognitive.Json.Writer
import Cognitive.Report.Payload
/-!
# The service

Four requests are answered: an uploaded source file, an uploaded archive, code sent as JSON, and the question whether
the service is up.  An upload is the last part of a form that is called `file`, and it must have a file name, be it an
empty one.  Trouble with a request or an archive is answered with status 400, trouble with the code itself with 500.
Code with a lone half of a surrogate pair in it gets no answer, nor does code whose file name has one, unless it cannot
be parsed.
-/
namespace Cognitive
namespace Service

/-- What can be asked for. -/
inductive Route where
  | file
  | archive
  | code
  | health
deriving DecidableEq, Repr

def Route.of? (method path : String) : Option Route :=
  match method, path with
  | "POST", "/analyze" => some .file
  | "POST", "/analyze-zip" => some .archive
  | "POST", "/analyze-code" => some .code
  | "GET", "/health" => some .health
  | _, _ => none

/-- One part of a form. -/
structure Part where
  name : String
  /-- The name of the file that the part holds; none for a plain field. -/
  fileName : Option String
  bytes : ByteArray

/-- The body of a request. -/
inductive Body where
  | form (parts : List Part)
  | other (bytes : ByteArray)

/-- An answer. -/
structure Response where
  status : Nat
  body : Value
deriving Repr

def Response.data (body : Value) : Response := ⟨200, body⟩

def Response.error (status : Nat) (message : String) : Response := ⟨status, .table [("error", .str message)]⟩

def noFile : Response := .error 400 "No file uploaded"

/-- The answer to a request without code or without a name for it. -/
def noCode : Response := .error 400 "Request must include \"code\" and \"filename\""

/-- The upload of a form: the last part with the right name, if it is a file. -/
def Body.upload? : Body → Option (String × ByteArray)
  | .form parts =>
    match parts.reverse.find? fun p => p.name == "file" with
    | some p => p.fileName.map (·, p.bytes)
    | none => none
  | .other _ => none

/-- The data that a body holds as JSON; nothing when it is malformed. -/
def Body.json : Body → Outcome Json
  | .other bytes =>
    match Json.readBytes bytes.toList with
    | .ok v => .ok v
    | .error .malformed => .ok .null
    | .error (.tooLong digits) => breakDown (.numeral (.tooLong digits))
  | .form _ => .ok .null

/-- A text among the entries of an object, unless it is empty. -/
def textOf? (v : Json) (key : String) : Option Script :=
  match v.entry? key with
  | some (.str s) => if s.isEmpty then none else some s
  | _ => none

def uploadName : String := "upload.js"

def answerFile (g : Grammars) (body : Body) : Outcome Response :=
  match body.upload? with
  | none => .ok noFile
  | some (name, bytes) =>
    match g.measure (if name.isEmpty then uploadName else name) (Utf8.decodeSource bytes) with
    | .ok m => .ok (.data m.payload)
    | .error (.refused r) => if r.cls.isAnalysis then .ok (.error 500 r.short) else refuse r
    | .error (.broke b) => breakDown b

def answerArchive (g : Grammars) (s : Settings) (room : Nat) (body : Body) : Outcome Response :=
  match body.upload? with
  | none => .ok noFile
  | some (_, bytes) =>
    match g.analyzeArchive s room bytes with
    | .ok summary => .ok (.data summary.payload)
    | .error (.refused r) =>
      .ok (if r.cls = .invalidArchive then .error 400 r.message else .error 500 r.short)
    | .error (.broke b) => breakDown b

/-- The first run of lone halves in a report that starts with the file name. -/
def reportTear? (name : Script) : Option Tear :=
  name.tear?.map fun t =>
    let before := (name.points.take t.position).filterMap CodePoint.char?
    { t with position := "\x7b\"filename\":\"".length + (before.map Json.writtenWidth).foldr (· + ·) 0 }

def answerCode (g : Grammars) (body : Body) : Outcome Response := do
  let v ← body.json
  match textOf? v "code", textOf? v "filename" with
  | some code, some name =>
    match g.measure name.shown code with
    | .ok m => do
      let report ← m.flatPayload name.shown
      match reportTear? name with
      | none => return .data report
      | some tear => breakDown (.unencodable tear)
    | .error (.refused r) =>
      if r.cls.isAnalysis then .ok (.error 500 ("Failed to analyze code: " ++ r.short)) else refuse r
    | .error (.broke b) => breakDown b
  | _, _ => .ok noCode

/-- The answer to the question whether the service is up. -/
def health : Response := .data (.table [("status", .str "ok"), ("version", .str programVersion)])

/-- Checks that the settings allow the service to start: the origins can be listed. -/
def start (s : Settings) : Outcome Unit := (s .corsOrigins).items.map fun _ => ()

/-- Answers a request, with room for so many folders inside each other in an archive. -/
def answer (g : Grammars) (s : Settings) (room : Nat) (route : Route) (body : Body) : Outcome Response :=
  match route with
  | .file => answerFile g body
  | .archive => answerArchive g s room body
  | .code => answerCode g body
  | .health => .ok health

end Service
end Cognitive
