import Mathlib
import GeoLedger.Library.Blocks
import GeoLedger.Library.JsonText

/-! The event stream on the wire: the frames that `_run_events_stream` sends and
the incremental parser of the simulator client. Texts are lists of characters,
as a chunk may end anywhere. -/
namespace SseWire
open JsonText Blocks

abbrev Text := List Char

/-- The white space that `trim` removes. -/
def isJsWhitespace (c : Char) : Bool :=
  c.toNat ∈ [0x9, 0xA, 0xB, 0xC, 0xD, 0x20, 0xA0, 0x1680, 0x2028, 0x2029, 0x202F, 0x205F, 0x3000, 0xFEFF] ||
    (0x2000 ≤ c.toNat && c.toNat ≤ 0x200A)

def trimStart (text : Text) : Text := text.dropWhile isJsWhitespace

def trim (text : Text) : Text := (trimStart text).rdropWhile isJsWhitespace

section Frames

/-- An event of the stream: its identifier has no white space. -/
structure StreamEvent where
  id : Text
  payload : List (String × Json)
  id_nonempty : id ≠ []
  id_solid : ∀ c ∈ id, isJsWhitespace c = false

/-- What `_run_events_stream` yields. -/
inductive StreamItem where
  | event (event : StreamEvent)
  | keepAlive

inductive LineEnd where
  | lf
  | crlf

def LineEnd.chars : LineEnd → Text
  | .lf => ['\n']
  | .crlf => ['\r', '\n']

/-- The JSON text of an event. -/
def StreamEvent.data (e : StreamEvent) : Text := dumps Escaping.unicode (.dict e.payload)

/-- The lines of `_sse_format`, and of a keep-alive comment, before the empty one. -/
def StreamItem.lines : StreamItem → List Text
  | .event e => ["id: ".toList ++ e.id, "event: simulator.event".toList, "data: ".toList ++ e.data]
  | .keepAlive => [": keep-alive".toList]

/-- `_sse_format`, and the keep-alive comment. -/
def StreamItem.frame (lineEnd : LineEnd) (item : StreamItem) : Text :=
  item.lines.flatMap (· ++ lineEnd.chars) ++ lineEnd.chars

/-- The whole text of a stream. -/
def streamText (lineEnd : LineEnd) (items : List StreamItem) : Text := items.flatMap (StreamItem.frame lineEnd)

end Frames

section Parser

structure SseParsedMessage where
  id : Option Text
  event : Option Text
  data : Option Text
deriving DecidableEq

/-- `chunk.replace(/\r\n/g, '\n')`. -/
def normalizeCrlf : Text → Text
  | '\r' :: '\n' :: rest => '\n' :: normalizeCrlf rest
  | c :: rest => c :: normalizeCrlf rest
  | [] => []

/-- The fields read from the lines of a frame so far. -/
structure FrameFields where
  id : Option Text
  event : Option Text
  dataLines : List Text

def FrameFields.empty : FrameFields := ⟨none, none, []⟩

/-- One line of a frame. -/
def readLine (fields : FrameFields) (line : Text) : FrameFields :=
  if line = [] then fields
  else if ":".toList.isPrefixOf line then fields
  else if "id:".toList.isPrefixOf line then { fields with id := some (trim (line.drop 3)) }
  else if "event:".toList.isPrefixOf line then { fields with event := some (trim (line.drop 6)) }
  else if "data:".toList.isPrefixOf line then
    { fields with dataLines := fields.dataLines ++ [trimStart (line.drop 5)] }
  else fields

/-- The message of the fields, if any field was read. -/
def FrameFields.message (fields : FrameFields) : Option SseParsedMessage :=
  let data := if fields.dataLines = [] then none else some (['\n'].intercalate fields.dataLines)
  if fields.id = none ∧ fields.event = none ∧ data = none then none
  else some ⟨fields.id, fields.event, data⟩

/-- One frame between two separators. -/
def frameMessage (rawFrame : Text) : Option SseParsedMessage :=
  if trim rawFrame = [] then none
  else ((rawFrame.splitOn '\n').foldl readLine .empty).message

/-- The `while (true)` loop; every round removes at least the separator. -/
def drain : Nat → Text → List SseParsedMessage × Text
  | 0, buffer => ([], buffer)
  | fuel + 1, buffer =>
      match nextBlock '\n' buffer with
      | none => ([], buffer)
      | some (rawFrame, rest) =>
          ((frameMessage rawFrame).toList ++ (drain fuel rest).1, (drain fuel rest).2)

/-- `parseSseChunk`: the messages, and the buffer after them. -/
def parseSseChunk (buffer chunk : Text) : List SseParsedMessage × Text :=
  let buffer := buffer ++ normalizeCrlf chunk
  drain buffer.length buffer

/-- The read loop of `connectSse`: chunks fed one after another. -/
def parseChunks : Text → List Text → List SseParsedMessage × Text
  | buffer, [] => ([], buffer)
  | buffer, chunk :: rest =>
      let parsed := parseSseChunk buffer chunk
      let later := parseChunks parsed.2 rest
      (parsed.1 ++ later.1, later.2)

end Parser

/-- The message that the client should read from an event. -/
def StreamEvent.message (e : StreamEvent) : SseParsedMessage :=
  ⟨some e.id, some "simulator.event".toList, some e.data⟩

def StreamItem.event? : StreamItem → Option StreamEvent
  | .event e => some e
  | .keepAlive => none

/-- The events of a stream, keep-alives dropped. -/
def streamMessages (items : List StreamItem) : List SseParsedMessage :=
  items.filterMap fun item => item.event?.map StreamEvent.message

end SseWire
