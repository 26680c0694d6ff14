import OrchestraAI.Economics.UnknownUsage
import OrchestraAI.Library.OrderedMap
import OrchestraAI.Library.TextUnits
import OrchestraAI.Providers.SseData

/-! # The streams of the adapters

`OpenAICompatibleAdapter.stream` and `AnthropicAdapter.stream` of `providers/provider-adapter.js`
after the response has been opened: what they yield for the chunks of its body.
-/

namespace OrchestraAI.Providers

open Economics Utf8

/-- `v?.key`. -/
def prop (v : Option Json) (key : String) : Option Json :=
  match v with
  | some (.obj fields) => (fields.reverse.find? (·.1 = key)).map Prod.snd
  | _ => none

/-- `v?.[0]`. -/
def first (v : Option Json) : Option Json :=
  match v with
  | some (.arr elems) => elems.head?
  | some (.str s) => s.toList.head?.map fun c => .str (String.ofList [c])
  | _ => prop v "0"

def truthy (v : Option Json) : Bool := v.any Json.truthy

/-- `v || w`. -/
def orElse (v w : Option Json) : Option Json := if truthy v then v else w

def text (t : Text) : Json := .str (String.ofList t)

def isText (v : Option Json) (s : String) : Bool :=
  match v with
  | some (.str t) => t = s
  | _ => false

variable (P : Platform)

/-- `String(v || '')`. -/
def stringOrEmpty (v : Option Json) : Text := if truthy v then v.elim [] P.string else []

/-- What `for (const x of v || [])` runs over; `none` where it throws. -/
def iterated (v : Option Json) : Option (List Json) :=
  if truthy v then
    match v with
    | some (.arr elems) => some elems
    | some (.str s) => some (s.toList.map fun c => .str (String.ofList [c]))
    | _ => none
  else some []

def wire : Option Json → WireField
  | none => .undefined
  | some .null => .null
  | some (.str s) => if s = "" then .empty else .value (P.number (.str s))
  | some v => .value (P.number v)

/-- The fields of a usage that `normalizedUsage` reads. -/
def usagePayload (usage : Json) : UsagePayload :=
  let get (key : String) := prop (some usage) key
  let promptDetails := orElse (get "prompt_tokens_details") (get "input_tokens_details")
  let outputDetails := orElse (get "completion_tokens_details") (get "output_tokens_details")
  { promptTokens := wire P (get "prompt_tokens")
    inputTokens := wire P (get "input_tokens")
    completionTokens := wire P (get "completion_tokens")
    outputTokens := wire P (get "output_tokens")
    detailCachedTokens := wire P (prop promptDetails "cached_tokens")
    cachedTokens := wire P (get "cached_tokens")
    detailReasoningTokens := wire P (prop outputDetails "reasoning_tokens")
    reasoningTokens := wire P (get "reasoning_tokens")
    cost := wire P (get "cost")
    costUsdSnake := wire P (get "cost_usd")
    costUsd := wire P (get "costUsd") }

structure ToolCall where
  id : Option Json
  name : Option Json
  arguments : Json

structure StreamAnswer where
  text : Text
  toolCalls : List ToolCall
  usage : Usage
  stopReason : Json

structure StreamResult where
  answer : StreamAnswer
  requestId : Option Json
  providerMetadata : Option Json

/-- The deltas that are yielded, and the last value unless the stream throws. -/
structure Outcome where
  deltas : List Json
  result : Option StreamResult

def parsedArguments (args : Text) : Json :=
  if args = [] then .obj []
  else (P.parse args).getD (.obj [("_raw", text (Text.sliceUnits 2000 args))])

namespace OpenAi

structure ToolState where
  id : Option Json
  name : Json
  args : Text

structure State where
  text : Text
  usage : Usage
  finishReason : Option Json
  requestId : Option Json
  providerMetadata : Option Json
  toolState : OrderedMap Text ToolState

def start : State :=
  ⟨[], ⟨.undefined, .undefined, .undefined, .undefined, .undefined⟩, none, none, none, .empty⟩

/-- `none` where a tool call is null, and reading its index throws. -/
def readTool (tools : OrderedMap Text ToolState) (tool : Json) : Option (OrderedMap Text ToolState) :=
  match tool with
  | .null => none
  | _ =>
    let index := P.indexText (prop tool "index")
    let id := prop tool "id"
    let existing := (tools.get index).getD
      ⟨orElse id (some (Providers.text ("call-".toList ++ index))), .str "", []⟩
    let function := prop tool "function"
    some (tools.set index
      { id := orElse id existing.id
        name := (orElse (prop function "name") (some existing.name)).getD existing.name
        args := existing.args ++ stringOrEmpty P (prop function "arguments") })

def choiceOf (data : Json) : Option Json := first (prop data "choices")

def deltaOf (data : Json) : Option Json := prop (choiceOf data) "delta"

def contentOf (data : Json) : Text :=
  match prop (deltaOf data) "content" with
  | some (.str s) => s.toList
  | _ => []

def toolCallsOf (data : Json) : Option (List Json) := iterated (prop (deltaOf data) "tool_calls")

def usageOf (data : Json) (usage : Usage) : Usage :=
  match prop data "usage" with
  | some u => if u.truthy then normalizedUsage (usagePayload P u) else usage
  | none => usage

def readEvent (s : State) (data : Json) : List Json × Option State :=
  if truthy (prop data "done") then ([], some s)
  else
    let content := contentOf data
    let deltas := if content = [] then [] else [Providers.text content]
    let tools := (toolCallsOf data).bind fun calls => calls.foldlM (readTool P) s.toolState
    (deltas, tools.map fun tools =>
      { text := s.text ++ content
        usage := usageOf P data s.usage
        finishReason := orElse (prop (choiceOf data) "finish_reason") s.finishReason
        requestId := orElse (prop data "id") s.requestId
        providerMetadata := orElse (orElse (prop data "provider")
          (prop (prop data "metadata") "provider")) s.providerMetadata
        toolState := tools })

def read (s : State) (data : Json) : List Json × Option State :=
  match data with
  | .null => ([], none)
  | _ => readEvent P s data

def flushes (buffer : Text) : Bool := "data:".toList.isPrefixOf (trim P buffer)

def readUsage (s : State) (data : Json) : Option State :=
  match data with
  | .null => none
  | _ => some { s with usage := usageOf P data s.usage }

def flush (s : State) (buffer : Text) : Option State :=
  if flushes P buffer then
    (parseSseData P (buffer ++ ['\n']) true).1.foldlM (readUsage P) s
  else some s

def toolCalls (s : State) : List ToolCall :=
  s.toolState.values.map fun tool =>
    ⟨tool.id, some (if tool.name.truthy then tool.name else .str "unknown"),
      parsedArguments P tool.args⟩

def finish (s : State) : StreamResult :=
  let toolCalls := toolCalls P s
  { answer :=
      { text := s.text
        toolCalls := toolCalls
        usage := s.usage
        stopReason := s.finishReason.getD (.str (if toolCalls = [] then "stop" else "tool_calls")) }
    requestId := s.requestId
    providerMetadata := s.providerMetadata }

def stream (chunks : List Bytes) : Outcome :=
  let body := readBody P (read P) .fresh [] start chunks
  ⟨body.1, body.2.bind fun last => (flush P last.1 last.2).map (finish P)⟩

end OpenAi

namespace Anthropic

/-- A key of the map of tools; an object is a key of its own. -/
inductive IndexKey
  | number (t : Text)
  | string (s : String)
  | yes
  | fresh (n : Nat)
  deriving DecidableEq

structure ToolState where
  id : Option Json
  name : Option Json
  args : Text

structure State where
  text : Text
  counts : AnthropicCounts
  requestId : Option Json
  tools : OrderedMap IndexKey ToolState

def start : State := ⟨[], ⟨none, none, none⟩, none, .empty⟩

/-- `data.index || 0`. -/
def indexOf (data : Json) : Option Json :=
  let index := prop data "index"
  if truthy index then index else none

def indexKey (s : State) (data : Json) : IndexKey :=
  match indexOf data with
  | none | some .null => .number ['0']
  | some (.num n) => .number n.text
  | some (.str t) => .string t
  | some (.bool _) => .yes
  | some (.arr _) | some (.obj _) => .fresh s.tools.size

/-- The text in `data.delta.text`, where the event has some. -/
def textDelta (data : Json) : Option Json :=
  let delta := prop data "delta"
  if isText (prop delta "type") "text_delta" ∧ truthy (prop delta "text") then prop delta "text"
  else none

def startTool (s : State) (data : Json) : State :=
  let block := prop data "content_block"
  if isText (prop block "type") "tool_use" then
    { s with tools := s.tools.set (indexKey s data) ⟨prop block "id", prop block "name", []⟩ }
  else s

def addJson (s : State) (data : Json) : State :=
  let delta := prop data "delta"
  if isText (prop delta "type") "input_json_delta" then
    let tool := (s.tools.get (indexKey s data)).getD
      ⟨some (text ("call-".toList ++ (indexOf data).elim ['0'] P.string)), some (.str "unknown"), []⟩
    { s with
      tools := s.tools.set (indexKey s data)
        { tool with args := tool.args ++ stringOrEmpty P (prop delta "partial_json") } }
  else s

def inputTokensOf (data : Json) : WireField :=
  wire P (prop (prop (prop data "message") "usage") "input_tokens")

def outputTokensOf (data : Json) : WireField := wire P (prop (prop data "usage") "output_tokens")

def reasoningTokensOf (data : Json) : WireField :=
  let usage := prop data "usage"
  wire P (orElse (prop (prop usage "output_tokens_details") "reasoning_tokens")
    (prop usage "reasoning_tokens"))

def readEvent (s : State) (data : Json) : List Json × State :=
  let type := prop data "type"
  if isText type "message_start" then
    ([], { s with
      requestId := orElse (prop (prop data "message") "id") s.requestId
      counts := s.counts.read (.messageStart (inputTokensOf P data)) })
  else if isText type "content_block_start" then ([], startTool s data)
  else if isText type "content_block_delta" then
    ((textDelta data).toList,
      addJson P { s with text := s.text ++ (textDelta data).elim [] P.string } data)
  else if isText type "message_delta" then
    ([], { s with
      counts := s.counts.read (.messageDelta (outputTokensOf P data) (reasoningTokensOf P data)) })
  else ([], s)

def read (s : State) (data : Json) : List Json × Option State :=
  match data with
  | .null => ([], none)
  | _ => ((readEvent P s data).1, some (readEvent P s data).2)

def toolCalls (s : State) : List ToolCall :=
  s.tools.values.map fun tool => ⟨tool.id, tool.name, parsedArguments P tool.args⟩

def finish (s : State) : StreamResult :=
  let toolCalls := toolCalls P s
  { answer :=
      { text := s.text
        toolCalls := toolCalls
        usage :=
          { inputTokens := .ofNullable s.counts.inputTokens
            outputTokens := .ofNullable s.counts.outputTokens
            cachedTokens := .null
            reasoningTokens := .ofNullable s.counts.reasoningTokens
            costUsd := .undefined }
        stopReason := .str (if toolCalls = [] then "end_turn" else "tool_use") }
    requestId := s.requestId
    providerMetadata := none }

def stream (chunks : List Bytes) : Outcome :=
  let body := readBody P (read P) .fresh [] start chunks
  ⟨body.1, body.2.map fun last => finish P last.1⟩

end Anthropic

end OrchestraAI.Providers
