import Mathlib.Data.List.DropRight
import OrchestraAI.Core.Episode
import OrchestraAI.Execution.Constraints

/-! # The messages of a model call

`compilePrompt` of `impl/context-manager.js` and `normalizeAnthropicMessages` of
`providers/provider-adapter.js`. What `selectContext` and the memory search have found is
given.
-/

namespace OrchestraAI.Prompt

open OrchestraAI.Core (Turn ToolRequest cut)

structure ContextItem where
  kind : String
  status : String
  title : String
  /-- `metadata.text`. -/
  text : String

structure MemoryItem where
  scope : String
  title : String
  snippet : String

structure Options where
  stepNumber : Nat
  selected : List ContextItem
  memoryItems : List MemoryItem
  toolNames : List String
  systemExtra : String

inductive Message
  | system (content : String)
  | turn (t : Turn)

def taskText (objective userMessage : String) : String :=
  let trimmed := String.ofList (Text.trim userMessage.toList)
  if trimmed = "" then objective else cut 8000 trimmed

def contextLine (item : ContextItem) : String :=
  let extra := if item.text = "" then "" else ": " ++ cut 800 item.text
  s!"- [{item.kind}/{item.status}] {item.title}{extra}"

def memoryLine (item : MemoryItem) : String :=
  let scope := if item.scope = "" then "working" else item.scope
  s!"- ({scope}) {item.title}: " ++ cut 300 item.snippet

def paragraphs (parts : List String) : String :=
  "\n\n".intercalate (parts.filter fun part => part ≠ "")

def titled (title : String) (lines : List String) : String :=
  if lines.isEmpty then "" else title ++ ":\n" ++ "\n".intercalate lines

def untrusted (o : Options) (task : String) : String :=
  paragraphs
    ["Task content (untrusted):\n" ++ task,
      titled "Selected context (untrusted)" (o.selected.map contextLine),
      titled "Retrieved memory (untrusted)" (o.memoryItems.map memoryLine)]

def systemText (o : Options) : String :=
  let step := o.stepNumber
  let toolNames := o.toolNames.filter fun name => name ≠ ""
  let listed := ", ".intercalate toolNames
  paragraphs
    ["You are the execution model for an adaptive agent runtime.",
      s!"Step {step}. Answer concisely. When finished with no further actions, say so explicitly.",
      if toolNames.isEmpty then "No tools available; answer directly."
      else s!"Available tools: {listed}. Use them via tool calls when they would help; otherwise answer directly.",
      cut 2000 o.systemExtra]

def isTask (task : String) : Turn → Bool
  | .user content => content = task
  | _ => false

def placeTask (task text : String) (history : List Turn) : List Turn :=
  match history.findIdx? (isTask task) with
  | some i => history.set i (.user text)
  | none => if text = "" then history else history ++ [.user text]

def messagesFor (o : Options) (task : String) (history : List Turn) : List Message :=
  .system (systemText o) :: (placeTask task (untrusted o task) (history.rtake 10)).map .turn

def compilePrompt (o : Options) (objective userMessage : String) (history : List Turn) :
    List Message :=
  messagesFor o (taskText objective userMessage) history

inductive Block
  | text (text : String)
  | toolUse (id name : String) (input : Json)
  | toolResult (toolUseId : Option String) (content : String)

inductive Role
  | user
  | assistant
  deriving DecidableEq

inductive Content
  | blocks (blocks : List Block)
  | text (text : String)

structure AnthropicMessage where
  role : Role
  content : Content

def textBlocks (content : String) : List Block := if content = "" then [] else [.text content]

def toolUse (blocks : List Block) (call : ToolRequest) : Block :=
  let place := blocks.length
  .toolUse (if call.id = "" then s!"call-{place}" else call.id)
    (if call.name = "" then "unknown" else call.name) call.arguments

def withCalls (blocks : List Block) (calls : List ToolRequest) : List Block :=
  calls.foldl (fun blocks call => blocks ++ [toolUse blocks call]) blocks

def ofBlocks (role : Role) (blocks : List Block) : AnthropicMessage :=
  ⟨role, if blocks.isEmpty then .text "" else .blocks blocks⟩

def assistantMessage (content : String) (calls : List ToolRequest) : AnthropicMessage :=
  ofBlocks .assistant (withCalls (textBlocks content) calls)

def toolResult (toolCallId content : String) : Block :=
  .toolResult (if toolCallId = "" then none else some toolCallId) content

def appendToolResult (normalized : List AnthropicMessage) (block : Block) :
    List AnthropicMessage :=
  match normalized.getLast? with
  | some ⟨.user, .blocks blocks⟩ => normalized.dropLast ++ [⟨.user, .blocks (blocks ++ [block])⟩]
  | _ => normalized ++ [⟨.user, .blocks [block]⟩]

def normalizeMessage (normalized : List AnthropicMessage) : Message → List AnthropicMessage
  | .system _ => normalized
  | .turn (.tool id _ content) => appendToolResult normalized (toolResult id content)
  | .turn (.user content) => normalized ++ [ofBlocks .user (textBlocks content)]
  | .turn (.assistant content calls) => normalized ++ [assistantMessage content calls]

def normalizeAnthropicMessages (messages : List Message) : List AnthropicMessage :=
  messages.foldl normalizeMessage []

end OrchestraAI.Prompt
