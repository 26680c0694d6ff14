import OrchestraAI.Context.Fingerprint
import OrchestraAI.Library.LabelledSystem
import OrchestraAI.Prompt.Messages

/-! # The response cache

The key under which `_callModel` of `core/orchestrator.js` keeps an answer, and the request that the
answer is to. The key knows the texts of the messages and the names of the tools, and nothing else of
them.
-/

namespace OrchestraAI.Prompt

open Context (FingerprintInput FingerprintItem canonOf fingerprintContext)
open OrchestraAI.Core (ToolRequest Turn)
open LabelledSystem

/-- A tool as `_providerTools` describes it. -/
structure ProviderTool where
  name : String
  description : String
  parameters : Json

structure ModelCall where
  providerId : String
  modelId : String
  stepNumber : Nat
  taskText : String
  /-- The selected items, with their tokens. -/
  selected : List (ContextItem × Option Numeral)
  memoryItems : List MemoryItem
  tools : List ProviderTool
  history : List Turn

namespace ModelCall

variable (c : ModelCall)

def options : Options :=
  ⟨c.stepNumber, c.selected.map Prod.fst, c.memoryItems, c.tools.map ProviderTool.name, ""⟩

def turns : List Turn := placeTask c.taskText (untrusted c.options c.taskText) (c.history.rtake 10)

def fingerprintInput : FingerprintInput where
  taskText := c.taskText.toList
  task := []
  contextItems := c.selected.map fun i =>
    ⟨some i.1.kind.toList, some i.1.title.toList, i.2, []⟩
  memoryItems := c.memoryItems.map fun m => m.title.toList
  toolSpecs := c.tools.map fun t => ⟨t.name.toList, []⟩
  policy := .null

end ModelCall

def role : Turn → String
  | .user _ => "user"
  | .assistant .. => "assistant"
  | .tool .. => "tool"

def content : Turn → String
  | .user content => content
  | .assistant content _ => content
  | .tool _ _ content => content

/-- `${m.role}:${m.content}`. -/
def roleText (t : Turn) : String := role t ++ ":" ++ content t

structure Digests where
  sha256 : Text → Text
  short : Text → Text

structure Digests.CollisionFree (d : Digests) : Prop where
  sha256 : Function.Injective d.sha256
  short : Function.Injective d.short

section Keys

variable (d : Digests)

def historyHash (c : ModelCall) : Text :=
  d.short (stringify (.arr ((c.turns.map roleText).map .str)))

def keyFields (c : ModelCall) : Json :=
  .obj [("p", .str c.providerId), ("m", .str c.modelId),
    ("fp", .str (String.ofList (fingerprintContext d.short c.fingerprintInput))),
    ("h", .str (String.ofList (historyHash d c)))]

def cacheKey (runId : Text) (c : ModelCall) : Text :=
  runId ++ (':' :: "prompt:".toList ++ d.sha256 (stringify (keyFields d c)))

end Keys

structure SentMessage where
  role : String
  content : String
  toolCalls : List ToolRequest
  toolCallId : Option String

def sent : Message → SentMessage
  | .system content => ⟨"system", content, [], none⟩
  | .turn (.user content) => ⟨"user", content, [], none⟩
  | .turn (.assistant content calls) => ⟨"assistant", content, calls, none⟩
  | .turn (.tool toolCallId _ content) => ⟨"tool", content, [], some toolCallId⟩

structure ProviderRequest where
  provider : String
  model : String
  messages : List SentMessage
  tools : List ProviderTool

def requestAt (stepNumber : Nat) (c : ModelCall) : ProviderRequest where
  provider := c.providerId
  model := c.modelId
  messages := (messagesFor { c.options with stepNumber } c.taskText c.history).map sent
  tools := c.tools

def SameRequest (a b : ModelCall) : Prop := requestAt 0 a = requestAt 0 b

def Genuine (d : Digests) (runId : Text) (a b : ModelCall) : Prop :=
  cacheKey d runId a = cacheKey d runId b → SameRequest a b

structure SameTexts (a b : ModelCall) : Prop where
  provider : a.providerId = b.providerId
  model : a.modelId = b.modelId
  canon : canonOf a.fingerprintInput = canonOf b.fingerprintInput
  texts : a.turns.map roleText = b.turns.map roleText

def links : Turn → List ToolRequest × Option String
  | .user _ => ([], none)
  | .assistant _ calls => (calls, none)
  | .tool toolCallId _ _ => ([], some toolCallId)

structure SameStructure (a b : ModelCall) : Prop where
  tools : a.tools = b.tools
  links : a.turns.map links = b.turns.map links

variable {d : Digests} {runId : Text} {a b : ModelCall}

theorem roleText_toList (t : Turn) :
    (roleText t).toList = (role t).toList ++ ':' :: (content t).toList := by
  simp [roleText]

theorem roleText_eq_iff {t u : Turn} : roleText t = roleText u ↔ role t = role u ∧ content t = content u := by
  constructor
  · intro h
    have hList := congrArg String.toList h
    rw [roleText_toList, roleText_toList] at hList
    cases t <;> cases u <;> simp_all [role, content, String.toList_inj]
  · rintro ⟨hRole, hContent⟩
    rw [roleText, roleText, hRole, hContent]

theorem sent_turn_eq_iff {t u : Turn} :
    sent (.turn t) = sent (.turn u) ↔ roleText t = roleText u ∧ links t = links u := by
  rw [roleText_eq_iff]
  cases t <;> cases u <;> simp [sent, role, content, links]

theorem cacheKey_eq_iff (hDigests : d.CollisionFree) :
    cacheKey d runId a = cacheKey d runId b ↔ SameTexts a b := by
  constructor
  · intro h
    have hFields := stringify_injective (hDigests.sha256 (List.append_cancel_left (List.append_cancel_left h)))
    simp only [keyFields, Json.obj.injEq, List.cons.injEq, Prod.mk.injEq, Json.str.injEq, true_and,
      and_true, String.ofList_inj] at hFields
    obtain ⟨hProvider, hModel, hFingerprint, hHistory⟩ := hFields
    have hTexts := stringify_injective (hDigests.short hHistory)
    rw [Json.arr.injEq] at hTexts
    have hStr : Function.Injective Json.str := fun _ _ h => Json.str.inj h
    exact ⟨hProvider, hModel, (Context.fingerprint_eq_iff hDigests.short _ _).mp hFingerprint,
      List.map_injective_iff.mpr hStr hTexts⟩
  · rintro ⟨hProvider, hModel, hCanon, hTexts⟩
    rw [cacheKey, cacheKey, keyFields, keyFields, historyHash, historyHash, hProvider, hModel, hTexts,
      Context.fingerprint_congr d.short hCanon]

theorem map_sent_eq {ts us : List Turn} (hTexts : ts.map roleText = us.map roleText)
    (hLinks : ts.map links = us.map links) :
    ts.map (fun t => sent (.turn t)) = us.map fun t => sent (.turn t) := by
  induction ts generalizing us with
  | nil =>
    cases us with
    | nil => rfl
    | cons u us => cases hTexts
  | cons t ts ih =>
    cases us with
    | nil => cases hTexts
    | cons u us =>
      obtain ⟨hText, hTexts⟩ := List.cons.inj hTexts
      obtain ⟨hLink, hLinks⟩ := List.cons.inj hLinks
      rw [List.map_cons, List.map_cons, ih hTexts hLinks, sent_turn_eq_iff.mpr ⟨hText, hLink⟩]

theorem messages_requestAt (n : Nat) (c : ModelCall) : (requestAt n c).messages =
    sent (.system (systemText { c.options with stepNumber := n })) ::
      c.turns.map fun t => sent (.turn t) := by
  rw [requestAt, messagesFor, List.map_cons, List.map_map]
  rfl

/-- Of calls that have their texts in common, the requests differ in what the key does not know. -/
theorem sameRequest_iff (hTexts : SameTexts a b) : SameRequest a b ↔ SameStructure a b := by
  constructor
  · intro hSame
    have hMessages := congrArg ProviderRequest.messages hSame
    rw [messages_requestAt, messages_requestAt] at hMessages
    have hLinks := congrArg (List.map fun m => (m.toolCalls, m.toolCallId)) (List.cons.inj hMessages).2
    have hLinksOf (c : ModelCall) : (c.turns.map fun t => sent (.turn t)).map
        (fun m => (m.toolCalls, m.toolCallId)) = c.turns.map links := by
      rw [List.map_map]
      refine List.map_congr_left fun t _ => ?_
      cases t <;> rfl
    rw [hLinksOf, hLinksOf] at hLinks
    exact ⟨congrArg ProviderRequest.tools hSame, hLinks⟩
  · rintro ⟨hTools, hLinks⟩
    have hSystem : systemText { a.options with stepNumber := 0 } =
        systemText { b.options with stepNumber := 0 } := by
      simp only [systemText, ModelCall.options, hTools]
      rfl
    have hMessages : (requestAt 0 a).messages = (requestAt 0 b).messages := by
      rw [messages_requestAt, messages_requestAt, hSystem, map_sent_eq hTexts.texts hLinks]
    rw [SameRequest, requestAt, requestAt, ProviderRequest.mk.injEq]
    exact ⟨hTexts.provider, hTexts.model, hMessages, hTools⟩

theorem genuine_iff (hDigests : d.CollisionFree) (runId : Text) (a b : ModelCall) :
    Genuine d runId a b ↔ (SameTexts a b → SameStructure a b) := by
  rw [Genuine, cacheKey_eq_iff hDigests]
  exact forall_congr' sameRequest_iff

def explain : String := "explain the entry point"

/-- The first call of a step: the step before it, the first, has had an empty answer. -/
def opening (stepNumber : Nat) : ModelCall where
  providerId := "openai"
  modelId := "gpt"
  stepNumber := stepNumber
  taskText := explain
  selected := [(⟨"chat", "KEEP", "User task", explain⟩, some (.ofNat 6))]
  memoryItems := []
  tools := [⟨"search_code", "Bounded code search over the workspace", .obj [("type", .str "object")]⟩]
  history := [.user explain, .assistant "" []]

def timedOut : String := "ERROR: Tool search_code timed out after 15000ms"

/-- The second call of the second step, when the search that the first has asked for has timed out. -/
def afterSearch (callId query : String) : ModelCall :=
  { opening 2 with
    selected := (opening 2).selected ++
      [(⟨"tool_result", "KEEP", "search_code result", timedOut⟩, some (.ofNat 32))]
    history := (opening 2).history ++
      [.assistant "" [⟨callId, "search_code", .obj [("query", .str query)]⟩],
        .tool callId "search_code" timedOut] }

theorem sameTexts_afterSearch (callId query callId' query' : String) :
    SameTexts (afterSearch callId query) (afterSearch callId' query') :=
  ⟨rfl, rfl, rfl, rfl⟩

theorem eq_of_sameRequest {callId query callId' query' : String}
    (h : SameRequest (afterSearch callId query) (afterSearch callId' query')) :
    callId = callId' ∧ query = query' := by
  have hLinks := ((sameRequest_iff (sameTexts_afterSearch callId query callId' query')).mp h).links
  have hCall (callId query : String) : ((afterSearch callId query).turns.map links)[2]? =
      some ([⟨callId, "search_code", .obj [("query", .str query)]⟩], none) := rfl
  have hCalls := congrArg (fun l => l[2]?) hLinks
  simp only [hCall] at hCalls
  simpa using hCalls

def Digests.plain : Digests := ⟨id, id⟩

theorem Digests.plain_collisionFree : plain.CollisionFree :=
  ⟨Function.injective_id, Function.injective_id⟩

/-- The calls whose answers were stored, and the calls that got one of these with the call that it was
stored for. -/
structure Served where
  stored : List ModelCall
  served : List (ModelCall × ModelCall)

/-- A call goes to the provider and its answer is stored, or it gets a stored answer of its key. -/
structure Asked where
  call : ModelCall
  source : Option Nat

def answer (d : Digests) (runId : Text) (s : Served) (l : Asked) : Option Served :=
  match l.source with
  | none => some { s with stored := s.stored ++ [l.call] }
  | some n =>
    (s.stored[n]?.filter fun e => cacheKey d runId e = cacheKey d runId l.call).map fun e =>
      { s with served := s.served ++ [(l.call, e)] }

/-- The call has its texts in common with a stored one only if it has all in common with it. -/
def Apart (s : Served) (l : Asked) : Prop :=
  ∀ e ∈ s.stored, SameTexts e l.call → SameStructure e l.call

theorem answer_asked (s : Served) (c : ModelCall) :
    answer d runId s ⟨c, none⟩ = some { s with stored := s.stored ++ [c] } :=
  rfl

theorem answer_served {s : Served} {n : Nat} {e c : ModelCall} (hStored : s.stored[n]? = some e)
    (hKey : cacheKey d runId e = cacheKey d runId c) :
    answer d runId s ⟨c, some n⟩ = some { s with served := s.served ++ [(c, e)] } := by
  simp [answer, hStored, hKey]

theorem answer_keeps (hDigests : d.CollisionFree) {s t : Served} {l : Asked}
    (h : ∀ p ∈ s.served, SameRequest p.1 p.2) (hApart : Apart s l)
    (hStep : answer d runId s l = some t) : ∀ p ∈ t.served, SameRequest p.1 p.2 := by
  rw [answer] at hStep
  split at hStep
  · obtain rfl := Option.some.inj hStep
    exact h
  · rename_i n _
    obtain ⟨e, hFound, rfl⟩ := Option.map_eq_some_iff.mp hStep
    obtain ⟨hStored, hKey⟩ := Option.filter_eq_some_iff.mp hFound
    have hGenuine := (genuine_iff hDigests runId e l.call).mpr (hApart e (List.mem_of_getElem? hStored))
    intro p hp
    obtain hp | hp := List.mem_append.mp hp
    · exact h p hp
    · rw [List.mem_singleton.mp hp]
      exact (hGenuine (of_decide_eq_true hKey)).symm

/-- Every answer of the cache is to the request that was asked, in a run of such calls. -/
theorem replay_iff (hDigests : d.CollisionFree) (runId : Text) :
    (∀ a b, Genuine d runId a b ↔ (SameTexts a b → SameStructure a b)) ∧
      ∀ s, Reach (answer d runId) Apart (· = ⟨[], []⟩) s → ∀ p ∈ s.served, SameRequest p.1 p.2 := by
  refine ⟨genuine_iff hDigests runId, fun s hRun => ?_⟩
  apply hRun.invariant
  · rintro _ rfl p hp
    cases hp
  · exact fun _ _ _ h hApart hStep => answer_keeps hDigests h hApart hStep

/-- A step that an error of the provider has ended, and the next one with the same request. -/
theorem replay_iff_step : Genuine .plain "run".toList (opening 2) (opening 3) :=
  ((replay_iff Digests.plain_collisionFree "run".toList).1 _ _).mpr fun _ => ⟨rfl, rfl⟩

/-- A retry goes back to the end of the first step, asks for another search, and is given the answer
after the search of before. -/
theorem replays_other :
    ∃ s, Reach (answer .plain "run".toList) Anything (· = ⟨[], []⟩) s ∧
      ∃ p ∈ s.served, ¬ SameRequest p.1 p.2 := by
  let first := afterSearch "call_1" "main"
  let second := afterSearch "call_2" "start"
  have hAsked : Reach (answer .plain "run".toList) Anything (· = ⟨[], []⟩) ⟨[first], []⟩ :=
    Reach.next (.start rfl) trivial (answer_asked ⟨[], []⟩ first)
  have hKey : cacheKey .plain "run".toList first = cacheKey .plain "run".toList second :=
    (cacheKey_eq_iff Digests.plain_collisionFree).mpr (sameTexts_afterSearch ..)
  refine ⟨_, hAsked.next trivial (answer_served (n := 0) rfl hKey), _, List.mem_singleton_self _,
    fun hSame => ?_⟩
  exact absurd (eq_of_sameRequest hSame).2 (by decide)

end OrchestraAI.Prompt
