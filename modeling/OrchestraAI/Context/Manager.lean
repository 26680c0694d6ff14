import OrchestraAI.Context.Compression
import OrchestraAI.Context.Selection
import OrchestraAI.Execution.Constraints
import OrchestraAI.Execution.Patch
import OrchestraAI.Library.LabelledSystem

/-! # The context manager

`ContextState` of `state/runtime-state.js`, and what `addContext`, `compressContext` and
`compilePrompt` of `impl/context-manager.js` do with it. The category of a task is given with its text,
and no item is handed to `addContext` twice.
-/

namespace OrchestraAI.Context

open Text (sliceUnits)

/-- The items in a compressed state, with the tokens that it says are reclaimed. -/
structure CompressedItem where
  item : ContextItem
  reclaimedTokens : ℚ

structure ContextState where
  currentTokens : ℚ
  maximumTokens : ℚ
  tokenBudget : ℚ
  contextItems : List ContextItem
  compressedItems : List CompressedItem

namespace ContextState

def addItem (s : ContextState) (item : ContextItem) : ContextState :=
  { s with contextItems := s.contextItems ++ [item], currentTokens := s.currentTokens + item.tokens }

def compressItem (s : ContextState) (itemId : String) (compressedTokens : ℚ) : ContextState × ℚ :=
  match s.contextItems.findIdx? (·.id = itemId) with
  | none => (s, 0)
  | some idx =>
    match s.contextItems[idx]? with
    | none => (s, 0)
    | some found =>
      let reclaimed := found.tokens - compressedTokens
      let item := { found with tokens := compressedTokens, status := some "COMPRESSED".toList }
      ({ s with
        contextItems := s.contextItems.set idx item
        currentTokens := s.currentTokens - reclaimed
        compressedItems := s.compressedItems ++ [⟨item, reclaimed⟩] }, reclaimed)

end ContextState

def emptyMetadata : ItemMetadata := ⟨[], [], [], false, false, [], none, none, none⟩

/-- What is handed to `addContext`, if it is no item yet; of the relevance, `some none` is one that
is not read as a finite number. -/
structure NewItem where
  id : String
  kind : Option Text
  title : Option Text
  source : Text
  tokens : ℚ
  relevance : Option (Option ℚ)
  status : Option Text
  content : Option Text
  importance : Option ℚ
  dependencies : Option (List String)
  createdAt : Option (Option ℚ)
  metadata : Option ItemMetadata

inductive Incoming
  | existing (item : ContextItem)
  | fields (new : NewItem) (newId : String)

def Incoming.contextItem (now : ℚ) : Incoming → ContextItem
  | existing item =>
    { item with
      createdAt := item.createdAt.or (some (some now))
      dependencies := some (item.dependencies.getD []) }
  | fields new newId =>
    { id := if new.id = "" then newId else new.id
      kind := new.kind
      title := new.title
      source := new.source
      tokens := new.tokens
      relevance := new.relevance.getD (some 0.5)
      status := some (new.status.getD "KEEP".toList)
      content := (new.content.map (sliceUnits 8000)).getD []
      importance := (new.importance.or new.relevance.join).map clamp
      dependencies := (new.dependencies.or (new.metadata.bind ItemMetadata.dependsOn)).map (·.take 20)
      createdAt := new.createdAt.or (some (some now))
      isProtected := false
      contextCategory := []
      metadata := new.metadata.getD emptyMetadata }

def addContext (s : ContextState) (items : List Incoming) (now : ℚ) : ContextState :=
  items.foldl (fun s item => s.addItem (item.contextItem now)) s

structure ManagerConfig where
  compressionRatio : ℚ
  relevanceThreshold : ℚ

structure TaskView where
  taskText : Text
  taskCategory : String
  nowMs : ℚ

def TaskView.scoring (view : TaskView) : ScoringContext :=
  ⟨view.taskText, view.taskText, view.taskCategory, defaultWeights, [], view.nowMs, []⟩

/-- The places of the items that may be compressed, the one with the least score first. -/
def candidates (s : ContextState) (view : TaskView) : List (ContextItem × Nat) :=
  let scored := (s.contextItems.zipIdx.filter fun c => c.1.status = some "KEEP".toList).map
    fun c => (c, scoreContextItem view.scoring c.1)
  let ordered := ComparatorSort.sortBy
    (fun a b => (compare a.2 b.2).then (compare b.1.1.tokens a.1.1.tokens)) scored
  (ordered.map Prod.fst).filter fun c =>
    !isProtectedContextItem c.1 && categorizeContextItem c.1 ≠ .neverCompress

def contentOf (item : ContextItem) : Text :=
  textOr (textOr item.metadata.text item.content) (item.title.getD [] ++ ' ' :: item.source)

/-- `Math.floor((item.tokens || 0) * this.config.compressionRatio)`. -/
def targetOf (config : ManagerConfig) (item : ContextItem) : ℚ :=
  max 16 (⌊item.tokens * config.compressionRatio⌋ : ℤ)

def compressionOf (config : ManagerConfig) (view : TaskView) (item : ContextItem) : Compression :=
  compressContent (unitsOf (contentOf item))
    ⟨some (targetOf config item), view.taskText, view.taskText, "structured".toList⟩

/-- The compressed text is kept unless a text that is left as it is has spans: their number is no
list, so that the assignment throws. -/
def withCompressedText (item : ContextItem) (r : Compression) : ContextItem :=
  match r.preserved with
  | .count (_ + 1) => item
  | _ =>
    { item with
      metadata := { item.metadata with compressedText := some (r.compressedContent.take 4000) } }

structure CompressedEntry where
  id : String
  title : Option Text
  reclaimedTokens : ℚ
  newTokens : ℚ
  method : String

structure Compressing where
  state : ContextState
  reclaimed : ℚ
  items : List CompressedEntry

def compressAt (config : ManagerConfig) (view : TaskView) (toReclaim : ℚ) (c : Compressing) (place : Nat) :
    Compressing :=
  if toReclaim ≤ c.reclaimed then c
  else
    match c.state.contextItems[place]? with
    | none => c
    | some item =>
      let r := compressionOf config view item
      let newTokens := min item.tokens r.compressedTokens
      let noted := { c.state with
        contextItems := c.state.contextItems.set place (withCompressedText item r) }
      if item.tokens ≤ newTokens then { c with state := noted }
      else
        let (state, itemReclaimed) := noted.compressItem item.id newTokens
        if itemReclaimed ≤ 0 then { c with state }
        else
          { state, reclaimed := c.reclaimed + itemReclaimed
            items := c.items ++ [⟨item.id, item.title, itemReclaimed, newTokens, r.method⟩] }

def compressContext (config : ManagerConfig) (s : ContextState) (targetTokens : ℚ) (view : TaskView) :
    Compressing :=
  if s.currentTokens ≤ targetTokens then ⟨s, 0, []⟩
  else
    ((candidates s view).map Prod.snd).foldl
      (compressAt config view (s.currentTokens - targetTokens)) ⟨s, 0, []⟩

/-- What a prompt is selected with; the budget is there if it is read as a finite number. -/
structure PromptOptions where
  objective : Text
  userMessage : Text
  query : Text
  /-- The category of the text of the task. -/
  taskCategory : String
  tokenBudget : Option ℚ
  weights : Weights
  nowMs : ℚ

/-- `a || b`, of numbers. -/
def numberOr (a b : ℚ) : ℚ := if a = 0 then b else a

def PromptOptions.taskText (opts : PromptOptions) : Text :=
  let message := Text.trim opts.userMessage
  if message = [] then opts.objective else sliceUnits 8000 message

def selectOptions (config : ManagerConfig) (s : ContextState) (opts : PromptOptions) : SelectOptions where
  tokenBudget :=
    some (opts.tokenBudget.getD (numberOr s.tokenBudget (numberOr s.maximumTokens 64000)))
  relevanceThreshold := some config.relevanceThreshold
  scoring :=
    { query := textOr opts.query opts.taskText
      taskText := opts.taskText
      taskCategory := opts.taskCategory
      weights := opts.weights
      requiredKinds := []
      nowMs := opts.nowMs
      dependencyHits := [] }

/-- The selection of `compilePrompt`. -/
def promptSelection (localeCompare : String → String → Ordering) (config : ManagerConfig)
    (fuel : Nat) (s : ContextState) (opts : PromptOptions) : Option Selection :=
  selectContext localeCompare fuel s.contextItems (selectOptions config s opts)

def shown (t : Option Text) : Text := t.getD "undefined".toList

def lineOf (item : ContextItem) : Text :=
  let extra := if item.metadata.text = [] then [] else
    ": ".toList ++ sliceUnits 800 item.metadata.text
  "- [".toList ++ shown item.kind ++ '/' :: shown item.status ++ "] ".toList ++ shown item.title ++
    extra

inductive Operation
  | addContext (items : List Incoming) (now : ℚ)
  | compressContext (targetTokens : ℚ) (view : TaskView)
  | compilePrompt (opts : PromptOptions)

def operate (config : ManagerConfig) (s : ContextState) : Operation → Option ContextState
  | .addContext items now => some (addContext s items now)
  | .compressContext targetTokens view => some (compressContext config s targetTokens view).state
  | .compilePrompt _ => some s

end OrchestraAI.Context
