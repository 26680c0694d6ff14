import OrchestraAI.Library.TextUnits
import OrchestraAI.Library.OrderedMap
import Mathlib.Data.List.Induction

/-! # Stored credentials

`providers/credential-store.js` and the resolver of `server.js` that adapters get their key from. A
record has a slot, a provider under a scope, and every operation acts on the slot that it names after
the scope was brought to its normal form.
-/

namespace OrchestraAI.Providers.Credentials

open Text (trim sliceUnits lastUnits codeUnitCount)

structure Cipher where
  Enc : Type
  encrypt : (iv apiKey : Text) → Enc
  decrypt : Enc → Option Text
  inverts : ∀ iv apiKey, decrypt (encrypt iv apiKey) = some apiKey

structure Record (c : Cipher) where
  enc : c.Enc
  suffix : Text
  updatedAt : Text
  lastVerifiedAt : Option Text
  lastCheckedAt : Option Text
  lastStatus : Option Text
  lastError : Option Text
  lastLatencyMs : Option ℤ
  modelCount : Option ℤ

abbrev Bucket (c : Cipher) := OrderedMap Text (Record c)

structure Doc (c : Cipher) where
  providers : Bucket c
  scopes : Option (OrderedMap Text (Bucket c))

def Doc.empty {c : Cipher} : Doc c := ⟨.empty, none⟩

structure CredentialStore (c : Cipher) where
  file : Option (Doc c)
  doc : Doc c

def defaultScope : Text := "default".toList

/-- `_scopeKey(scope)`. -/
def scopeKey (scope : Text) : Text :=
  let value := trim (if scope = [] then defaultScope else scope)
  if value ≠ [] ∧ codeUnitCount value ≤ 128 then value else defaultScope

/-- The properties of `Object.prototype`. -/
def prototypeNames : List Text :=
  ["__proto__", "constructor", "hasOwnProperty", "isPrototypeOf", "propertyIsEnumerable",
    "toLocaleString", "toString", "valueOf", "__defineGetter__", "__defineSetter__",
    "__lookupGetter__", "__lookupSetter__"].map String.toList

/-- A scope string whose normal form is no property that the object of the scopes inherits. -/
structure Scope where
  text : Text
  own : scopeKey text ∉ prototypeNames

def Scope.key (scope : Scope) : Text := scopeKey scope.text

def supportedProviders : List Text := ["openrouter", "openai", "anthropic"].map String.toList

def providerId (id : Text) : Text := id.map Char.toLower

def validProvider (id : Text) : Bool := providerId id ∈ supportedProviders

structure Provider where
  text : Text
  supported : validProvider text = true

def Provider.id (p : Provider) : Text := providerId p.text

namespace CredentialStore

variable {c : Cipher}

def new : CredentialStore c := ⟨none, .empty⟩

def bucket (s : CredentialStore c) (key : Text) : Bucket c :=
  if key = defaultScope then s.doc.providers
  else match s.doc.scopes with
    | none => .empty
    | some scopes => (scopes.get key).getD .empty

def hasBucket (s : CredentialStore c) (key : Text) : Bool :=
  key = defaultScope || s.doc.scopes.any (·.has key)

def setBucket (s : CredentialStore c) (key : Text) (providers : Bucket c) : CredentialStore c :=
  if key = defaultScope then { s with doc := { s.doc with providers } }
  else { s with doc := { s.doc with scopes := some ((s.doc.scopes.getD .empty).set key providers) } }

def save (s : CredentialStore c) : CredentialStore c := { s with file := some s.doc }

def restart (s : CredentialStore c) : CredentialStore c :=
  { s with doc := s.file.getD .empty }

def maskKey (key : Text) : Text :=
  "••••".toList ++ if codeUnitCount key < 4 then [] else lastUnits 4 key

structure Meta where
  id : Text
  configured : Bool
  keyMasked : Option Text
  source : Option Text
  updatedAt : Option Text
  lastVerifiedAt : Option Text
  lastStatus : Option Text
  lastError : Option Text
  lastLatencyMs : Option ℤ
  modelCount : Option ℤ

def metaOf (redact : Text → Text) (id : Text) : Option (Record c) → Meta
  | none => ⟨id, false, none, none, none, none, none, none, none, none⟩
  | some r => ⟨id, true, some (maskKey r.suffix), some "stored".toList, some r.updatedAt, r.lastVerifiedAt,
      r.lastStatus, (r.lastError.filter (· ≠ [])).map redact, r.lastLatencyMs, r.modelCount⟩

def keyOf : Option (Record c) → Text
  | none => []
  | some r => (c.decrypt r.enc).getD []

def metaFor (redact : Text → Text) (s : CredentialStore c) (id : Text) (scope : Scope) : Meta :=
  metaOf redact (providerId id) ((s.bucket scope.key).get (providerId id))

def getKey (s : CredentialStore c) (id : Text) (scope : Scope) : Text :=
  keyOf ((s.bucket scope.key).get (providerId id))

def validKey (apiKey : Text) : Bool :=
  8 ≤ codeUnitCount apiKey && codeUnitCount apiKey ≤ 500

def newRecord (iv apiKey now : Text) (previous : Option (Record c)) : Record c where
  enc := c.encrypt iv apiKey
  suffix := lastUnits 4 apiKey
  updatedAt := now
  lastVerifiedAt := previous.bind Record.lastVerifiedAt
  lastCheckedAt := none
  lastStatus := previous.bind Record.lastStatus
  lastError := none
  lastLatencyMs := (previous.bind Record.lastLatencyMs).filter (· ≠ 0)
  modelCount := (previous.bind Record.modelCount).filter (· ≠ 0)

def setKey (s : CredentialStore c) (id apiKey : Text) (scope : Scope) (iv now : Text) : CredentialStore c :=
  if validProvider id ∧ validKey apiKey then
    let providers := s.bucket scope.key
    let previous := providers.get (providerId id)
    (s.setBucket scope.key
      (providers.set (providerId id) (newRecord iv apiKey now previous))).save
  else s

structure Verification where
  ok : Bool
  error : Text
  latencyMs : Option ℤ
  modelCount : Option ℤ

def verified (redact : Text → Text) (result : Verification) (now : Text) (r : Record c) : Record c :=
  { r with
    lastVerifiedAt := if result.ok then some now else r.lastVerifiedAt
    lastCheckedAt := some now
    lastStatus := some (if result.ok then "connected" else "failed").toList
    lastError := if result.ok then none else some (sliceUnits 300 (redact result.error))
    lastLatencyMs := result.latencyMs.or r.lastLatencyMs
    modelCount := result.modelCount.or r.modelCount }

def recordVerification (redact : Text → Text) (s : CredentialStore c) (id : Text) (result : Verification)
    (scope : Scope) (now : Text) : CredentialStore c :=
  let providers := s.bucket scope.key
  match providers.get (providerId id) with
  | none => s
  | some r =>
    (s.setBucket scope.key (providers.set (providerId id) (verified redact result now r))).save

def remove (s : CredentialStore c) (id : Text) (scope : Scope) : CredentialStore c :=
  if s.hasBucket scope.key then
    (s.setBucket scope.key ((s.bucket scope.key).delete (providerId id))).save
  else s.save

/-- The key of the adapter that `getAdapterForScope` builds, with the key of the deployment. -/
def adapterKey (deploymentKey : Text → Text) (s : CredentialStore c) (id : Text)
    (scope : Scope) : Text :=
  let scopedKey := s.getKey id scope
  if scopedKey ≠ [] then scopedKey
  else if scope.text = defaultScope then deploymentKey (providerId id) else []

inductive Op
  | setKey (p : Provider) (apiKey : Text) (scope : Scope) (iv now : Text)
  | recordVerification (p : Provider) (result : Verification) (scope : Scope) (now : Text)
  | remove (p : Provider) (scope : Scope)
  | restart

def step (redact : Text → Text) (s : CredentialStore c) : Op → CredentialStore c
  | .setKey p apiKey scope iv now => s.setKey p.text apiKey scope iv now
  | .recordVerification p result scope now => s.recordVerification redact p.text result scope now
  | .remove p scope => s.remove p.text scope
  | .restart => s.restart

def run (redact : Text → Text) (ops : List Op) : CredentialStore c := ops.foldl (step redact) new

def Op.scope? : Op → Option Scope
  | .setKey _ _ scope _ _ => some scope
  | .recordVerification _ _ scope _ => some scope
  | .remove _ scope => some scope
  | .restart => none

def Op.names (id key : Text) : Op → Bool
  | .setKey p _ scope _ _ => p.id = id && scope.key = key
  | .recordVerification p _ scope _ => p.id = id && scope.key = key
  | .remove p scope => p.id = id && scope.key = key
  | .restart => false

def Op.act (redact : Text → Text) : Op → Option (Record c) → Option (Record c)
  | .setKey _ apiKey _ iv now, old => if validKey apiKey then some (newRecord iv apiKey now old) else old
  | .recordVerification _ result _ now, old => old.map (verified redact result now)
  | .remove .., _ => none
  | .restart, old => old

def slotStep (redact : Text → Text) (id key : Text) (old : Option (Record c)) (op : Op) :
    Option (Record c) :=
  if op.names id key then op.act redact old else old

def Op.keyAct : Op → Option Text → Option Text
  | .setKey _ apiKey _ _ _, current => if validKey apiKey then some apiKey else current
  | .remove .., _ => none
  | _, current => current

def lastKey (id key : Text) (ops : List Op) : Option Text :=
  ops.foldl (fun current op => if op.names id key then op.keyAct current else current) none

variable {s : CredentialStore c} {redact : Text → Text} {key : Text}

def slot (s : CredentialStore c) (id key : Text) : Option (Record c) := (s.bucket key).get id

theorem bucket_setBucket (s : CredentialStore c) (other key : Text) (providers : Bucket c) :
    (s.setBucket other providers).bucket key = if key = other then providers else s.bucket key := by
  by_cases hOther : other = defaultScope
  · subst hOther
    rw [setBucket, if_pos rfl]
    by_cases hKey : key = defaultScope
    · rw [bucket, if_pos hKey, if_pos hKey]
    · rw [if_neg hKey, bucket, bucket, if_neg hKey, if_neg hKey]
  · rw [setBucket, if_neg hOther]
    by_cases hKey : key = defaultScope
    · rw [bucket, bucket, if_pos hKey, if_pos hKey, if_neg fun h => hOther (h.symm.trans hKey)]
    · rw [bucket, bucket, if_neg hKey, if_neg hKey]
      dsimp only
      rw [OrderedMap.get_set]
      split
      · rfl
      · cases s.doc.scopes with
        | none => rfl
        | some scopes => rfl

@[simp] theorem bucket_save (s : CredentialStore c) (key : Text) : s.save.bucket key = s.bucket key := rfl

theorem slot_setBucket (s : CredentialStore c) (other : Text) (providers : Bucket c) (id key : Text) :
    (s.setBucket other providers).save.slot id key =
      if key = other then providers.get id else s.slot id key := by
  rw [slot, bucket_save, bucket_setBucket]
  split
  · rfl
  · rfl

theorem slot_set (s : CredentialStore c) (p : Text) (r : Record c) (other id key : Text) :
    (s.setBucket other ((s.bucket other).set p r)).save.slot id key =
      if p = id ∧ other = key then some r else s.slot id key := by
  rw [slot_setBucket]
  split
  · rename_i hSame
    subst hSame
    rw [OrderedMap.get_set]
    exact if_congr (by rw [and_iff_left rfl, eq_comm]) rfl rfl
  · rename_i hOther
    exact (if_neg fun h => hOther h.2.symm).symm

theorem slot_delete (s : CredentialStore c) (p other id key : Text) :
    (s.setBucket other ((s.bucket other).delete p)).save.slot id key =
      if p = id ∧ other = key then none else s.slot id key := by
  rw [slot_setBucket]
  split
  · rename_i hSame
    subst hSame
    rw [OrderedMap.get_delete]
    exact if_congr (by rw [and_iff_left rfl, eq_comm]) rfl rfl
  · rename_i hOther
    exact (if_neg fun h => hOther h.2.symm).symm

theorem slot_of_not_hasBucket (h : s.hasBucket key = false) (id : Text) : s.slot id key = none := by
  rw [hasBucket, Bool.or_eq_false_iff, decide_eq_false_iff_not] at h
  obtain ⟨hDefault, hScopes⟩ := h
  rw [slot, bucket, if_neg hDefault]
  cases hSome : s.doc.scopes with
  | none => rfl
  | some scopes =>
    rw [hSome] at hScopes
    have hGet : scopes.get key = none := by simpa [OrderedMap.has] using hScopes
    simp [hGet]

def Saved (s : CredentialStore c) : Prop := s.file.getD .empty = s.doc

theorem saved_step (hs : Saved s) (redact : Text → Text) (op : Op) : Saved (step redact s op) := by
  cases op with
  | setKey id apiKey scope iv now =>
    rw [step, setKey]
    split
    · rfl
    · exact hs
  | recordVerification id result scope now =>
    rw [step, recordVerification]
    split
    · exact hs
    · rfl
  | remove id scope =>
    rw [step, remove]
    split
    · rfl
    · rfl
  | restart => rfl

theorem slot_step (hs : Saved s) (redact : Text → Text) (id key : Text) (op : Op) :
    (step redact s op).slot id key = slotStep redact id key (s.slot id key) op := by
  have hNamed (p : Provider) (scope : Scope) :
      (p.id = id && scope.key = key : Bool) = true ↔ p.id = id ∧ scope.key = key := by
    rw [Bool.and_eq_true, decide_eq_true_iff, decide_eq_true_iff]
  cases op with
  | setKey p apiKey scope iv now =>
    rw [step, setKey, slotStep]
    split
    · rename_i hValid
      rw [slot_set]
      refine if_ctx_congr (hNamed p scope).symm (fun h => ?_) fun _ => rfl
      obtain ⟨rfl, rfl⟩ := (hNamed p scope).mp h
      exact (if_pos hValid.2).symm
    · rename_i hNot
      split
      · exact (if_neg fun h => hNot ⟨p.supported, h⟩).symm
      · rfl
  | recordVerification p result scope now =>
    rw [step, recordVerification, slotStep]
    split
    · rename_i hNone
      split
      · rename_i h
        obtain ⟨rfl, rfl⟩ := (hNamed p scope).mp h
        have hSlot : s.slot p.id scope.key = none := hNone
        change _ = Option.map _ _
        rw [hSlot]
        rfl
      · rfl
    · rename_i r hSome
      rw [slot_set]
      refine if_ctx_congr (hNamed p scope).symm (fun h => ?_) fun _ => rfl
      obtain ⟨rfl, rfl⟩ := (hNamed p scope).mp h
      have hSlot : s.slot p.id scope.key = some r := hSome
      change _ = Option.map _ _
      rw [hSlot]
      rfl
  | remove p scope =>
    rw [step, remove, slotStep]
    split
    · rw [slot_delete]
      exact if_congr (hNamed p scope).symm rfl rfl
    · rename_i hNot
      split
      · rename_i h
        obtain ⟨rfl, rfl⟩ := (hNamed p scope).mp h
        exact slot_of_not_hasBucket (Bool.not_eq_true _ ▸ hNot) _
      · rfl
  | restart =>
    change (s.file.getD .empty |> fun d => ({ s with doc := d } : CredentialStore c)).slot id key = s.slot id key
    rw [hs]

theorem saved_run (redact : Text → Text) (ops : List Op) : Saved (run redact ops : CredentialStore c) := by
  induction ops using List.reverseRecOn with
  | nil => rfl
  | append_singleton ops op ih =>
    rw [run, List.foldl_append]
    exact saved_step ih redact op

/-- What a run makes of a slot is what its operations make of it one after the other. -/
theorem slot_run (redact : Text → Text) (ops : List Op) (id key : Text) :
    (run redact ops : CredentialStore c).slot id key = ops.foldl (slotStep redact id key) none := by
  induction ops using List.reverseRecOn with
  | nil =>
    change OrderedMap.get (bucket new key) id = none
    rw [bucket]
    split
    · rfl
    · rfl
  | append_singleton ops op ih =>
    rw [run, List.foldl_append, List.foldl_append, ← ih]
    exact slot_step (saved_run redact ops) redact id key op

theorem slot_other (redact : Text → Text) (ops : List Op) (id : Text) {op : Op} {key : Text}
    (hOther : ∀ other, op.scope? = some other → other.key ≠ key) :
    (step redact (run redact ops) op : CredentialStore c).slot id key =
      (run redact ops : CredentialStore c).slot id key := by
  have hNames : op.names id key = false := by
    cases op with
    | restart => rfl
    | setKey p apiKey scope iv now => simp [Op.names, hOther scope rfl]
    | recordVerification p result scope now => simp [Op.names, hOther scope rfl]
    | remove p scope => simp [Op.names, hOther scope rfl]
  rw [slot_step (saved_run redact ops), slotStep, hNames]
  rfl

def Opens (old : Option (Record c)) (current : Option Text) : Prop :=
  old.map (fun r => c.decrypt r.enc) = current.map some

theorem Opens.act {old : Option (Record c)} {current : Option Text} (h : Opens old current)
    (redact : Text → Text) (op : Op) : Opens (op.act redact old) (op.keyAct current) := by
  cases op with
  | setKey p apiKey scope iv now =>
    rw [Op.act, Op.keyAct]
    split
    · exact congrArg some (c.inverts iv apiKey)
    · exact h
  | recordVerification p result scope now =>
    rw [Op.act, Op.keyAct]
    · rw [Opens, Option.map_map]
      exact h
    all_goals nofun
  | remove p scope => rfl
  | restart => exact h

theorem opens_run (redact : Text → Text) (ops : List Op) (id key : Text) :
    Opens ((run redact ops : CredentialStore c).slot id key) (lastKey id key ops) := by
  rw [slot_run, lastKey]
  induction ops using List.reverseRecOn with
  | nil => rfl
  | append_singleton ops op ih =>
    rw [List.foldl_append, List.foldl_append]
    change Opens (slotStep ..) (if op.names id key then _ else _)
    rw [slotStep]
    split
    · exact ih.act redact op
    · exact ih

theorem keyOf_of_opens {old : Option (Record c)} {current : Option Text} (h : Opens old current) :
    keyOf old = current.getD [] := by
  cases old with
  | none =>
    cases current with
    | none => rfl
    | some k => cases h
  | some r =>
    cases current with
    | none => cases h
    | some k => exact congrArg (·.getD []) (Option.some.inj h)

/-- What is read under a scope depends on what was done under its normal form, and on nothing else. -/
structure Isolated (redact deploymentKey : Text → Text) (ops : List Op) (p : Provider) (scope : Scope) :
    Prop where
  key : (run redact ops : CredentialStore c).getKey p.text scope = (lastKey p.id scope.key ops).getD []
  others : ∀ op : Op, (∀ other, op.scope? = some other → other.key ≠ scope.key) →
    (step redact (run redact ops) op : CredentialStore c).getKey p.text scope =
        (run redact ops : CredentialStore c).getKey p.text scope ∧
      (step redact (run redact ops) op : CredentialStore c).metaFor redact p.text scope =
        (run redact ops : CredentialStore c).metaFor redact p.text scope
  adapter : scope.key ≠ defaultScope →
    (run redact ops : CredentialStore c).adapterKey deploymentKey p.text scope =
      (lastKey p.id scope.key ops).getD []

theorem isolated (c : Cipher) (redact deploymentKey : Text → Text) (ops : List Op) (p : Provider)
    (scope : Scope) : Isolated (c := c) redact deploymentKey ops p scope := by
  have hKey : (run redact ops : CredentialStore c).getKey p.text scope =
      (lastKey p.id scope.key ops).getD [] := keyOf_of_opens (opens_run redact ops p.id scope.key)
  refine ⟨hKey, fun op hOther => ?_, fun hDefault => ?_⟩
  · have hSlot := slot_other (c := c) redact ops p.id hOther
    exact ⟨congrArg keyOf hSlot, congrArg (metaOf redact p.id) hSlot⟩
  · have hText : scope.text ≠ defaultScope := by
      intro hText
      apply hDefault
      rw [Scope.key, hText]
      decide
    rw [adapterKey, hKey, if_neg hText]
    split
    · rfl
    · rename_i hEmpty
      exact (of_not_not hEmpty).symm

def openCipher : Cipher where
  Enc := Text
  encrypt _ apiKey := apiKey
  decrypt enc := some enc
  inverts _ _ := rfl

def openai : Provider := ⟨"openai".toList, rfl⟩

/-- A scope with a blank before it is the scope without it, and one of more than 128 characters reads
what is stored for the deployment. -/
theorem scopes_shared :
    ∃ padded plain long deployment : Scope, padded.text ≠ plain.text ∧ long.text ≠ deployment.text ∧
      deployment.text = defaultScope ∧
      (run (fun t => t) [] : CredentialStore openCipher).getKey openai.text plain = [] ∧
      (run (fun t => t) [.setKey openai "sk-of-another".toList padded [] []] : CredentialStore openCipher).getKey
        openai.text plain = "sk-of-another".toList ∧
      (run (fun t => t) [.setKey openai "sk-deployment".toList deployment [] []] :
        CredentialStore openCipher).adapterKey (fun _ => []) openai.text long = "sk-deployment".toList :=
  ⟨⟨" org-a".toList, by decide +kernel⟩, ⟨"org-a".toList, by decide +kernel⟩,
    ⟨List.replicate 129 'x', by decide +kernel⟩, ⟨defaultScope, by decide +kernel⟩,
    by decide +kernel⟩

end CredentialStore

end OrchestraAI.Providers.Credentials
