import OrchestraAI.Execution.FetchGuard

/-! # Confinement of fetches

Every request of a fetch has passed the guards at its own hop, whatever the network answers, and
there are no more of them than redirects are allowed.
-/

namespace OrchestraAI.Execution

open AsyncProgram LabelledSystem

variable (platform : Platform) (policy : Option NetworkPolicy)

/-- The URL has passed the shape and scheme checks and the network policy, and what it was read
from those on the raw text. -/
structure Admitted (url : Url) : Prop where
  guarded : ∃ raw, parseAndGuardUrl platform raw policy = .ok url
  scheme : url.protocol = "https:".toList ∨
    url.protocol = "http:".toList ∧ policy.map NetworkPolicy.networkAccess = some "enabled"
  credentials : url.username = [] ∧ url.password = []
  named : normalizeHostname platform url.hostname ≠ []
  path : traverses url.pathname = false
  host : refusesHost platform (normalizeHostname platform url.hostname) = none
  network : refusesNetwork platform policy (normalizeHostname platform url.hostname) = none

/-- The addresses that were looked at for a host, after what has happened before. -/
def addressesOf (before : List NetEvent) (host : Text) : List Text :=
  if platform.isIP host ≠ 0 then [host]
  else
    match before.getLast? with
    | some (.answered asked records) => if asked = host then records else []
    | _ => []

def Checked (before : List NetEvent) (url : Url) : Prop :=
  let addresses := addressesOf platform before (normalizeHostname platform url.hostname)
  addresses ≠ [] ∧ ∀ address ∈ addresses, blockedIpReason platform.isIP address = none

def NetEvent.isRequest : NetEvent → Bool
  | .requested _ => true
  | _ => false

structure Confined (maxRedirects : Nat) (log : List NetEvent) : Prop where
  vetted : ∀ before url after, log = before ++ .requested url :: after →
    Admitted platform policy url ∧ Checked platform before url
  few : log.countP NetEvent.isRequest ≤ maxRedirects + 1

/-- Each connection is made to an address that was looked at for its request. The code does not
see to it. -/
def Pinned (log : List NetEvent) : Prop :=
  ∀ before url address after, log = before ++ .requested url :: .connected address :: after →
    address ∈ addressesOf platform before (normalizeHostname platform url.hostname)

def SentOutside (log : List NetEvent) : Prop :=
  ∀ before url address after, log = before ++ .requested url :: .connected address :: after →
    blockedIpReason platform.isIP address = none

variable {platform policy} {log : List NetEvent} {maxRedirects : Nat} {url : Url}

theorem admitted_of_guard {raw : Text} (h : parseAndGuardUrl platform raw policy = .ok url)
    (hScheme : schemeAllowedForPolicy url.protocol policy = true) :
    Admitted platform policy url := by
  have hGuarded : ∃ raw, parseAndGuardUrl platform raw policy = .ok url := ⟨raw, h⟩
  unfold parseAndGuardUrl at h
  split at h
  · cases h
  rename_i u hParse
  dsimp only at h
  split at h
  · cases h
  rename_i hProtocol
  split at h
  · cases h
  rename_i hCredentials
  split at h
  · cases h
  rename_i hNamed
  split at h
  · cases h
  rename_i hPath
  split at h
  · cases h
  rename_i hHost
  split at h
  · cases h
  rename_i hNetwork
  cases h
  rw [not_or, not_not, not_not] at hCredentials
  rw [Bool.or_eq_true, not_or] at hPath
  refine ⟨hGuarded, ?_, hCredentials, hNamed, Bool.eq_false_of_not_eq_true hPath.1, hHost, hNetwork⟩
  rw [schemeAllowedForPolicy, Bool.or_eq_true, decide_eq_true_iff, decide_eq_true_iff] at hScheme
  obtain hSecure | hEnabled := hScheme
  · exact .inl hSecure
  · by_cases hSecure : url.protocol = "https:".toList
    · exact .inl hSecure
    · exact .inr ⟨not_not.mp fun hPlain => hProtocol ⟨hPlain, hSecure⟩, hEnabled⟩

theorem guardRecords_ok {host : Text} {records : List Text}
    (h : guardRecords platform host records = .ok ()) :
    ∀ address ∈ records, blockedIpReason platform.isIP address = none := by
  induction records with
  | nil =>
    rintro address hMem
    cases hMem
  | cons first records ih =>
    unfold guardRecords at h
    split at h
    · cases h
    · rename_i hFirst
      rintro address hMem
      obtain rfl | hRest := List.mem_cons.mp hMem
      · exact hFirst
      · exact ih h address hRest

theorem Confined.append (h : Confined platform policy maxRedirects log) {e : NetEvent}
    (he : e.isRequest = false) : Confined platform policy maxRedirects (log ++ [e]) := by
  constructor
  · intro before url after hLog
    obtain rfl | ⟨rest, last, rfl⟩ := after.eq_nil_or_concat
    · obtain ⟨-, rfl⟩ := List.append_inj' hLog rfl |>.imp_right List.singleton_inj.mp
      cases he
    · rw [List.concat_eq_append, ← List.cons_append, ← List.append_assoc] at hLog
      exact h.vetted before url rest (List.append_inj' hLog rfl).1
  · rw [List.countP_append, List.countP_singleton, he]
    exact h.few

theorem Confined.request (h : Confined platform policy maxRedirects log)
    (hAdmitted : Admitted platform policy url) (hChecked : Checked platform log url)
    (hFew : log.countP NetEvent.isRequest ≤ maxRedirects) :
    Confined platform policy maxRedirects (log ++ [.requested url]) := by
  constructor
  · intro before other after hLog
    obtain rfl | ⟨rest, last, rfl⟩ := after.eq_nil_or_concat
    · obtain ⟨rfl, hSame⟩ := List.append_inj' hLog rfl
      cases List.singleton_inj.mp hSame
      exact ⟨hAdmitted, hChecked⟩
    · rw [List.concat_eq_append, ← List.cons_append, ← List.append_assoc] at hLog
      exact h.vetted before other rest (List.append_inj' hLog rfl).1
  · rw [List.countP_append, List.countP_singleton]
    exact Nat.succ_le_succ hFew

variable (platform policy maxRedirects)

def execute (e : NetEvent) (log : List NetEvent) : Unit × List NetEvent := ((), log ++ [e])

/-- What happens keeps the log confined; nothing happens but what the program does. -/
def fetchContract : Contract (List NetEvent) NetEvent FetchWait FetchWait.Answer where
  safe e log := Confined platform policy maxRedirects (log ++ [e])
  allowed _ _ := True
  rely _ log _ log' := log' = log

/-- The program keeps the log confined, and comes to its results with `Q`. -/
def Keeps {α : Type} (p : Fetch α) (log : List NetEvent) (Q : α → List NetEvent → Prop) : Prop :=
  Meets (fetchContract platform policy maxRedirects) execute p log fun r log =>
    match r with
    | .ok a => Q a log
    | .error _ => True

variable {platform policy maxRedirects} {α β : Type} {Q : α → List NetEvent → Prop}

theorem Keeps.bind {p : Fetch α} {f : α → Fetch β} {Q : β → List NetEvent → Prop}
    (h : Keeps platform policy maxRedirects p log fun a log =>
      Keeps platform policy maxRedirects (f a) log Q) :
    Keeps platform policy maxRedirects (p >>= f) log Q := by
  refine Meets.bind (h.mono ?_)
  rintro (e | a) log hQ
  · trivial
  · exact hQ

theorem keeps_throw (e : FetchError) :
    Keeps platform policy maxRedirects (.throw e : Fetch α) log Q := trivial

theorem keeps_ofExcept {r : Except FetchError α} (h : ∀ a, r = .ok a → Q a log) :
    Keeps platform policy maxRedirects (ofExcept r) log Q := by
  cases r with
  | ok a => exact h a rfl
  | error e => trivial

theorem keeps_wait {w : FetchWait} {Q : w.Answer → List NetEvent → Prop} (h : ∀ a, Q a log) :
    Keeps platform policy maxRedirects (wait w) log Q := by
  rintro a _ rfl
  exact h a

theorem keeps_happens {e : NetEvent} {Q : Unit → List NetEvent → Prop}
    (h : Confined platform policy maxRedirects (log ++ [e])) (hQ : Q () (log ++ [e])) :
    Keeps platform policy maxRedirects (happens e) log Q :=
  fun _ => ⟨h, hQ⟩

theorem resolveAndGuardHost_keeps (hLog : Confined platform policy maxRedirects log) (url : Url) :
    Keeps platform policy maxRedirects (resolveAndGuardHost platform url.hostname) log
      fun _ log' => Confined platform policy maxRedirects log' ∧ Checked platform log' url ∧
        log'.countP NetEvent.isRequest = log.countP NetEvent.isRequest := by
  unfold resolveAndGuardHost
  dsimp only
  split
  · rename_i hLiteral
    split
    · exact keeps_throw _
    · rename_i hPublic
      refine ⟨hLog, ?_, rfl⟩
      simp only [Checked, addressesOf, if_pos hLiteral]
      exact ⟨List.cons_ne_nil _ _, fun address hMem => List.mem_singleton.mp hMem ▸ hPublic⟩
  · rename_i hName
    refine Keeps.bind (keeps_wait fun records => ?_)
    cases records with
    | none => exact keeps_throw _
    | some records =>
      have hAnswered := hLog.append
        (e := .answered (normalizeHostname platform url.hostname) records) rfl
      refine Keeps.bind (keeps_happens hAnswered ?_)
      split
      · exact keeps_throw _
      · rename_i hSome
        refine keeps_ofExcept fun addresses hOk => ⟨hAnswered, ?_, ?_⟩
        · simp only [Checked, addressesOf, if_neg hName, List.getLast?_concat, if_true]
          refine ⟨hSome, @guardRecords_ok platform (normalizeHostname platform url.hostname) records ?_⟩
          cases hGuard : guardRecords platform (normalizeHostname platform url.hostname) records with
          | ok _ => rfl
          | error e =>
            rw [hGuard] at hOk
            cases hOk
        · rw [List.countP_append, List.countP_singleton]
          rfl

theorem guardTarget_keeps (refusal : String) (raw : Text)
    (hLog : Confined platform policy maxRedirects log) :
    Keeps platform policy maxRedirects (guardTarget platform policy refusal raw) log
      fun url log' => Confined platform policy maxRedirects log' ∧ Admitted platform policy url ∧
        Checked platform log' url ∧
        log'.countP NetEvent.isRequest = log.countP NetEvent.isRequest := by
  refine Keeps.bind (keeps_ofExcept fun url hGuard => ?_)
  split
  · exact keeps_throw _
  · rename_i hScheme
    have hAdmitted := admitted_of_guard hGuard (by simpa using hScheme)
    refine Keeps.bind ((resolveAndGuardHost_keeps hLog url).mono ?_)
    rintro (e | addresses) log' hResolved
    · trivial
    · exact ⟨hResolved.1, hAdmitted, hResolved.2⟩

theorem doRequest_keeps (hLog : Confined platform policy maxRedirects log)
    (hAdmitted : Admitted platform policy url) (hChecked : Checked platform log url)
    (hFew : log.countP NetEvent.isRequest ≤ maxRedirects) :
    Keeps platform policy maxRedirects (doRequest url) log
      fun _ log' => Confined platform policy maxRedirects log' ∧
        log'.countP NetEvent.isRequest = log.countP NetEvent.isRequest + 1 := by
  have hRequested := hLog.request hAdmitted hChecked hFew
  refine Keeps.bind (keeps_happens hRequested (Keeps.bind (keeps_wait fun answer => ?_)))
  have hConnected := hRequested.append (e := .connected answer.1) rfl
  refine Keeps.bind (keeps_happens hConnected ⟨hConnected, ?_⟩)
  rw [List.countP_append, List.countP_append]
  rfl

/-- A hop with `left` redirects to go makes at most one request more than them. -/
theorem fetchHop_keeps (maxBytes left : Nat) (target : Url)
    (hLog : Confined platform policy maxRedirects log)
    (hLeft : log.countP NetEvent.isRequest + left ≤ maxRedirects) :
    Keeps platform policy maxRedirects (fetchHop platform policy maxBytes left target) log
      fun _ _ => True := by
  induction left using Nat.strong_induction_on generalizing target log with
  | h left ih =>
    unfold fetchHop
    refine Keeps.bind ((guardTarget_keeps _ target.href hLog).mono ?_)
    rintro (e | guarded) hopLog hGuarded
    · trivial
    obtain ⟨hHop, hAdmitted, hChecked, hSame⟩ := hGuarded
    refine Keeps.bind ((doRequest_keeps hHop hAdmitted hChecked (by omega)).mono ?_)
    rintro (e | response) sentLog hRequested
    · trivial
    obtain ⟨hSent, hCount⟩ := hRequested
    cases response with
    | failed message => exact keeps_throw _
    | head statusCode location =>
      dsimp only
      split
      · split
        · exact keeps_throw _
        · split
          · exact keeps_throw _
          · exact ih _ (Nat.lt_succ_self _) _ hSent (by omega)
      · exact Keeps.bind (keeps_wait fun body => keeps_ofExcept fun _ _ => trivial)

theorem confined_nil : Confined platform policy maxRedirects [] := by
  refine ⟨fun before url after hLog => ?_, Nat.zero_le _⟩
  exact absurd hLog.symm (List.append_ne_nil_of_right_ne_nil _ (List.cons_ne_nil _ _))

theorem fetchUrlGuarded_keeps (maxBytes : Nat) (rawUrl : Text) :
    Keeps platform policy maxRedirects
      (fetchUrlGuarded platform policy maxBytes maxRedirects rawUrl) [] fun _ _ => True := by
  refine Keeps.bind ((guardTarget_keeps _ rawUrl confined_nil).mono ?_)
  rintro (e | startUrl) log hGuarded
  · trivial
  · obtain ⟨hLog, -, -, hSame⟩ := hGuarded
    exact fetchHop_keeps maxBytes maxRedirects startUrl hLog (by rw [hSame, List.countP_nil]; omega)

abbrev FetchState := System (List NetEvent) NetEvent (fun _ => Unit) FetchWait FetchWait.Answer FetchError
  FetchResult

abbrev FetchLabel := Label FetchWait FetchWait.Answer Empty

namespace FetchState

def step : FetchState → FetchLabel → Option FetchState :=
  AsyncProgram.step execute (fun _ _ _ => true) (fun i _ _ => i.elim)

variable (platform policy maxRedirects)

/-- `fetchUrlGuarded` has been called. -/
def Start (maxBytes : Nat) (rawUrl : Text) (x : FetchState) : Prop :=
  x = ⟨[], fetchUrlGuarded platform policy maxBytes maxRedirects rawUrl⟩

variable {platform policy maxRedirects} {maxBytes : Nat} {rawUrl : Text} {x y : FetchState}
  {l : FetchLabel}

/-- The log is confined, and the rest of the program keeps it so. -/
structure Sound (platform : Platform) (policy : Option NetworkPolicy) (maxRedirects : Nat)
    (x : FetchState) : Prop where
  log : Confined platform policy maxRedirects x.shared
  rest : Keeps platform policy maxRedirects x.prog x.shared fun _ _ => True

theorem sound_step (hx : Sound platform policy maxRedirects x) (h : step x l = some y) :
    Sound platform policy maxRedirects y := by
  have hRest := hx.rest.step h (fun _ _ _ => trivial) (fun _ _ _ _ _ => rfl)
    (fun i _ _ _ _ _ => i.elim)
  refine ⟨?_, hRest⟩
  rcases step_cases h with ⟨e, k, -, hProg, rfl⟩ | ⟨_, _, _, -, -, -, rfl⟩ | ⟨i, _, _, -, -, -, -⟩
  · exact hx.rest.safe (by rw [hProg]; rfl) trivial
  · exact hx.log
  · exact i.elim

/-- Whatever the network answers, every request has passed the checks at its own hop and has had
its host's addresses looked at there, and there are at most as many redirects as allowed. No
request is sent to a blocked address as long as connections use the addresses that were looked
at. -/
theorem requests_confined
    (h : Reach step Anything (Start platform policy maxRedirects maxBytes rawUrl) x) :
    Confined platform policy maxRedirects x.shared ∧
      (Pinned platform x.shared → SentOutside platform x.shared) := by
  have hSound : Sound platform policy maxRedirects x := by
    refine h.invariant ?_ fun _ _ _ hx _ hstep => sound_step hx hstep
    rintro _ rfl
    exact ⟨confined_nil, fetchUrlGuarded_keeps maxBytes rawUrl⟩
  refine ⟨hSound.log, ?_⟩
  rintro hPinned before url address after hLog
  exact (hSound.log.vetted before url _ hLog).2.2 address (hPinned before url address after hLog)

def exampleUrl (path : String) : Url :=
  ⟨"https:".toList, [], [], "example.org".toList, path.toList,
    "https://example.org".toList ++ path.toList⟩

def smallPlatform : Platform where
  parseUrl raw := [exampleUrl "/a", exampleUrl "/b"].find? fun u => u.href = raw
  resolveUrl location _ := if location = "/b".toList then some (exampleUrl "/b") else none
  isIP text := if (ipv4ToInt text).isSome then 4 else 0
  toLowerCase text := text.map Char.toLower
  decode bytes := bytes.map fun b => Char.ofNat b.toNat

def onlyExample : Option NetworkPolicy := some ⟨"allowlist", ["example.org".toList]⟩

/-- The resolver answers with a public address; the connection is made to `address`. -/
def answers (address : String) (response : NetResponse) : FetchLabel :=
  .resume fun
    | .lookup _ => some ["93.184.216.34".toList]
    | .response => (address.toList, response)
    | .body => ⟨[], none⟩

def called : FetchState :=
  ⟨[], fetchUrlGuarded smallPlatform onlyExample 65536 3 "https://example.org/a".toList⟩

theorem start_called : Start smallPlatform onlyExample 3 65536 "https://example.org/a".toList called :=
  rfl

def firstHop (address : String) (response : NetResponse) : List FetchLabel :=
  [answers address response, .tick, answers address response, .tick, .tick,
    answers address response, .tick]

/-- The first answer is a redirect with a relative location. -/
theorem requests_confined_redirect : ∃ x, run step called (firstHop "93.184.216.34"
      (.head 302 "/b".toList) ++ [answers "93.184.216.34" (.failed []), .tick, .tick]) = some x ∧
    x.shared.getLast? = some (.requested (exampleUrl "/b")) ∧
    Confined smallPlatform onlyExample 3 x.shared := by
  have hRun : ((run step called (firstHop "93.184.216.34" (.head 302 "/b".toList) ++
      [answers "93.184.216.34" (.failed []), .tick, .tick])).map fun x => x.shared.getLast?) =
      some (some (.requested (exampleUrl "/b"))) := by
    decide +kernel
  obtain ⟨x, hx, hLast⟩ := Option.map_eq_some_iff.mp hRun
  exact ⟨x, hx, hLast, (requests_confined (reach_of_run start_called hx)).1⟩

/-- The name that has resolved to a public address resolves to the loopback when the connection is
made. -/
theorem connects_to_loopback : ∃ x, run step called (firstHop "127.0.0.1" (.failed [])) = some x ∧
    x.shared.getLast? = some (.connected "127.0.0.1".toList) ∧
    ¬ Pinned smallPlatform x.shared ∧ ¬ SentOutside smallPlatform x.shared := by
  let host := "example.org".toList
  let checks : List NetEvent :=
    [.answered host ["93.184.216.34".toList], .answered host ["93.184.216.34".toList]]
  have hRun : (run step called (firstHop "127.0.0.1" (.failed []))).map System.shared =
      some (checks ++ .requested (exampleUrl "/a") :: .connected "127.0.0.1".toList :: []) := by
    decide +kernel
  obtain ⟨x, hx, hLog⟩ := Option.map_eq_some_iff.mp hRun
  refine ⟨x, hx, by rw [hLog]; rfl, fun h => ?_, fun h => ?_⟩
  · exact absurd (h checks _ _ [] hLog) (by decide +kernel)
  · exact absurd (h checks _ _ [] hLog) (by decide +kernel)

end FetchState

end OrchestraAI.Execution
