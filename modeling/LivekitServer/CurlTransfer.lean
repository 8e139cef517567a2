import LivekitServer.CurlHeaders
import LivekitServer.CurlResponse
import LivekitServer.Monitor

/-!
# One easy handle for all threads

`CurlTransport::Send` as the calls it makes: it builds the list of header lines, takes the mutex of
the transport, sets the options of the easy handle, transfers, and leaves in the reverse order on
every path. Threads send on one transport at the same time. Each transfer then runs on the options
of its own request, with a header list that is still there, and the handle is reset before the
mutex is free again.
-/

namespace LivekitServer.CurlTransport

section Calls

/-- A pointer to a list of header lines. -/
abbrev Slist := ℕ

/-- `CURLE_OK` is 0. -/
abbrev CurlCode := ℕ

/-- The options that `Send` sets, with what it lends to libcurl: the text behind a pointer, a list,
or the address of the response state. -/
inductive EasyOption
  | url (text : Bytes)
  | protocols (text : Bytes)
  | followLocation (on : ℤ)
  | noSignal (on : ℤ)
  | timeoutMs (milliseconds : ℤ)
  | verifyPeer (on : ℤ)
  | verifyHost (level : ℤ)
  | httpHeader (list : Option Slist)
  | postFields (body : Bytes)
  | postFieldSize (size : ℕ)
  | customRequest (method : Bytes)
  | writeFunction
  | writeData (state : ℕ)
  | headerFunction
  | headerData (state : ℕ)
  deriving DecidableEq

/-- What a transfer does: the callbacks it makes, each with what its allocation throws, and the code
it returns. -/
structure Transferred where
  events : List (Event × Option Thrown)
  code : CurlCode

inductive EasyCall
  | string (text : Bytes)
  | slistAppend (list : Option Slist) (line : Bytes)
  | slistFreeAll (list : Slist)
  | lock
  | unlock
  | reset
  | setopt (option : EasyOption)
  | perform
  | strerror (code : CurlCode)
  | responseCode

abbrev EasyCall.Reply : EasyCall → Type
  | .string _ => Unit
  | .slistAppend _ _ => Option Slist
  | .slistFreeAll _ => Unit
  | .lock => Unit
  | .unlock => Unit
  | .reset => Unit
  | .setopt _ => CurlCode
  | .perform => Transferred
  | .strerror _ => Bytes
  | .responseCode => CurlCode × ℤ

abbrev EasyProgram := Program EasyCall EasyCall.Reply Thrown

def ask (call : EasyCall) : EasyProgram call.Reply := Program.perform call

/-- One `Send`: its request, and where its local variable `state` is. -/
structure Sending where
  request : HttpRequest
  state : ℕ

/-- A response with its headers. -/
structure Received where
  statusCode : ℤ
  headers : List (Bytes × Bytes)
  body : Bytes

end Calls

section Sends

/-- `Check`. -/
def check (code : CurlCode) : EasyProgram Unit :=
  if code = 0 then pure ()
  else do
    let text : Bytes ← ask (.strerror code)
    (raise .transport text : Outcome Unit)

/-- The loop over the headers: the list it leaves to its owner, and how it ends. -/
def buildHeaders : List (Bytes × Bytes) → Option Slist →
    EasyProgram (Option Slist × Outcome Unit)
  | [], list => pure (list, .ok ())
  | (name, value) :: rest, list =>
    if !headerAdmitted name value then
      pure (list, raise .invalidArgument (ascii "invalid HTTP header"))
    else
      (ask (.string (headerLine name value))).resume fun
        | .error e => pure (list, .error e)
        | .ok _ => do
          let next : Option Slist ← ask (.slistAppend list (cString (headerLine name value)))
          match next with
          | none => pure (list, .error (.standard (ascii "std::bad_alloc")))
          | some next => buildHeaders rest (some next)

/-- The deleter of the list; an owner of nothing deletes nothing. -/
def freeHeaders : Option Slist → EasyProgram Unit
  | none => pure ()
  | some list => ask (.slistFreeAll list)

/-- The options in the order in which they are set. -/
def options (maxLong : ℤ) (sending : Sending) (list : Option Slist) : List EasyOption :=
  [.url (cString sending.request.url), .protocols (ascii "http,https"), .followLocation 0,
    .noSignal 1, .timeoutMs (min sending.request.timeout maxLong), .verifyPeer 1, .verifyHost 2,
    .httpHeader list, .postFields sending.request.body,
    .postFieldSize sending.request.body.length, .customRequest (cString sending.request.method),
    .writeFunction, .writeData sending.state, .headerFunction, .headerData sending.state]

def setOptions : List EasyOption → EasyProgram Unit
  | [] => pure ()
  | option :: rest => do
    let code : CurlCode ← ask (.setopt option)
    check code
    setOptions rest

/-- A callback with what its allocation throws. -/
def callBack (state : ResponseState) : Event × Option Thrown → ResponseState
  | (.header delivery, fault) => (header fault state delivery).1
  | (.body delivery, fault) => (body fault state delivery).1

/-- The response state that the callbacks of a transfer leave. -/
def Transferred.state (transferred : Transferred) : ResponseState :=
  transferred.events.foldl callBack ⟨[], [], none⟩

/-- `static_cast<int>` of a `long`. -/
def toInt (n : ℤ) : ℤ := (n + 2 ^ 31) % 2 ^ 32 - 2 ^ 31

/-- What follows `curl_easy_perform`. -/
def conclude (transferred : Transferred) : EasyProgram Received :=
  match transferred.state.failure with
  | some e => .done (.error e)
  | none => do
    check transferred.code
    let status : CurlCode × ℤ ← ask .responseCode
    check status.1
    pure ⟨toInt status.2, transferred.state.headers, transferred.state.body⟩

/-- `Send` between the two resets. -/
def transfer (maxLong : ℤ) (sending : Sending) (list : Option Slist) : EasyProgram Received := do
  setOptions (options maxLong sending list)
  let transferred : Transferred ← ask .perform
  conclude transferred

/-- `Send` under the mutex. -/
def resetAround (maxLong : ℤ) (sending : Sending) (list : Option Slist) :
    EasyProgram Received := do
  ask .reset
  (transfer maxLong sending list).resume fun result => do
    ask .reset
    .done result

def locked (maxLong : ℤ) (sending : Sending) (list : Option Slist) : EasyProgram Received := do
  ask .lock
  (resetAround maxLong sending list).resume fun result => do
    ask .unlock
    .done result

/-- `CurlTransport::Send`. -/
def sendEasy (maxLong : ℤ) (sending : Sending) : EasyProgram Received := do
  checkRequest sending.request
  let built ← buildHeaders sending.request.headers none
  Program.resume
    (match built.2 with
      | .error e => .done (.error e)
      | .ok _ => locked maxLong sending built.1)
    fun result => do
      freeHeaders built.1
      .done result

end Sends

section Ledger

/-- The calls of a `Send` so far, with their replies. -/
abbrev History := List (Monitor.Event EasyCall.Reply Thrown)

/-- What the calls of one `Send` so far come to: the lists that have not been freed and their lines,
whether only such lists were freed, and what libcurl has replied. -/
structure Ledger where
  lists : Slist → Option (List Bytes)
  sound : Bool
  transferred : Option Transferred
  status : Option (CurlCode × ℤ)
  text : Option (CurlCode × Bytes)

def Ledger.record (ledger : Ledger) : Monitor.Event EasyCall.Reply Thrown → Ledger
  | ⟨.slistAppend none line, .ok (some list)⟩ =>
    { ledger with lists := Function.update ledger.lists list (some [line]) }
  | ⟨.slistAppend (some old) line, .ok (some list)⟩ =>
    { ledger with
      lists := Function.update (Function.update ledger.lists old none) list
        ((ledger.lists old).map (· ++ [line])) }
  | ⟨.slistFreeAll list, _⟩ =>
    { ledger with
      lists := Function.update ledger.lists list none
      sound := ledger.sound && (ledger.lists list).isSome }
  | ⟨.perform, .ok transferred⟩ => { ledger with transferred := some transferred }
  | ⟨.responseCode, .ok status⟩ => { ledger with status := some status }
  | ⟨.strerror code, .ok text⟩ => { ledger with text := some (code, text) }
  | _ => ledger

def ledger (history : History) : Ledger :=
  history.foldl Ledger.record ⟨fun _ => none, true, none, none, none⟩

@[simp] theorem ledger_append (history : History)
    (event : Monitor.Event EasyCall.Reply Thrown) :
    ledger (history ++ [event]) = (ledger history).record event := by
  rw [ledger, List.foldl_append]
  rfl

/-- Nothing but one list with these lines, or nothing. -/
def owned : Option Slist → List Bytes → Slist → Option (List Bytes)
  | none, _ => fun _ => none
  | some list, lines => Function.update (fun _ => none) list (some lines)

/-- How `Send` ends, by what libcurl has replied: an exception of a callback comes before the code
of the transfer, and that before the status. -/
def ResultOf (ledger : Ledger) (result : Outcome Received) : Prop :=
  match ledger.transferred with
  | none => ∃ e, result = .error e
  | some transferred =>
    match transferred.state.failure with
    | some e => result = .error e
    | none =>
      if transferred.code ≠ 0 then
        ∃ text, ledger.text = some (transferred.code, text) ∧ result = raise .transport text
      else
        ∃ status, ledger.status = some status ∧
          if status.1 ≠ 0 then
            ∃ text, ledger.text = some (status.1, text) ∧ result = raise .transport text
          else
            result =
              .ok ⟨toInt status.2, transferred.state.headers, transferred.state.body⟩

end Ledger

section Handle

/-- The easy handle: the options that have been set since its last reset. -/
def easyMonitor : Monitor EasyCall EasyCall.Reply Thrown (List EasyOption) where
  use
    | .lock => .acquire
    | .unlock => .release
    | .reset => .touch
    | .setopt _ => .touch
    | .perform => .touch
    | .responseCode => .touch
    | _ => .elsewhere
  effect s
    | .reset, _ => []
    | .setopt option, .ok 0 => s ++ [option]
    | _, _ => s
  possible _
    | .string _, _ => True
    | .lock, _ => True
    | _, reply => reply.isOk = true

/-- The handle is reset whenever the mutex is free. -/
def easyRules : Monitor.Rules easyMonitor :=
  ⟨fun s => s = [], fun _ _ => True, fun _ => trivial, fun _ _ _ _ _ => trivial⟩

/-- A transfer runs once, on the options of its request and with the list of its headers. -/
def performs (maxLong : ℤ) (sending : Sending)
    (history : History) : EasyCall → Monitor.View (List EasyOption) → Prop
  | .perform, .held s => ∃ list, s = options maxLong sending list ∧
      (ledger history).lists = owned list (sending.request.headers.map lineOf) ∧
      (ledger history).transferred = none
  | _, _ => True

/-- A `Send` has freed its list, nothing twice, and ends by what libcurl has replied. -/
structure Ended (history : History)
    (result : Outcome Received) : Prop where
  freed : (ledger history).lists = fun _ => none
  sound : (ledger history).sound = true
  result : ResultOf (ledger history) result

end Handle

section Parts

open Monitor

variable {permits : History → EasyCall → View (List EasyOption) → Prop}
  {history : History} {view : View (List EasyOption)}

/-- The end of a check: nothing, or the error of the code. -/
def Checked (code : CurlCode) (before after : Ledger) (result : Outcome Unit) : Prop :=
  code = 0 ∧ after = before ∧ result = .ok () ∨
    code ≠ 0 ∧ ∃ text, after = { before with text := some (code, text) } ∧
      result = raise .transport text

theorem safe_check (hpermits : ∀ history code view, permits history (.strerror code) view)
    (code : CurlCode) :
    Safe easyRules permits
      (fun after r view' => view' = view ∧ Checked code (ledger history) (ledger after) r)
      (check code) history view := by
  unfold check
  by_cases hcode : code = 0
  · rw [if_pos hcode]
    exact ⟨rfl, Or.inl ⟨hcode, rfl, rfl⟩⟩
  · rw [if_neg hcode]
    apply safe_elsewhere_resume rfl (hpermits _ _ _)
    intro x reply hreply
    cases reply with
    | error e => cases hreply
    | ok text => exact ⟨rfl, Or.inr ⟨hcode, text, ledger_append _ _, rfl⟩⟩

variable {maxLong : ℤ} {sending : Sending} {s : List EasyOption}

/-- The options are set one after the other, up to the first that libcurl refuses. -/
theorem safe_setOptions (rest : List EasyOption) :
    Safe easyRules (performs maxLong sending)
      (fun after r view => ∃ s', view = .held s' ∧
        (r = .ok () ∧ s' = s ++ rest ∧ ledger after = ledger history ∨
          ∃ e text, r = .error e ∧ ledger after = { ledger history with text := text }))
      (setOptions rest) history (.held s) := by
  induction rest generalizing history s with
  | nil => exact ⟨s, rfl, Or.inl ⟨rfl, (List.append_nil s).symm, rfl⟩⟩
  | cons option rest ih =>
      rw [setOptions]
      apply safe_touch_resume rfl trivial
      intro reply hreply
      refine ⟨trivial, ?_⟩
      cases reply with
      | error e => cases hreply
      | ok code =>
          have hledger : ledger (history ++ [⟨.setopt option, .ok code⟩]) = ledger history :=
            ledger_append _ _
          apply (safe_check (fun _ _ _ => trivial) code).bind
          · rintro after e view ⟨rfl, ⟨-, -, herror⟩ | ⟨-, text, htext, -⟩⟩
            · cases herror
            · rw [hledger] at htext
              exact ⟨_, rfl, Or.inr ⟨e, _, rfl, htext⟩⟩
          · rintro after a view ⟨rfl, ⟨rfl, hafter, -⟩ | ⟨-, text, -, hok⟩⟩
            · rw [hledger] at hafter
              have hset := @ih after (s ++ [option])
              rw [hafter, List.append_assoc] at hset
              exact hset
            · cases hok

/-- The lists are as before. -/
def KeepsLists (before after : Ledger) : Prop :=
  after.lists = before.lists ∧ after.sound = before.sound

theorem safe_conclude {transferred : Transferred}
    (hfound : (ledger history).transferred = some transferred) :
    Safe easyRules (performs maxLong sending)
      (fun after r view => (∃ s', view = .held s') ∧ KeepsLists (ledger history) (ledger after) ∧
        ResultOf (ledger after) r)
      (conclude transferred) history (.held s) := by
  rw [conclude]
  cases hfailure : transferred.state.failure with
  | some e =>
      refine ⟨⟨s, rfl⟩, ⟨rfl, rfl⟩, ?_⟩
      simp only [ResultOf, hfound, hfailure]
  | none =>
      apply (safe_check (fun _ _ _ => trivial) transferred.code).bind
      · rintro after e view ⟨rfl, ⟨-, -, herror⟩ | ⟨hcode, text, hafter, he⟩⟩
        · cases herror
        · refine ⟨⟨s, rfl⟩, ?_, ?_⟩
          · rw [hafter]
            exact ⟨rfl, rfl⟩
          · simp only [ResultOf, hafter, hfound, hfailure]
            rw [if_pos hcode]
            exact ⟨text, rfl, congrArg Except.error (Except.error.inj he)⟩
      · rintro checked a view ⟨rfl, ⟨hcode, hchecked, -⟩ | ⟨-, text, -, hok⟩⟩
        · apply safe_touch_resume rfl trivial
          intro reply hreply
          refine ⟨trivial, ?_⟩
          cases reply with
          | error e => cases hreply
          | ok status =>
              have hstatus : ledger (checked ++ [⟨.responseCode, .ok status⟩]) =
                  { ledger history with status := some status } := by
                rw [ledger_append, hchecked]
                rfl
              apply (safe_check (fun _ _ _ => trivial) status.1).bind
              · rintro after e view ⟨rfl, ⟨-, -, herror⟩ | ⟨hrefused, text, hafter, he⟩⟩
                · cases herror
                · rw [hstatus] at hafter
                  refine ⟨⟨s, rfl⟩, ?_, ?_⟩
                  · rw [hafter]
                    exact ⟨rfl, rfl⟩
                  · simp only [ResultOf, hafter, hfound, hfailure]
                    rw [if_neg (not_not.mpr hcode)]
                    refine ⟨status, rfl, ?_⟩
                    rw [if_pos hrefused]
                    exact ⟨text, rfl, congrArg Except.error (Except.error.inj he)⟩
              · rintro after a view ⟨rfl, ⟨hread, hafter, -⟩ | ⟨-, text, -, hok⟩⟩
                · rw [hstatus] at hafter
                  refine ⟨⟨s, rfl⟩, ?_, ?_⟩
                  · rw [hafter]
                    exact ⟨rfl, rfl⟩
                  · simp only [ResultOf, hafter, hfound, hfailure]
                    rw [if_neg (not_not.mpr hcode)]
                    refine ⟨status, rfl, ?_⟩
                    rw [if_neg (not_not.mpr hread)]
                · cases hok
        · cases hok

theorem safe_transfer {list : Option Slist}
    (hlists : (ledger history).lists = owned list (sending.request.headers.map lineOf))
    (hfirst : (ledger history).transferred = none) :
    Safe easyRules (performs maxLong sending)
      (fun after r view => (∃ s', view = .held s') ∧ KeepsLists (ledger history) (ledger after) ∧
        ResultOf (ledger after) r)
      (transfer maxLong sending list) history (.held []) := by
  rw [transfer]
  apply (safe_setOptions (options maxLong sending list)).bind
  · rintro after e view ⟨s', rfl, ⟨hok, -⟩ | ⟨e', text, he, hafter⟩⟩
    · cases hok
    · refine ⟨⟨s', rfl⟩, ?_, ?_⟩
      · rw [hafter]
        exact ⟨rfl, rfl⟩
      · simp only [ResultOf, hafter, hfirst]
        exact ⟨e, rfl⟩
  · rintro set a view ⟨s', rfl, ⟨-, rfl, hset⟩ | ⟨e', text, he, -⟩⟩
    · apply safe_touch_resume rfl
      · exact ⟨list, rfl, by rw [hset, hlists], by rw [hset, hfirst]⟩
      intro reply hreply
      refine ⟨trivial, ?_⟩
      cases reply with
      | error e => cases hreply
      | ok transferred =>
          have hperformed : ledger (set ++ [⟨.perform, .ok transferred⟩]) =
              { ledger history with transferred := some transferred } := by
            rw [ledger_append, hset]
            rfl
          have hconclude := @safe_conclude (set ++ [⟨.perform, .ok transferred⟩]) maxLong sending
            (options maxLong sending list) transferred (by rw [hperformed])
          rw [hperformed] at hconclude
          exact hconclude
    · cases he

/-- The ledger does not count a call that only changes the handle or the mutex. -/
theorem resultOf_append {history : History} {call : EasyCall} {reply : Outcome call.Reply}
    {start : Ledger} {r : Outcome Received}
    (hquiet : (ledger history).record ⟨call, reply⟩ = ledger history)
    (h : KeepsLists start (ledger history) ∧ ResultOf (ledger history) r) :
    KeepsLists start (ledger (history ++ [⟨call, reply⟩])) ∧
      ResultOf (ledger (history ++ [⟨call, reply⟩])) r := by
  rw [ledger_append, hquiet]
  exact h

theorem safe_resetAround {list : Option Slist}
    (hlists : (ledger history).lists = owned list (sending.request.headers.map lineOf))
    (hfirst : (ledger history).transferred = none) :
    Safe easyRules (performs maxLong sending)
      (fun after r view => view = .held [] ∧ KeepsLists (ledger history) (ledger after) ∧
        ResultOf (ledger after) r)
      (resetAround maxLong sending list) history (.held s) := by
  rw [resetAround]
  apply safe_touch_resume rfl trivial
  intro reply hreply
  refine ⟨trivial, ?_⟩
  cases reply with
  | error e => cases hreply
  | ok _ =>
      have hreset : ledger (history ++ [⟨.reset, .ok ()⟩]) = ledger history := ledger_append _ _
      have htransfer := @safe_transfer (history ++ [⟨.reset, .ok ()⟩]) maxLong sending list
        (by rw [hreset, hlists]) (by rw [hreset, hfirst])
      rw [hreset] at htransfer
      apply htransfer.resume
      rintro after r view ⟨⟨s', rfl⟩, hends⟩
      apply safe_touch_resume rfl trivial
      intro reply hreply
      refine ⟨trivial, ?_⟩
      cases reply with
      | error e => cases hreply
      | ok _ => exact ⟨rfl, resultOf_append rfl hends⟩

/-- The mutex is free again, the handle reset, and the lists are as before. -/
theorem safe_locked {list : Option Slist} {x : List EasyOption}
    (hlists : (ledger history).lists = owned list (sending.request.headers.map lineOf))
    (hfirst : (ledger history).transferred = none) :
    Safe easyRules (performs maxLong sending)
      (fun after r view => (∃ s', view = .seen s') ∧ KeepsLists (ledger history) (ledger after) ∧
        ResultOf (ledger after) r)
      (locked maxLong sending list) history (.seen x) := by
  rw [locked]
  apply safe_acquire_resume rfl trivial
  · intro _ e _
    have hlock : ledger (history ++ [⟨.lock, .error e⟩]) = ledger history := ledger_append _ _
    refine ⟨⟨x, rfl⟩, ?_, ?_⟩
    · rw [hlock]
      exact ⟨rfl, rfl⟩
    · simp only [ResultOf, hlock, hfirst]
      exact ⟨e, rfl⟩
  · intro s' _ _ a
    have hlock : ledger (history ++ [⟨.lock, .ok a⟩]) = ledger history := ledger_append _ _
    have hreset := @safe_resetAround (history ++ [⟨.lock, .ok a⟩]) maxLong sending s' list
      (by rw [hlock, hlists]) (by rw [hlock, hfirst])
    rw [hlock] at hreset
    apply hreset.resume
    rintro after r view ⟨rfl, hends⟩
    apply safe_release_resume rfl trivial rfl
    intro reply hreply
    cases reply with
    | error e => cases hreply
    | ok _ => exact ⟨⟨_, rfl⟩, resultOf_append rfl hends⟩

/-- The list with one more line is the only one. -/
theorem record_slistAppend {before : Ledger} {list : Option Slist} {lines : List Bytes}
    {line : Bytes} {next : Slist} (hlists : before.lists = owned list lines)
    (hempty : list = none → lines = []) :
    before.record ⟨.slistAppend list line, .ok (some next)⟩ =
      { before with lists := owned (some next) (lines ++ [line]) } := by
  cases list with
  | none =>
      rw [hempty rfl, Ledger.record, hlists]
      rfl
  | some old =>
      rw [Ledger.record, hlists, owned, Function.update_idem, Function.update_self,
        Function.update_eq_self (a := old)]
      rfl

/-- The lines so far are in the list, and the lines of all headers once the loop is through. -/
theorem safe_buildHeaders (headers : List (Bytes × Bytes)) {list : Option Slist}
    {lines : List Bytes} (hlists : (ledger history).lists = owned list lines)
    (hempty : list = none → lines = []) :
    Safe easyRules (performs maxLong sending)
      (fun after r view' => view' = view ∧ ∃ list' lines' built, r = .ok (list', built) ∧
        ledger after = { ledger history with lists := owned list' lines' } ∧
        (built = .ok () → lines' = lines ++ headers.map lineOf))
      (buildHeaders headers list) history view := by
  induction headers generalizing history list lines with
  | nil =>
      refine ⟨rfl, list, lines, .ok (), rfl, ?_, fun _ => (List.append_nil lines).symm⟩
      rw [← hlists]
  | cons header rest ih =>
      obtain ⟨name, value⟩ := header
      have hunbuilt {e : Thrown} {after : History} (hafter : ledger after = ledger history) :
          ∃ list' lines' built, (.ok (list, .error e) : Outcome (Option Slist × Outcome Unit)) =
            .ok (list', built) ∧
          ledger after = { ledger history with lists := owned list' lines' } ∧
          (built = .ok () → lines' = lines ++ ((name, value) :: rest).map lineOf) := by
        refine ⟨list, lines, .error e, rfl, ?_, nofun⟩
        rw [hafter, ← hlists]
      rw [buildHeaders]
      by_cases hadmitted : headerAdmitted name value = true
      · rw [hadmitted, Bool.not_true, if_neg Bool.false_ne_true, cString_headerLine hadmitted]
        apply safe_elsewhere_resume rfl trivial
        intro _ reply _
        cases reply with
        | error e => exact ⟨rfl, hunbuilt (ledger_append _ _)⟩
        | ok _ =>
            apply safe_elsewhere_resume rfl trivial
            intro _ reply hreply
            cases reply with
            | error e => cases hreply
            | ok next =>
                cases next with
                | none =>
                    refine ⟨rfl, hunbuilt ?_⟩
                    rw [ledger_append, ledger_append]
                    cases list with
                    | none => rfl
                    | some old => rfl
                | some next =>
                    have hnext : ledger (history ++ [⟨.string (headerLine name value), .ok ()⟩] ++
                        [⟨.slistAppend list (headerLine name value), .ok (some next)⟩]) =
                        { ledger history with
                          lists := owned (some next) (lines ++ [lineOf (name, value)]) } := by
                      rw [ledger_append, ledger_append]
                      exact record_slistAppend hlists hempty
                    have hrest := @ih (history ++ [⟨.string (headerLine name value), .ok ()⟩] ++
                        [⟨.slistAppend list (headerLine name value), .ok (some next)⟩]) (some next)
                      (lines ++ [lineOf (name, value)]) (by rw [hnext]) nofun
                    rw [hnext] at hrest
                    simp only [List.append_assoc, List.singleton_append, List.map_cons] at hrest ⊢
                    exact hrest
      · rw [Bool.eq_false_of_not_eq_true hadmitted, Bool.not_false, if_pos rfl]
        exact ⟨rfl, hunbuilt rfl⟩

/-- The list goes, whatever it is. -/
theorem record_freeHeaders {list : Option Slist} {lines : List Bytes} {r : Outcome Received}
    (hlists : (ledger history).lists = owned list lines) (hsound : (ledger history).sound = true)
    (hresult : ResultOf (ledger history) r) :
    Safe easyRules (performs maxLong sending)
      (fun after r' view' => view' = view ∧ Ended after r')
      (do
        freeHeaders list
        .done r) history view := by
  cases list with
  | none => exact ⟨rfl, hlists, hsound, hresult⟩
  | some list =>
      apply safe_elsewhere_resume rfl trivial
      intro _ reply hreply
      cases reply with
      | error e => cases hreply
      | ok _ =>
          have hfreed : ledger (history ++ [⟨.slistFreeAll list, .ok ()⟩]) =
              { ledger history with lists := fun _ => none } := by
            rw [ledger_append, Ledger.record, hlists, owned, Function.update_idem,
              Function.update_self, Function.update_eq_self, Option.isSome_some, Bool.and_true]
          refine ⟨rfl, ?_, ?_, ?_⟩
          · rw [hfreed]
          · rw [hfreed]
            exact hsound
          · rw [hfreed]
            exact hresult

theorem safe_sendEasy (x : List EasyOption) :
    SafeRunning easyRules (performs maxLong) (fun _ history r _ => Ended history r)
      ⟨sending, [], sendEasy maxLong sending⟩ (.seen x) := by
  rw [SafeRunning, sendEasy]
  dsimp only
  cases hcheck : checkRequest sending.request with
  | error e => exact ⟨rfl, rfl, e, rfl⟩
  | ok _ =>
      have hbuild := @safe_buildHeaders [] (.seen x) maxLong sending sending.request.headers none []
        rfl fun _ => rfl
      apply hbuild.bind
      · rintro after e view ⟨-, list, lines, built, h, -⟩
        cases h
      · rintro after ⟨list, built⟩ view ⟨rfl, list', lines, built', h, hafter, hlines⟩
        obtain ⟨rfl, rfl⟩ := Prod.mk.inj (Except.ok.inj h)
        have hfree {history : History} {r : Outcome Received} {view : View (List EasyOption)}
            (hview : ∃ s, view = .seen s) (hkeeps : KeepsLists (ledger after) (ledger history))
            (hresult : ResultOf (ledger history) r) :
            Safe easyRules (performs maxLong sending) (atRest fun history r _ => Ended history r)
              (do
                freeHeaders list
                .done r) history view := by
          obtain ⟨s, rfl⟩ := hview
          have hfreed := @record_freeHeaders history (.seen s) maxLong sending list lines r
            (by rw [hkeeps.1, hafter]) (by rw [hkeeps.2, hafter]; rfl) hresult
          apply hfreed.mono
          rintro after r view ⟨hview, hended⟩
          rw [hview]
          exact hended
        cases built with
        | error e =>
            have hresult : ResultOf (ledger after) (.error e) := by
              rw [hafter]
              exact ⟨e, rfl⟩
            exact hfree ⟨x, rfl⟩ ⟨rfl, rfl⟩ hresult
        | ok _ =>
            have hlocked := @safe_locked after maxLong sending list x
              (by rw [hafter, hlines rfl]; rfl) (by rw [hafter]; rfl)
            apply hlocked.resume
            rintro final r view ⟨hview, hkeeps, hresult⟩
            exact hfree hview hkeeps hresult

end Parts

section Responses

/-- The piece of the body that an event delivers. -/
def pieceOf : Event × Option Thrown → Bytes
  | (.body delivery, _) => delivery.data
  | (.header _, _) => []

theorem callBack_body (state : ResponseState) (event : Event × Option Thrown)
    (h : (callBack state event).failure = none) :
    state.failure = none ∧ (callBack state event).body = state.body ++ pieceOf event := by
  obtain ⟨event, fault⟩ := event
  cases event with
  | body delivery =>
      have hfits := Bool.eq_false_iff.mp (not_overflows delivery)
      cases fault with
      | none =>
          rw [callBack, body, if_neg hfits] at h ⊢
          exact ⟨h, rfl⟩
      | some e =>
          rw [callBack, body, if_neg hfits] at h
          cases h
  | header delivery =>
      have hfits := Bool.eq_false_iff.mp (not_overflows delivery)
      cases hsplit : splitHeader delivery.data with
      | none =>
          rw [callBack, header, if_neg hfits, hsplit] at h ⊢
          exact ⟨h, (List.append_nil _).symm⟩
      | some entry =>
          cases fault with
          | none =>
              rw [callBack, header, if_neg hfits, hsplit] at h ⊢
              exact ⟨h, (List.append_nil _).symm⟩
          | some e =>
              rw [callBack, header, if_neg hfits, hsplit] at h
              cases h

/-- A transfer without a failed callback leaves all of its pieces, in their order. -/
theorem state_body {transferred : Transferred} (h : transferred.state.failure = none) :
    transferred.state.body = transferred.events.flatMap pieceOf := by
  have hfold (events : List (Event × Option Thrown)) (state : ResponseState)
      (hevents : (events.foldl callBack state).failure = none) :
      state.failure = none ∧
        (events.foldl callBack state).body = state.body ++ events.flatMap pieceOf := by
    induction events generalizing state with
    | nil => exact ⟨hevents, (List.append_nil _).symm⟩
    | cons event events ih =>
        obtain ⟨hstate, hbody⟩ := ih (callBack state event) hevents
        obtain ⟨hbefore, hpiece⟩ := callBack_body state event hstate
        refine ⟨hbefore, ?_⟩
        rw [List.foldl_cons, hbody, hpiece, List.append_assoc, List.flatMap_cons]
  exact (hfold transferred.events _ h).2

/-- A response is that of the transfer: no callback has failed, the transfer and the query of its
status have succeeded, and the body is what the transfer has delivered. -/
theorem ResultOf.response {ledger : Ledger} {received : Received}
    (h : ResultOf ledger (.ok received)) :
    ∃ transferred status, ledger.transferred = some transferred ∧
      transferred.state.failure = none ∧ transferred.code = 0 ∧ ledger.status = some (0, status) ∧
      received = ⟨toInt status, transferred.state.headers, transferred.events.flatMap pieceOf⟩ := by
  rw [ResultOf] at h
  cases htransferred : ledger.transferred with
  | none =>
      rw [htransferred] at h
      obtain ⟨e, he⟩ := h
      cases he
  | some transferred =>
      simp only [htransferred] at h
      cases hfailure : transferred.state.failure with
      | some e =>
          rw [hfailure] at h
          cases h
      | none =>
          simp only [hfailure] at h
          by_cases hcode : transferred.code = 0
          · rw [if_neg (not_not.mpr hcode)] at h
            obtain ⟨⟨code, status⟩, hstatus, h⟩ := h
            by_cases hread : code = 0
            · rw [if_neg (not_not.mpr hread)] at h
              refine ⟨transferred, status, rfl, hfailure, hcode, hread ▸ hstatus, ?_⟩
              rw [← state_body hfailure]
              exact Except.ok.inj h
            · rw [if_pos hread] at h
              obtain ⟨text, -, h⟩ := h
              cases h
          · rw [if_pos hcode] at h
            obtain ⟨text, -, h⟩ := h
            cases h

end Responses

section Threads

/-- What holds of one transport while any number of threads send on it. -/
structure Apart {τ : Type} [DecidableEq τ] (maxLong : ℤ)
    (s : Monitor.State τ Sending EasyCall.Reply Thrown Received (List EasyOption)) : Prop where
  /-- Nothing is lent to libcurl while nobody sends. -/
  reset : s.owner = none → s.shared = []
  /-- A transfer runs on the options of its own request, with its list of headers. -/
  transfers : ∀ thread sending history next,
    s.running thread = some ⟨sending, history, .call .perform next⟩ →
    s.owner = some thread ∧ performs maxLong sending history .perform (.held s.shared)
  /-- Lists are freed, and freed once. -/
  ended : ∀ ended ∈ s.finished, Ended ended.history ended.result
  /-- A response is the one that was delivered to this `Send`. -/
  responses : ∀ ended ∈ s.finished, ∀ received, ended.result = .ok received →
    ∃ transferred status, (ledger ended.history).transferred = some transferred ∧
      transferred.state.failure = none ∧ transferred.code = 0 ∧
      (ledger ended.history).status = some (0, status) ∧
      received = ⟨toInt status, transferred.state.headers, transferred.events.flatMap pieceOf⟩
  /-- The holder of the mutex can go on, whatever libcurl replies. -/
  holder : ∀ thread, s.owner = some thread → ∀ outside,
    (Monitor.step easyMonitor (sendEasy maxLong) s (.advance thread outside)).isSome = true
  /-- While nobody holds it, every thread can. -/
  progress : s.owner = none → ∀ thread, (s.running thread).isSome = true → ∀ outside,
    (Monitor.step easyMonitor (sendEasy maxLong) s (.advance thread outside)).isSome = true

/-- The threads that send on one transport, from an easy handle that is as it was made. -/
def easyThreads (τ : Type) [DecidableEq τ] (maxLong : ℤ) :=
  Monitor.threads (τ := τ) easyMonitor (sendEasy maxLong) (fun s => s = [])

theorem sends_apart {τ : Type} [DecidableEq τ] (maxLong : ℤ)
    {s : Monitor.State τ Sending EasyCall.Reply Thrown Received (List EasyOption)}
    (h : (easyThreads τ maxLong).Reachable (Monitor.Replies easyMonitor) s) : Apart maxLong s := by
  have hsound :
      Monitor.Sound easyRules (performs maxLong) (fun _ history r _ => Ended history r) s :=
    Monitor.sound_reachable (fun _ hx => hx) (fun _ x => safe_sendEasy x) h
  have hended : ∀ ended ∈ s.finished, Ended ended.history ended.result := by
    intro ended hmem
    obtain ⟨_, _, hended⟩ := hsound.finished ended hmem
    exact hended
  refine ⟨hsound.resting, ?_, hended, ?_, fun thread howner => hsound.holder_goes howner _, ?_⟩
  · intro thread sending history next hrunning
    exact hsound.touch hrunning rfl
  · intro ended hmem received hresult
    apply ResultOf.response
    rw [← hresult]
    exact (hended ended hmem).result
  · intro hfree thread hsome
    obtain ⟨running, hrunning⟩ := Option.isSome_iff_exists.mp hsome
    exact hsound.goes hrunning (Or.inl hfree) _

/-- A libcurl that never refuses and delivers nothing. -/
def obligingCurl : ∀ call : EasyCall, Outcome call.Reply
  | .string _ => .ok ()
  | .slistAppend list _ => .ok (some (list.getD 4096))
  | .slistFreeAll _ => .ok ()
  | .lock => .ok ()
  | .unlock => .ok ()
  | .reset => .ok ()
  | .setopt _ => .ok (0 : ℕ)
  | .perform => .ok (⟨[], 0⟩ : Transferred)
  | .strerror _ => .ok ([] : Bytes)
  | .responseCode => .ok ((0, 200) : ℕ × ℤ)

/-- One thread sends, and then another up to its transfer. -/
def sampleSends : List (ℕ × Option Sending) :=
  [(0, some ⟨headerRequest [(ascii "Accept", ascii "a")], 64⟩),
    (1, some ⟨headerRequest [], 128⟩)] ++ List.replicate 25 (0, none) ++ List.replicate 17 (1, none)

theorem sends_apart_sample :
    ∃ s, Monitor.drive easyMonitor (sendEasy 2147483647) (fun _ => obligingCurl) sampleSends
        ⟨[], none, fun _ => none, []⟩ = some s ∧
      s.finished.length = 1 ∧ s.owner = some 1 ∧ Apart 2147483647 s := by
  have hrun : (Monitor.drive easyMonitor (sendEasy 2147483647) (fun _ => obligingCurl) sampleSends
      ⟨[], none, fun _ => none, []⟩).map (fun s => (s.finished.length, s.owner)) =
        some (1, some 1) := by decide +kernel
  obtain ⟨s, hs, hfinal⟩ := Option.map_eq_some_iff.mp hrun
  obtain ⟨hlength, howner⟩ := Prod.mk.inj hfinal
  have hpossible (x : List EasyOption) (call : EasyCall) :
      easyMonitor.possible x call (obligingCurl call) := by
    cases call <;> trivial
  refine ⟨s, hs, hlength, howner, sends_apart 2147483647 ?_⟩
  exact Monitor.reachable_drive hpossible (.start ⟨rfl, rfl, fun _ => rfl, rfl⟩) hs

end Threads

end LivekitServer.CurlTransport
