import Mathlib.Algebra.Order.BigOperators.Group.List
import LivekitServer.BufferArena
import LivekitServer.Clock
import LivekitServer.Crypto
import LivekitServer.TokenClaims

/-!
# The invocation of the Rust binding

One call of `lks_invoke` from Rust: the native module makes callbacks, each of which may run a
closure of the user, and returns a result that the binding has to free. The first callback that
fails latches its error or its panic, `invoke` reports that before anything else, and the buffers
that callbacks hand out stay where they are.
-/

namespace LivekitServer.RustBinding
open BufferArena

section Values

structure HttpRequest where
  url : Bytes
  method : Bytes
  headers : List (Bytes × Bytes)
  body : Bytes
  timeoutMs : ℤ

structure HttpResponse where
  statusCode : ℤ
  body : Bytes

/-- The request of a callback, by its kind. -/
inductive Request
  | transport (url method : Bytes) (headers : List (Bytes × Bytes)) (body timeoutMs : Bytes)
  | key (key : Bytes)

/-- The errors of the binding, with those of JSON and those of callbacks. -/
inductive Error (σ κ : Type)
  | native (code : ℤ) (message : Bytes) (httpStatus : ℤ) (twirpCode : Bytes)
  | binding (message : Bytes)
  | json (error : σ)
  | callback (error : κ)

/-- How a closure of the user ends. -/
inductive UserOutcome (κ π α : Type)
  | ok (a : α)
  | err (error : κ)
  | panic (payload : π)

/-- The panic or the error in which a closure ends. -/
def UserOutcome.failure {κ π α : Type} : UserOutcome κ π α → Option (π ⊕ κ)
  | .ok _ => none
  | .err error => some (.inr error)
  | .panic payload => some (.inl payload)

/-- The crates for JSON and base64. -/
structure Crates (σ : Type) where
  toVec : Json → Except σ Bytes
  fromSlice : Bytes → Except σ Json
  requestFromSlice : Bytes → Except σ Request
  failureError : Json → σ
  encode : Bytes → Bytes
  decode : Bytes → Except Bytes Bytes

end Values

section Envelopes

variable {σ κ : Type}

/-- `str::parse::<i64>`. -/
def parseI64 (text : Bytes) : Option ℤ :=
  let negative := text.head? = some 0x2d
  let digits := if negative ∨ text.head? = some 0x2b then text.tail else text
  let value : ℤ := if negative then -Decimal.value digits else Decimal.value digits
  if digits ≠ [] ∧ digits.all Decimal.isDigit ∧ InInt64 value then some value else none

/-- `Value::get` of a name. -/
def get (value : Json) (name : String) : Option Json :=
  match value with
  | .object members => members.lookup (ascii name)
  | _ => none

def asBool : Json → Option Bool
  | .bool b => some b
  | _ => none

/-- A number that is read as an `i32`: written as an integer, and not as `-0`. -/
def asI32 : Json → Option ℤ
  | .number n =>
    let value : ℤ := if n.negative then -n.whole else n.whole
    if n.IsInteger ∧ ¬(n.negative = true ∧ n.whole = 0) ∧ InInt32 value then some value else none
  | _ => none

def asString : Json → Option Bytes
  | .string s => some s
  | _ => none

/-- The fields of a failure. -/
def failureFields (value : Json) : Option (ℤ × Bytes × ℤ × Bytes) := do
  let code ← get value "code" >>= asI32
  let message ← get value "message" >>= asString
  let httpStatus ← get value "http_status" >>= asI32
  let twirpCode ← get value "twirp_code" >>= asString
  return (code, message, httpStatus, twirpCode)

def decodeEnvelope (crates : Crates σ) (bytes : Bytes) : Except (Error σ κ) Json :=
  match crates.fromSlice bytes with
  | .error e => .error (.json e)
  | .ok value =>
    match get value "ok" >>= asBool with
    | some true =>
      match get value "value" with
      | some result => .ok result
      | none => .error (.binding (ascii "Missing native value"))
    | some false =>
      match failureFields value with
      | some (code, message, httpStatus, twirpCode) =>
        .error (.native code message httpStatus twirpCode)
      | none => .error (.json (crates.failureError value))
    | none => .error (.binding (ascii "Invalid native result envelope"))

end Envelopes

section Callbacks

variable {σ κ π : Type}

/-- One callback of the native module: its request, what the closures of the user do at that time,
and where memory is found. -/
structure Callback (κ π : Type) where
  request : Bytes
  transport : HttpRequest → UserOutcome κ π HttpResponse
  key : Bytes → UserOutcome κ π (Option Bytes)
  allocator : Allocator

/-- What is caught of a callback. -/
inductive Caught (σ κ π : Type)
  | ok (bytes : Bytes)
  | err (error : Error σ κ)
  | panic (payload : π)

/-- What a callback does on its own: whether a closure ran, and how it ended. -/
structure Response (σ κ π : Type) where
  ran : Bool
  caught : Caught σ κ π

/-- Which closures the user has given. -/
structure Closures where
  transport : Bool
  key : Bool

variable (crates : Crates σ) (closures : Closures)

def serialize (response : Json) : Caught σ κ π :=
  match crates.toVec response with
  | .error e => .err (.json e)
  | .ok bytes => .ok bytes

/-- The result of a closure, written as JSON. -/
def answer {α : Type} (outcome : UserOutcome κ π α) (write : α → Json) : Response σ κ π :=
  match outcome with
  | .ok a => ⟨true, serialize crates (write a)⟩
  | .err e => ⟨true, .err (.callback e)⟩
  | .panic payload => ⟨true, .panic payload⟩

/-- `Context::exchange`. -/
def respond (callback : Callback κ π) : Response σ κ π :=
  match crates.requestFromSlice callback.request with
  | .error e => ⟨false, .err (.json e)⟩
  | .ok (.transport url method headers body timeoutMs) =>
    if !closures.transport then
      ⟨false, .err (.binding (ascii "Transport callback is required"))⟩
    else
      match crates.decode body with
      | .error message => ⟨false, .err (.binding message)⟩
      | .ok body =>
        match parseI64 timeoutMs with
        | none => ⟨false, .err (.binding (ascii "Invalid callback timeout"))⟩
        | some timeout =>
          answer crates (callback.transport ⟨url, method, headers, body, timeout⟩) fun response =>
            .object [(ascii "body", .string (crates.encode response.body)),
              (ascii "status_code", .string (Decimal.signed response.statusCode))]
  | .ok (.key key) =>
    if !closures.key then ⟨false, .err (.binding (ascii "Key provider is required"))⟩
    else
      answer crates (callback.key key) fun secret =>
        .object [(ascii "secret", .string (secret.getD []))]

/-- The context of one invocation. -/
structure Context (σ κ π : Type) where
  buffers : Arena Bytes
  error : Option (Error σ κ)
  panic : Option π

/-- What the native module sees of a callback, and whether a closure of the user ran. -/
structure Report where
  status : ℕ
  handed : Option (Address × ℕ)
  ran : Bool

/-- What is kept of a response, and reported. -/
def deliver (context : Context σ κ π) (allocator : Allocator) (response : Response σ κ π) :
    Context σ κ π × Report :=
  match response.caught with
  | .ok bytes =>
    ({ context with buffers := context.buffers.push allocator bytes },
      ⟨0, some (context.buffers.place allocator, bytes.length), response.ran⟩)
  | .err e => ({ context with error := some e }, ⟨1, none, response.ran⟩)
  | .panic payload => ({ context with panic := some payload }, ⟨1, none, response.ran⟩)

/-- The callback that is given to the native module. -/
def exchange (context : Context σ κ π) (callback : Callback κ π) : Context σ κ π × Report :=
  if context.error.isSome || context.panic.isSome then (context, ⟨1, none, false⟩)
  else deliver context callback.allocator (respond crates closures callback)

/-- The callbacks of one invocation: the report of each and the context after it. -/
def run (context : Context σ κ π) : List (Callback κ π) → List (Report × Context σ κ π)
  | [] => []
  | callback :: rest =>
    let next := exchange crates closures context callback
    (next.2, next.1) :: run next.1 rest

/-- The context that the callbacks leave. -/
def final (context : Context σ κ π) (callbacks : List (Callback κ π)) : Context σ κ π :=
  callbacks.foldl (fun context callback => (exchange crates closures context callback).1) context

end Callbacks

section Invocations

variable {σ κ π : Type}

/-- How an invocation leaves `invoke`. -/
inductive Exit (σ κ π : Type)
  | resumed (payload : π)
  | returned (result : Except (Error σ κ) Json)

/-- The result of the native module: no pointer, or one with the bytes behind it. -/
abbrev NativeResult := Option (Address × Bytes)

/-- What `Output::drop` frees. -/
def dropOutput (result : NativeResult) : List Address :=
  match result with
  | none => []
  | some (pointer, _) => [pointer]

/-- The variable `output` of `invoke`, none once it has been moved, and what has been freed. -/
structure Scope where
  output : Option NativeResult
  frees : List Address

/-- `drop(output)`. -/
def Scope.drop (scope : Scope) : Scope :=
  match scope.output with
  | none => scope
  | some result => ⟨none, scope.frees ++ dropOutput result⟩

/-- The end of the scope, by a return or by unwinding: what has not been moved is dropped. -/
def Scope.leave (scope : Scope) : List Address := scope.drop.frees

def initial : Context σ κ π := ⟨Arena.empty, none, none⟩

/-- The native module gets the callback only when there is a closure for it. -/
def offered (closures : Closures) (callbacks : List (Callback κ π)) : List (Callback κ π) :=
  if closures.transport || closures.key then callbacks else []

/-- `NativeLibrary::invoke` around a native call that makes the callbacks and returns the result,
with the addresses that are freed in it. -/
def invoke (crates : Crates σ) (closures : Closures) (input : Json)
    (callbacks : List (Callback κ π)) (result : NativeResult) : Exit σ κ π × List Address :=
  match crates.toVec input with
  | .error e => (.returned (.error (.json e)), [])
  | .ok _ =>
    let context := final crates closures initial (offered closures callbacks)
    let scope : Scope := ⟨some result, []⟩
    match context.panic with
    | some payload => (.resumed payload, scope.drop.leave)
    | none =>
      match context.error with
      | some e => (.returned (.error e), scope.leave)
      | none =>
        match result with
        | none =>
          (.returned (.error (.binding
            (ascii "Native C ABI could not allocate or encode its result"))), scope.leave)
        | some (_, bytes) => (.returned (decodeEnvelope crates bytes), scope.leave)

end Invocations

section Latch

variable {σ κ π : Type} {crates : Crates σ} {closures : Closures} {context : Context σ κ π}

/-- A callback has failed. -/
def Latched (context : Context σ κ π) : Prop :=
  (context.error.isSome || context.panic.isSome) = true

theorem not_latched_iff : ¬Latched context ↔ context.error = none ∧ context.panic = none := by
  rw [Latched, Bool.or_eq_true, not_or, Option.not_isSome_iff_eq_none,
    Option.not_isSome_iff_eq_none]

theorem exchange_latched (h : Latched context) (callback : Callback κ π) :
    exchange crates closures context callback = (context, ⟨1, none, false⟩) := if_pos h

variable (crates closures) in
/-- What a callback does while none has failed. -/
theorem exchange_cases (h : ¬Latched context) (callback : Callback κ π) :
    (∃ bytes, (respond crates closures callback).caught = .ok bytes ∧
      exchange crates closures context callback =
        ({ context with buffers := context.buffers.push callback.allocator bytes },
          ⟨0, some (context.buffers.place callback.allocator, bytes.length),
            (respond crates closures callback).ran⟩)) ∨
    (∃ e, (respond crates closures callback).caught = .err e ∧
      exchange crates closures context callback =
        ({ context with error := some e }, ⟨1, none, (respond crates closures callback).ran⟩)) ∨
    ∃ payload, (respond crates closures callback).caught = .panic payload ∧
      exchange crates closures context callback =
        ({ context with panic := some payload },
          ⟨1, none, (respond crates closures callback).ran⟩) := by
  have hopen : exchange crates closures context callback =
      deliver context callback.allocator (respond crates closures callback) := if_neg h
  rw [hopen, deliver]
  cases (respond crates closures callback).caught with
  | ok bytes => exact Or.inl ⟨bytes, rfl, rfl⟩
  | err e => exact Or.inr (Or.inl ⟨e, rfl, rfl⟩)
  | panic payload => exact Or.inr (Or.inr ⟨payload, rfl, rfl⟩)

theorem run_latched (h : Latched context) (callbacks : List (Callback κ π)) :
    ∀ entry ∈ run crates closures context callbacks,
      entry.1.status ≠ 0 ∧ entry.1.ran = false := by
  induction callbacks with
  | nil => exact nofun
  | cons callback rest ih =>
      rw [run, exchange_latched h]
      exact List.forall_mem_cons.mpr ⟨⟨Nat.one_ne_zero, rfl⟩, ih⟩

theorem length_run (context : Context σ κ π) (callbacks : List (Callback κ π)) :
    (run crates closures context callbacks).length = callbacks.length := by
  induction callbacks generalizing context with
  | nil => rfl
  | cons callback rest ih => exact congrArg Nat.succ (ih _)

variable (crates closures) in
/-- The callback fails by itself: its request, the closure or the answer of the closure. -/
def Fails (callback : Callback κ π) : Prop :=
  (∃ e, (respond crates closures callback).caught = .err e) ∨
    ∃ payload, (respond crates closures callback).caught = .panic payload

variable (crates closures) in
/-- The closure that the callback runs ends in a failure. -/
inductive ClosureFails (callback : Callback κ π) (failure : π ⊕ κ) : Prop
  | transport {url method body timeoutMs data : Bytes} {headers : List (Bytes × Bytes)}
      {timeout : ℤ}
      (hrequest : crates.requestFromSlice callback.request =
        .ok (.transport url method headers body timeoutMs))
      (hgiven : closures.transport = true) (hbody : crates.decode body = .ok data)
      (htimeout : parseI64 timeoutMs = some timeout)
      (hends : (callback.transport ⟨url, method, headers, data, timeout⟩).failure = some failure)
  | key {key : Bytes} (hrequest : crates.requestFromSlice callback.request = .ok (.key key))
      (hgiven : closures.key = true) (hends : (callback.key key).failure = some failure)

/-- What is caught of a closure that fails. -/
def Caught.ofFailure : π ⊕ κ → Caught σ κ π
  | .inl payload => .panic payload
  | .inr error => .err (.callback error)

theorem answer_failure {α : Type} {outcome : UserOutcome κ π α} {failure : π ⊕ κ}
    (h : outcome.failure = some failure) (write : α → Json) :
    answer crates outcome write = ⟨true, .ofFailure failure⟩ := by
  cases outcome with
  | ok a => cases h
  | err e =>
      obtain rfl := Option.some.inj h
      rfl
  | panic payload =>
      obtain rfl := Option.some.inj h
      rfl

/-- The callback ends as its closure. -/
theorem respond_closureFails {callback : Callback κ π} {failure : π ⊕ κ}
    (h : ClosureFails crates closures callback failure) :
    respond crates closures callback = ⟨true, .ofFailure failure⟩ := by
  cases h with
  | transport hrequest hgiven hbody htimeout hends =>
      simp only [respond, hrequest, hgiven, hbody, htimeout, answer_failure hends]
      rfl
  | key hrequest hgiven hends =>
      simp only [respond, hrequest, hgiven, answer_failure hends]
      rfl

theorem ClosureFails.fails {callback : Callback κ π} {failure : π ⊕ κ}
    (h : ClosureFails crates closures callback failure) : Fails crates closures callback := by
  rw [Fails, respond_closureFails h]
  cases failure with
  | inl payload => exact Or.inr ⟨payload, rfl⟩
  | inr error => exact Or.inl ⟨.callback error, rfl⟩

variable (crates closures) in
/-- A callback that fails is reported as a failure and latches, and no other one does. -/
theorem exchange_fails (h : ¬Latched context) (callback : Callback κ π) :
    (exchange crates closures context callback).2.ran = (respond crates closures callback).ran ∧
      ((exchange crates closures context callback).2.status ≠ 0 ↔
        Fails crates closures callback) ∧
      (Latched (exchange crates closures context callback).1 ↔ Fails crates closures callback) := by
  unfold Fails
  rcases exchange_cases crates closures h callback with
    ⟨bytes, hcaught, heq⟩ | ⟨e, hcaught, heq⟩ | ⟨payload, hcaught, heq⟩
  · have hlatched : ¬Latched
        { context with buffers := context.buffers.push callback.allocator bytes } := h
    simp [heq, hcaught, hlatched]
  · have hlatched : Latched { context with error := some e } := rfl
    simp [heq, hcaught, hlatched]
  · have hlatched : Latched { context with panic := some payload } := Bool.or_true _
    simp [heq, hcaught, hlatched]

/-- Up to the first callback that fails, each runs its closure and reports how that ended. -/
theorem run_reports {callbacks : List (Callback κ π)} (h : ¬Latched context) {i : ℕ}
    {callback : Callback κ π} {entry : Report × Context σ κ π}
    (hcallback : callbacks[i]? = some callback)
    (hentry : (run crates closures context callbacks)[i]? = some entry)
    (hearlier : ∀ earlier ∈ callbacks.take i, ¬Fails crates closures earlier) :
    entry.1.ran = (respond crates closures callback).ran ∧
      (entry.1.status ≠ 0 ↔ Fails crates closures callback) := by
  induction callbacks generalizing context i with
  | nil => cases hcallback
  | cons first rest ih =>
      obtain ⟨hran, hstatus, hlatches⟩ := exchange_fails crates closures h first
      cases i with
      | zero =>
          obtain rfl := Option.some.inj hcallback
          obtain rfl := Option.some.inj hentry
          exact ⟨hran, hstatus⟩
      | succ i =>
          obtain ⟨hfirst, hrest⟩ := List.forall_mem_cons.mp hearlier
          exact ih (fun hlatched => hfirst (hlatches.mp hlatched)) hcallback hentry hrest

/-- After a callback that fails, no closure runs and all callbacks fail. -/
theorem run_latch {callbacks : List (Callback κ π)} {i j : ℕ} {callback : Callback κ π}
    {later : Report × Context σ κ π} (hlt : i < j) (hcallback : callbacks[i]? = some callback)
    (hfails : Fails crates closures callback)
    (hlater : (run crates closures context callbacks)[j]? = some later) :
    later.1.status ≠ 0 ∧ later.1.ran = false := by
  induction callbacks generalizing context i j with
  | nil => cases hcallback
  | cons first rest ih =>
      obtain ⟨j, rfl⟩ := Nat.exists_eq_succ_of_ne_zero (Nat.ne_zero_of_lt hlt)
      cases i with
      | succ i => exact ih (Nat.lt_of_succ_lt_succ hlt) hcallback hlater
      | zero =>
          obtain rfl := Option.some.inj hcallback
          have hlatched : Latched (exchange crates closures context first).1 := by
            by_cases hbefore : Latched context
            · rw [exchange_latched hbefore]
              exact hbefore
            · exact (exchange_fails crates closures hbefore first).2.2.mpr hfails
          exact run_latched hlatched rest later (List.mem_of_getElem? hlater)

end Latch

section Buffers

variable {σ κ π : Type} {crates : Crates σ} {closures : Closures} {context : Context σ κ π}

variable (crates closures) in
theorem keeps_exchange (context : Context σ κ π) (callback : Callback κ π) :
    context.buffers.Keeps (exchange crates closures context callback).1.buffers := by
  by_cases hlatched : Latched context
  · rw [exchange_latched hlatched]
    exact .refl _
  · rcases exchange_cases crates closures hlatched callback with
      ⟨bytes, -, heq⟩ | ⟨e, -, heq⟩ | ⟨payload, -, heq⟩
    · rw [heq]
      exact Arena.keeps_push _ _ _
    · rw [heq]
      exact .refl _
    · rw [heq]
      exact .refl _

theorem keeps_run (callbacks : List (Callback κ π)) (context : Context σ κ π) :
    ∀ entry ∈ run crates closures context callbacks,
      context.buffers.Keeps entry.2.buffers := by
  induction callbacks generalizing context with
  | nil => exact nofun
  | cons callback rest ih =>
      have hstep := keeps_exchange crates closures context callback
      exact List.forall_mem_cons.mpr
        ⟨hstep, fun entry hentry => hstep.trans (ih _ entry hentry)⟩

/-- A response that is handed out stands in a buffer. -/
theorem read_handed {callback : Callback κ π} {pointer : Address} {length : ℕ}
    (h : (exchange crates closures context callback).2.handed = some (pointer, length)) :
    ∃ bytes, (respond crates closures callback).caught = .ok bytes ∧ bytes.length = length ∧
      (exchange crates closures context callback).1.buffers.read pointer = some bytes := by
  by_cases hlatched : Latched context
  · rw [exchange_latched hlatched] at h
    cases h
  · rcases exchange_cases crates closures hlatched callback with
      ⟨bytes, hcaught, heq⟩ | ⟨e, -, heq⟩ | ⟨payload, -, heq⟩
    · rw [heq] at h ⊢
      obtain ⟨rfl, rfl⟩ := Prod.mk.inj (Option.some.inj h)
      exact ⟨bytes, hcaught, rfl, Arena.read_push _ _ _⟩
    · rw [heq] at h
      cases h
    · rw [heq] at h
      cases h

theorem run_handed {callbacks : List (Callback κ π)} {i j : ℕ} {callback : Callback κ π}
    {entry later : Report × Context σ κ π} {pointer : Address} {length : ℕ} (hle : i ≤ j)
    (hcallback : callbacks[i]? = some callback)
    (hentry : (run crates closures context callbacks)[i]? = some entry)
    (hlater : (run crates closures context callbacks)[j]? = some later)
    (hhanded : entry.1.handed = some (pointer, length)) :
    ∃ bytes, (respond crates closures callback).caught = .ok bytes ∧ bytes.length = length ∧
      later.2.buffers.read pointer = some bytes := by
  induction callbacks generalizing context i j with
  | nil => cases hcallback
  | cons first rest ih =>
      cases i with
      | succ i =>
          cases j with
          | zero => exact absurd hle (Nat.not_succ_le_zero i)
          | succ j => exact ih (Nat.le_of_succ_le_succ hle) hcallback hentry hlater
      | zero =>
          obtain rfl := Option.some.inj hcallback
          obtain rfl := Option.some.inj hentry
          obtain ⟨bytes, hcaught, hlength, hread⟩ := read_handed hhanded
          refine ⟨bytes, hcaught, hlength, ?_⟩
          cases j with
          | zero =>
              obtain rfl := Option.some.inj hlater
              exact hread
          | succ j =>
              exact keeps_run rest _ later (List.mem_of_getElem? hlater) _ _ hread

end Buffers

section Exits

variable {σ κ π : Type} {crates : Crates σ} {closures : Closures} {context : Context σ κ π}

/-- The failure of a callback: a panic, or an error. -/
def Caught.failure : Caught σ κ π → Option (π ⊕ Error σ κ)
  | .ok _ => none
  | .err e => some (.inr e)
  | .panic payload => some (.inl payload)

/-- The failure of the first callback that fails. -/
def firstFailure (crates : Crates σ) (closures : Closures) (callbacks : List (Callback κ π)) :
    Option (π ⊕ Error σ κ) :=
  callbacks.findSome? fun callback => (respond crates closures callback).caught.failure

/-- The failure that the context has captured. -/
def captured (context : Context σ κ π) : Option (π ⊕ Error σ κ) :=
  match context.panic, context.error with
  | some payload, _ => some (.inl payload)
  | none, some e => some (.inr e)
  | none, none => none

theorem captured_eq_none : captured context = none ↔ ¬Latched context := by
  rw [not_latched_iff, captured]
  cases context.panic <;> cases context.error <;> simp

variable (crates closures) in
theorem final_latched (h : Latched context) (callbacks : List (Callback κ π)) :
    final crates closures context callbacks = context := by
  induction callbacks with
  | nil => rfl
  | cons callback rest ih =>
      rw [final, List.foldl_cons, exchange_latched h]
      exact ih

theorem final_cons (callback : Callback κ π) (rest : List (Callback κ π)) :
    final crates closures context (callback :: rest) =
      final crates closures (exchange crates closures context callback).1 rest := rfl

/-- The context captures the failure of the first callback that fails, and no other. -/
theorem captured_final (h : ¬Latched context) (callbacks : List (Callback κ π)) :
    captured (final crates closures context callbacks) =
      firstFailure crates closures callbacks := by
  induction callbacks generalizing context with
  | nil => exact captured_eq_none.mpr h
  | cons callback rest ih =>
      obtain ⟨herror, hpanic⟩ := not_latched_iff.mp h
      rw [firstFailure, List.findSome?_cons, final_cons]
      rcases exchange_cases crates closures h callback with
        ⟨bytes, hcaught, heq⟩ | ⟨e, hcaught, heq⟩ | ⟨payload, hcaught, heq⟩
      · rw [hcaught, heq]
        exact ih h
      · have hlatched : Latched { context with error := some e } := rfl
        rw [hcaught, heq, final_latched crates closures hlatched, captured, hpanic]
        rfl
      · have hlatched : Latched { context with panic := some payload } := Bool.or_true _
        rw [hcaught, heq, final_latched crates closures hlatched, captured]
        rfl

/-- The exit of an invocation, in the order of priority. -/
def exitOf (crates : Crates σ) (failure : Option (π ⊕ Error σ κ)) (result : NativeResult) :
    Exit σ κ π :=
  match failure, result with
  | some (.inl payload), _ => .resumed payload
  | some (.inr e), _ => .returned (.error e)
  | none, none =>
    .returned (.error (.binding
      (ascii "Native C ABI could not allocate or encode its result")))
  | none, some (_, bytes) => .returned (decodeEnvelope crates bytes)

theorem leave_of_output (result : NativeResult) :
    (⟨some result, []⟩ : Scope).leave = (result.map Prod.fst).toList := by
  cases result with
  | none => rfl
  | some entry => rfl

theorem invoke_eq {input : Json} {text : Bytes} (h : crates.toVec input = .ok text)
    (callbacks : List (Callback κ π)) (result : NativeResult) :
    invoke crates closures input callbacks result =
      (exitOf crates (captured (final crates closures initial (offered closures callbacks))) result,
        (result.map Prod.fst).toList) := by
  rw [invoke, h, ← leave_of_output]
  dsimp only
  rw [captured]
  cases (final crates closures initial (offered closures callbacks)).panic with
  | some payload => rfl
  | none =>
      cases (final crates closures initial (offered closures callbacks)).error with
      | some e => rfl
      | none =>
          cases result with
          | none => rfl
          | some entry => rfl

/-- What holds of the callbacks of an invocation. Each of them is answered: the ones up to the first
that fails run their closures, and a closure that ends in an error or a panic makes its callback
fail; after that no closure runs and all fail. A response that was handed out stays at its address
to the end. -/
structure Safe (crates : Crates σ) (closures : Closures) (callbacks : List (Callback κ π)) :
    Prop where
  answered : (run crates closures initial callbacks).length = callbacks.length
  reports : ∀ (i : ℕ) (callback : Callback κ π) (entry : Report × Context σ κ π),
    callbacks[i]? = some callback → (run crates closures initial callbacks)[i]? = some entry →
    (∀ earlier ∈ callbacks.take i, ¬Fails crates closures earlier) →
    entry.1.ran = (respond crates closures callback).ran ∧
      (entry.1.status ≠ 0 ↔ Fails crates closures callback)
  closure : ∀ (i : ℕ) (callback : Callback κ π) (entry : Report × Context σ κ π)
    (failure : π ⊕ κ), callbacks[i]? = some callback →
    (run crates closures initial callbacks)[i]? = some entry →
    (∀ earlier ∈ callbacks.take i, ¬Fails crates closures earlier) →
    ClosureFails crates closures callback failure → entry.1.ran = true ∧ entry.1.status ≠ 0
  latch : ∀ (i j : ℕ) (callback : Callback κ π) (later : Report × Context σ κ π), i < j →
    callbacks[i]? = some callback → Fails crates closures callback →
    (run crates closures initial callbacks)[j]? = some later →
    later.1.status ≠ 0 ∧ later.1.ran = false
  buffers : ∀ (i j : ℕ) (callback : Callback κ π) (entry later : Report × Context σ κ π)
    (pointer : Address) (length : ℕ), i ≤ j → callbacks[i]? = some callback →
    (run crates closures initial callbacks)[i]? = some entry →
    (run crates closures initial callbacks)[j]? = some later →
    entry.1.handed = some (pointer, length) →
    ∃ bytes, (respond crates closures callback).caught = .ok bytes ∧ bytes.length = length ∧
      later.2.buffers.read pointer = some bytes

theorem not_latched_initial : ¬Latched (initial : Context σ κ π) := Bool.false_ne_true

theorem safe_run (crates : Crates σ) (closures : Closures) (callbacks : List (Callback κ π)) :
    Safe crates closures callbacks where
  answered := length_run _ _
  reports _ _ _ hcallback hentry hearlier :=
    run_reports not_latched_initial hcallback hentry hearlier
  closure _ _ _ _ hcallback hentry hearlier hclosure := by
    obtain ⟨hran, hstatus⟩ := run_reports not_latched_initial hcallback hentry hearlier
    rw [respond_closureFails hclosure] at hran
    exact ⟨hran, hstatus.mpr hclosure.fails⟩
  latch _ _ _ _ hlt hcallback hfails hlater := run_latch hlt hcallback hfails hlater
  buffers _ _ _ _ _ _ _ hle hcallback hentry hlater hhanded :=
    run_handed hle hcallback hentry hlater hhanded

/-- The exit of an invocation, and what it frees. -/
theorem invoke_exits {input : Json} {text : Bytes} (h : crates.toVec input = .ok text)
    (callbacks : List (Callback κ π)) (result : NativeResult) :
    (invoke crates closures input callbacks result).2 = (result.map Prod.fst).toList ∧
      (invoke crates closures input callbacks result).1 =
        exitOf crates (firstFailure crates closures (offered closures callbacks)) result := by
  rw [invoke_eq h, captured_final not_latched_initial]
  exact ⟨rfl, rfl⟩

/-- An invocation is safe, frees a result exactly once and nothing else, and ends with the failure
of the first callback that fails, and without one as the result says. -/
theorem invoke_safe {input : Json} {text : Bytes} (h : crates.toVec input = .ok text)
    (callbacks : List (Callback κ π)) (result : NativeResult) :
    Safe crates closures (offered closures callbacks) ∧
      (invoke crates closures input callbacks result).2 = (result.map Prod.fst).toList ∧
      (invoke crates closures input callbacks result).1 =
        exitOf crates (firstFailure crates closures (offered closures callbacks)) result :=
  ⟨safe_run _ _ _, invoke_exits h callbacks result⟩

end Exits

section Sample

def parseValue (text : Bytes) : Except Unit Json :=
  match Json.parse text with
  | some value => .ok value
  | none => .error ()

/-- The crates, for requests that ask for a key. -/
def sampleCrates : Crates Unit where
  toVec value := .ok ((AccessToken.writer Locale.classic).write value)
  fromSlice := parseValue
  requestFromSlice text := do
    let value ← parseValue text
    match get value "kind" >>= asString, get value "key" >>= asString with
    | some kind, some key => if kind = ascii "key" then .ok (.key key) else .error ()
    | _, _ => .error ()
  failureError _ := ()
  encode := Crypto.base64UrlEncode
  decode text := (Crypto.base64UrlDecode text).mapError fun _ => ascii "Invalid input"

/-- An allocator that places a block above all others. -/
def bumpAllocator : Allocator where
  pick live := live.sum + 1
  fresh _ h := absurd (List.single_le_sum (fun _ _ => Nat.zero_le _) _ h) (Nat.not_succ_le_self _)

/-- A request for the key `k`, with a provider that ends in a fixed way. -/
def keyCallback (outcome : UserOutcome ℕ ℕ (Option Bytes)) : Callback ℕ ℕ where
  request := (AccessToken.writer Locale.classic).write
    (.object [(ascii "kind", .string (ascii "key")), (ascii "key", .string (ascii "k"))])
  transport _ := .panic 0
  key _ := outcome
  allocator := bumpAllocator

/-- A provider that answers, then fails, and would panic if it were asked again. -/
def sampleCallbacks : List (Callback ℕ ℕ) :=
  [keyCallback (.ok (some (ascii "secret"))), keyCallback (.err 7), keyCallback (.panic 3)]

/-- The second callback runs the provider and latches its error, and the third runs nothing. -/
theorem invoke_sampleCallbacks :
    Safe sampleCrates ⟨false, true⟩ sampleCallbacks ∧
      (run sampleCrates ⟨false, true⟩ initial sampleCallbacks).map
        (fun entry => (entry.1.status, entry.1.ran)) = [(0, true), (1, true), (1, false)] ∧
      invoke sampleCrates ⟨false, true⟩ (.object []) sampleCallbacks
        (some (4096, ascii "\x7b\"ok\":true,\"value\":1\x7d")) =
          (.returned (.error (.callback 7)), [4096]) := by
  have hinput : sampleCrates.toVec (.object []) = .ok (ascii "\x7b\x7d") := rfl
  obtain ⟨hsafe, hfrees, hexit⟩ := @invoke_safe _ _ _ sampleCrates ⟨false, true⟩ _ _ hinput
    sampleCallbacks (some (4096, ascii "\x7b\"ok\":true,\"value\":1\x7d"))
  refine ⟨hsafe, by decide +kernel, Prod.ext (hexit.trans ?_) hfrees⟩
  rfl

end Sample

end LivekitServer.RustBinding
