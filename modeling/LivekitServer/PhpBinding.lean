import LivekitServer.BufferArena
import LivekitServer.Decimal
import LivekitServer.Json
import LivekitServer.Transition
import Mathlib.Data.List.DropRight

/-!
# The calls of the PHP binding

An instance of the PHP binding has one trampoline for all its callbacks. It finds the context of a
callback at the end of a stack of calls, on which every invocation pushes its context and from
which it pops one, however it ends. Application code may invoke the instance again from a closure,
to any depth. `calls_nest` says that the instance does at every move what it would do if every
invocation owned its context and its trampoline.
-/

namespace LivekitServer.PhpBinding
open BufferArena

section Runtime

/-- What is thrown: by the binding, by the native module, or by anything else. -/
inductive Throwable (ε : Type)
  | logicException (message : Bytes)
  | unexpectedValueException (message : Bytes)
  | runtimeException (message : Bytes)
  | error (message : Bytes) (code httpStatus : ℤ) (twirpCode : Bytes)
  | other (e : ε)

/-- A request of the native module, with its kind. -/
inductive NativeRequest
  | transport (url method : Bytes) (headers : List (Bytes × Bytes)) (body timeoutMs : Bytes)
  | key (key : Bytes)
  | unknown

structure HttpRequest where
  url : Bytes
  method : Bytes
  headers : List (Bytes × Bytes)
  body : Bytes
  timeoutMs : ℤ

/-- What a closure returns. -/
inductive Returned
  | response (statusCode : ℤ) (body : Bytes)
  | string (s : Bytes)
  | null
  | other

/-- The result of the native module, decoded. -/
inductive NativeOutcome (ν : Type)
  | value (value : ν)
  | failure (message : Bytes) (code httpStatus : ℤ) (twirpCode : Bytes)

/-- JSON, base64 and casts of PHP. -/
structure Runtime (ε ν : Type) where
  encodeInput : ν → Except ε Bytes
  decodeRequest : Bytes → Except ε NativeRequest
  decodeResult : Bytes → Except ε (NativeOutcome ν)
  encodePayload : Members → Except ε Bytes
  base64Encode : Bytes → Bytes
  base64Decode : Bytes → Option Bytes
  intval : Bytes → ℤ

variable {ε ν : Type} (runtime : Runtime ε ν)

def lift {α : Type} (result : Except ε α) : Except (Throwable ε) α := result.mapError .other

/-- `strtr` and `rtrim`. -/
def base64url (bytes : Bytes) : Bytes :=
  ((runtime.base64Encode bytes).map fun ch =>
    if ch = 0x2b then 0x2d else if ch = 0x2f then 0x5f else ch).rdropWhile (· = 0x3d)

def isUrlLetter (ch : UInt8) : Bool :=
  (0x41 ≤ ch && ch ≤ 0x5a) || (0x61 ≤ ch && ch ≤ 0x7a) || Decimal.isDigit ch || ch = 0x5f ||
    ch = 0x2d

def unbase64url (text : Bytes) : Except (Throwable ε) Bytes :=
  if !text.all isUrlLetter || text.length % 4 = 1 then
    .error (.unexpectedValueException (ascii "Invalid base64url payload"))
  else
    match runtime.base64Decode (text.map fun ch =>
      if ch = 0x2d then 0x2b else if ch = 0x5f then 0x2f else ch) with
    | none => .error (.unexpectedValueException (ascii "Invalid base64url payload"))
    | some bytes => .ok bytes

end Runtime

section Machine

variable {φ ε ν : Type}

/-- The context of an invocation. -/
structure CallContext (φ ε : Type) where
  buffers : List Bytes
  error : Option (Throwable ε)
  transport : Option φ
  keyProvider : Option φ

/-- What a closure is called with. -/
inductive Argument
  | request (request : HttpRequest)
  | key (key : Bytes)

/-- A frame of the stack of PHP: application code, `invoke` with its context while the native module
runs, which has got the trampoline or not, and `exchange` with its context while a closure runs. -/
inductive Frame
  | application
  | invoke (context : ℕ) (given : Bool)
  | exchange (context : ℕ) (transport : Bool)

/-- What happens outside of the binding. -/
inductive Event (φ ε ν : Type)
  | passed (input : Bytes) (given : Bool)
  | asked (closure : φ) (argument : Argument)
  | answered (data : Bytes)
  | refused
  | freed (output : Address)
  | ended (result : Except (Throwable ε) ν)

/-- An instance, with the contexts by their numbers. The last of the calls comes first. -/
structure Instance (φ ε ν : Type) where
  frames : List Frame
  contexts : List (CallContext φ ε)
  calls : List ℕ
  callback : Bool
  events : List (Event φ ε ν)

/-- What comes next: application code invokes the instance, a closure ends, or the native module
calls back or returns. -/
inductive Move (φ ε ν : Type)
  | invoke (input : ν) (transport keyProvider : Option φ)
  | closureEnds (result : Except (Throwable ε) Returned)
  | callBack (request : Bytes)
  | nativeReturns (output : Option (Address × Bytes))

variable (runtime : Runtime ε ν)

/-- `exchange` up to its closure: the closure, what it is called with and whether it is the
transport. -/
def select (transport keyProvider : Option φ) (request : Bytes) :
    Except (Throwable ε) (φ × Argument × Bool) := do
  match ← lift (runtime.decodeRequest request) with
  | .transport url method headers body timeoutMs =>
    match transport with
    | none => .error (.logicException (ascii "Transport callback is required"))
    | some closure =>
      let body ← unbase64url runtime body
      return (closure, .request ⟨url, method, headers, body, runtime.intval timeoutMs⟩, true)
  | .key key =>
    match keyProvider with
    | none => .error (.logicException (ascii "Key provider is required"))
    | some closure => return (closure, .key key, false)
  | .unknown => .error (.unexpectedValueException (ascii "Unknown native callback kind"))

/-- `exchange` after its closure: the payload in JSON. -/
def payload (transport : Bool) (result : Except (Throwable ε) Returned) :
    Except (Throwable ε) Bytes := do
  let returned ← result
  if transport then
    match returned with
    | .response statusCode body =>
      lift (runtime.encodePayload [(ascii "status_code", .string (Decimal.signed statusCode)),
        (ascii "body", .string (base64url runtime body))])
    | _ => .error (.unexpectedValueException (ascii "Transport must return HttpResponse"))
  else
    match returned with
    | .string secret => lift (runtime.encodePayload [(ascii "secret", .string secret)])
    | .null => lift (runtime.encodePayload [(ascii "secret", .string [])])
    | _ =>
      .error (.unexpectedValueException (ascii "Key provider must return string or null"))

/-- `invoke` after the native module: an error of a callback goes first. -/
def conclude (error : Option (Throwable ε)) (output : Option (Address × Bytes)) :
    Except (Throwable ε) ν :=
  match error with
  | some e => .error e
  | none =>
    match output with
    | none => .error (.runtimeException
        (ascii "Native C ABI could not allocate or encode its result"))
    | some (_, bytes) => do
      match ← lift (runtime.decodeResult bytes) with
      | .value value => return value
      | .failure message code httpStatus twirpCode =>
        .error (.error message code httpStatus twirpCode)

/-- `lks_free`, unless there is no output. -/
def freeOutput (output : Option (Address × Bytes)) : List (Event φ ε ν) :=
  (output.map fun output => Event.freed output.1).toList

namespace Instance

variable (s : Instance φ ε ν)

/-- `$context->error ??= $error`. -/
def fail (context : ℕ) (e : Throwable ε) : Instance φ ε ν :=
  { s with
    contexts := s.contexts.modify context fun c => { c with error := c.error.or (some e) }
    events := s.events ++ [.refused] }

def push (data : Bytes) (transport keyProvider : Option φ) : Instance φ ε ν where
  frames := .invoke s.contexts.length (transport.isSome || keyProvider.isSome) :: s.frames
  contexts := s.contexts ++ [⟨[], none, transport, keyProvider⟩]
  calls := s.contexts.length :: s.calls
  callback := s.callback || transport.isSome || keyProvider.isSome
  events := s.events ++ [.passed data (transport.isSome || keyProvider.isSome)]

/-- One move. Where PHP would stop there is no next state. -/
def step : Move φ ε ν → Option (Instance φ ε ν)
  | .invoke input transport keyProvider =>
    match s.frames with
    | .application :: _ =>
      match lift (runtime.encodeInput input) with
      | .error e => some { s with events := s.events ++ [.ended (.error e)] }
      | .ok data => some (s.push data transport keyProvider)
    | _ => none
  | .callBack request =>
    match s.frames with
    | .invoke _ true :: _ => do
      -- the trampoline knows the instance, and not the invocation
      let top ← s.calls.head?
      let context ← s.contexts[top]?
      match select runtime context.transport context.keyProvider request with
      | .error e => some (s.fail top e)
      | .ok (closure, argument, transport) =>
        some { s with
          frames := .application :: .exchange top transport :: s.frames
          events := s.events ++ [.asked closure argument] }
    | _ => none
  | .closureEnds result =>
    match s.frames with
    | .application :: .exchange context transport :: below =>
      match payload runtime transport result with
      | .error e => some ({ s with frames := below }.fail context e)
      | .ok data =>
        some { s with
          frames := below
          contexts := s.contexts.modify context fun c => { c with buffers := c.buffers ++ [data] }
          events := s.events ++ [.answered data] }
    | _ => none
  | .nativeReturns output =>
    match s.frames with
    | .invoke number _ :: below => do
      let context ← s.contexts[number]?
      some { s with
        frames := below
        calls := s.calls.tail
        events := s.events ++ freeOutput output ++
          [.ended (conclude runtime context.error output)] }
    | _ => none

end Instance

/-- An instance that has not been used. -/
def Instance.idle : Instance φ ε ν := ⟨[.application], [], [], false, []⟩

def instanceSystem : Transition (Instance φ ε ν) (Move φ ε ν) where
  start s := s = .idle
  step := Instance.step runtime

end Machine

section Owners

variable {φ ε ν : Type}

/-- An invocation that owns its context: its closures, and how its callbacks have ended. -/
structure Call (φ ε : Type) where
  transport : Option φ
  keyProvider : Option φ
  answers : List (Except (Throwable ε) Bytes)

/-- The error of the first callback that has failed. -/
def Call.error (call : Call φ ε) : Option (Throwable ε) :=
  call.answers.findSome? fun
    | .error e => some e
    | .ok _ => none

def Call.buffers (call : Call φ ε) : List Bytes := call.answers.filterMap Except.toOption

def Call.given (call : Call φ ε) : Bool := call.transport.isSome || call.keyProvider.isSome

def Call.answer (call : Call φ ε) (result : Except (Throwable ε) Bytes) : Call φ ε :=
  { call with answers := call.answers ++ [result] }

inductive Layer (φ ε : Type)
  | application
  | invoke (call : Call φ ε)
  | exchange (transport : Bool)

structure Owners (φ ε ν : Type) where
  layers : List (Layer φ ε)
  events : List (Event φ ε ν)

def answerEvent : Except (Throwable ε) Bytes → Event φ ε ν
  | .ok data => .answered data
  | .error _ => .refused

variable (runtime : Runtime ε ν)

/-- One move, when a callback gets to the invocation that makes it. -/
def Owners.step (o : Owners φ ε ν) : Move φ ε ν → Option (Owners φ ε ν)
  | .invoke input transport keyProvider =>
    match o.layers with
    | .application :: _ =>
      match lift (runtime.encodeInput input) with
      | .error e => some ⟨o.layers, o.events ++ [.ended (.error e)]⟩
      | .ok data =>
        let call : Call φ ε := ⟨transport, keyProvider, []⟩
        some ⟨.invoke call :: o.layers, o.events ++ [.passed data call.given]⟩
    | _ => none
  | .callBack request =>
    match o.layers with
    | .invoke call :: below =>
      if call.given then
        match select runtime call.transport call.keyProvider request with
        | .error e => some ⟨.invoke (call.answer (.error e)) :: below, o.events ++ [.refused]⟩
        | .ok (closure, argument, transport) =>
          some ⟨.application :: .exchange transport :: o.layers,
            o.events ++ [.asked closure argument]⟩
      else none
    | _ => none
  | .closureEnds result =>
    match o.layers with
    | .application :: .exchange transport :: .invoke call :: below =>
      let answer := payload runtime transport result
      some ⟨.invoke (call.answer answer) :: below, o.events ++ [answerEvent answer]⟩
    | _ => none
  | .nativeReturns output =>
    match o.layers with
    | .invoke call :: below =>
      some ⟨below, o.events ++ freeOutput output ++ [.ended (conclude runtime call.error output)]⟩
    | _ => none

def Owners.idle : Owners φ ε ν := ⟨[.application], []⟩

def ownersSystem : Transition (Owners φ ε ν) (Move φ ε ν) where
  start o := o = .idle
  step := Owners.step runtime

end Owners

section Nesting

variable {φ ε ν : Type} {runtime : Runtime ε ν}

/-- A context stands for a call. -/
structure Holds (context : CallContext φ ε) (call : Call φ ε) : Prop where
  transport : context.transport = call.transport
  keyProvider : context.keyProvider = call.keyProvider
  error : context.error = call.error
  buffers : context.buffers = call.buffers

/-- The stack of PHP, the stack of contexts and the calls that own their contexts run in parallel.
No context is on the stack twice. -/
inductive Nested (contexts : List (CallContext φ ε)) :
    List Frame → List ℕ → List (Layer φ ε) → Prop
  | application : Nested contexts [.application] [] [.application]
  | invoke {number : ℕ} {context : CallContext φ ε} {call : Call φ ε} {below : List Frame}
      {calls : List ℕ} {layers : List (Layer φ ε)}
      (hbelow : Nested contexts (.application :: below) calls (.application :: layers))
      (hnew : number ∉ calls) (hcontext : contexts[number]? = some context)
      (hholds : Holds context call) :
      Nested contexts (.invoke number call.given :: .application :: below) (number :: calls)
        (.invoke call :: .application :: layers)
  | exchange {number : ℕ} {call : Call φ ε} {given transport : Bool} {below : List Frame}
      {calls : List ℕ} {layers : List (Layer φ ε)}
      (hinvoke : Nested contexts (.invoke number given :: below) calls (.invoke call :: layers)) :
      Nested contexts (.application :: .exchange number transport :: .invoke number given :: below)
        calls (.application :: .exchange transport :: .invoke call :: layers)

theorem Nested.of_contexts {contexts contexts' : List (CallContext φ ε)} {frames : List Frame}
    {calls : List ℕ} {layers : List (Layer φ ε)} (h : Nested contexts frames calls layers)
    (hsame : ∀ number ∈ calls, contexts'[number]? = contexts[number]?) :
    Nested contexts' frames calls layers := by
  induction h with
  | application => exact .application
  | invoke hbelow hnew hcontext hholds ih =>
      obtain ⟨hnumber, hcalls⟩ := List.forall_mem_cons.mp hsame
      exact .invoke (ih hcalls) hnew (hnumber.trans hcontext) hholds
  | exchange hinvoke ih => exact .exchange (ih hsame)

theorem Nested.lt_length {contexts : List (CallContext φ ε)} {frames : List Frame}
    {calls : List ℕ} {layers : List (Layer φ ε)} (h : Nested contexts frames calls layers) :
    ∀ number ∈ calls, number < contexts.length := by
  induction h with
  | application => exact fun _ hnumber => absurd hnumber List.not_mem_nil
  | invoke hbelow hnew hcontext hholds ih =>
      exact List.forall_mem_cons.mpr ⟨(List.getElem?_eq_some_iff.mp hcontext).1, ih⟩
  | exchange hinvoke ih => exact ih

/-- The call on top ends one of its callbacks. -/
theorem Nested.answer {contexts : List (CallContext φ ε)} {number : ℕ} {given : Bool}
    {call : Call φ ε} {below : List Frame} {calls : List ℕ} {layers : List (Layer φ ε)}
    (h : Nested contexts (.invoke number given :: below) calls (.invoke call :: layers))
    {result : Except (Throwable ε) Bytes} {f : CallContext φ ε → CallContext φ ε}
    (hf : ∀ context, Holds context call → Holds (f context) (call.answer result)) :
    Nested (contexts.modify number f) (.invoke number given :: below) calls
      (.invoke (call.answer result) :: layers) := by
  cases h with
  | @invoke _ context _ below calls layers hbelow hnew hcontext hholds =>
      have hmodified : (contexts.modify number f)[number]? = some (f context) := by
        rw [List.getElem?_modify_eq, hcontext]
        rfl
      refine .invoke (hbelow.of_contexts fun other hother => ?_) hnew hmodified (hf _ hholds)
      apply List.getElem?_modify_ne
      rintro rfl
      exact hnew hother

/-- An instance does what the calls that own their contexts do. -/
structure Represents (s : Instance φ ε ν) (o : Owners φ ε ν) : Prop where
  nested : Nested s.contexts s.frames s.calls o.layers
  events : s.events = o.events
  callback : ∀ number, Frame.invoke number true ∈ s.frames → s.callback = true

theorem error_answer (call : Call φ ε) (e : Throwable ε) :
    (call.answer (.error e)).error = call.error.or (some e) := by
  rw [Call.error, Call.answer, List.findSome?_append]
  rfl

theorem holds_refused {context : CallContext φ ε} {call : Call φ ε} (h : Holds context call)
    (e : Throwable ε) :
    Holds { context with error := context.error.or (some e) } (call.answer (.error e)) where
  transport := h.transport
  keyProvider := h.keyProvider
  error := by rw [error_answer, h.error]
  buffers := by
    rw [h.buffers, Call.buffers, Call.buffers, Call.answer, List.filterMap_append]
    exact (List.append_nil _).symm

theorem holds_answered {context : CallContext φ ε} {call : Call φ ε} (h : Holds context call)
    (data : Bytes) :
    Holds { context with buffers := context.buffers ++ [data] } (call.answer (.ok data)) where
  transport := h.transport
  keyProvider := h.keyProvider
  error := by
    rw [h.error, Call.error, Call.error, Call.answer, List.findSome?_append]
    exact (Option.or_none).symm
  buffers := by
    rw [h.buffers, Call.buffers, Call.buffers, Call.answer, List.filterMap_append]
    rfl

/-- The contexts of an instance only grow, and a context that is on the stack is an old one. -/
theorem Nested.push {contexts : List (CallContext φ ε)} {below : List Frame} {calls : List ℕ}
    {layers : List (Layer φ ε)}
    (h : Nested contexts (.application :: below) calls (.application :: layers))
    (transport keyProvider : Option φ) :
    Nested (contexts ++ [⟨[], none, transport, keyProvider⟩])
      (.invoke contexts.length (transport.isSome || keyProvider.isSome) :: .application :: below)
      (contexts.length :: calls)
      (.invoke ⟨transport, keyProvider, []⟩ :: .application :: layers) := by
  have hnew : contexts.length ∉ calls := by
    intro hmem
    exact absurd (h.lt_length _ hmem) (Nat.lt_irrefl _)
  have hcontext : (contexts ++ [⟨[], none, transport, keyProvider⟩])[contexts.length]? =
      some ⟨[], none, transport, keyProvider⟩ := List.getElem?_concat_length
  have hholds : Holds (ε := ε) ⟨[], none, transport, keyProvider⟩ ⟨transport, keyProvider, []⟩ :=
    ⟨rfl, rfl, rfl, rfl⟩
  refine .invoke (h.of_contexts ?_) hnew hcontext hholds
  intro number hnumber
  exact List.getElem?_append_left (h.lt_length number hnumber)

theorem represents_invoke {s : Instance φ ε ν} {o : Owners φ ε ν} (h : Represents s o)
    (input : ν) (transport keyProvider : Option φ) :
    Option.Rel Represents (s.step runtime (.invoke input transport keyProvider))
      (o.step runtime (.invoke input transport keyProvider)) := by
  obtain ⟨frames, contexts, calls, callback, events⟩ := s
  obtain ⟨layers, _⟩ := o
  obtain ⟨hnested, hevents, hcallback⟩ := h
  subst hevents
  have hstart {below : List Frame} {layers : List (Layer φ ε)}
      (hnested : Nested contexts (.application :: below) calls (.application :: layers))
      (hcallback : ∀ n, Frame.invoke n true ∈ Frame.application :: below → callback = true) :
      Option.Rel Represents
        (Instance.step runtime ⟨.application :: below, contexts, calls, callback, events⟩
          (.invoke input transport keyProvider))
        (Owners.step runtime ⟨.application :: layers, events⟩
          (.invoke input transport keyProvider)) := by
    simp only [Instance.step, Owners.step]
    cases lift (runtime.encodeInput input) with
    | error e => exact .some ⟨hnested, rfl, hcallback⟩
    | ok data =>
        refine .some ⟨hnested.push transport keyProvider, rfl, ?_⟩
        intro n hn
        rcases List.mem_cons.mp hn with heq | hn
        · obtain ⟨-, hgiven⟩ := Frame.invoke.inj heq
          rw [Instance.push, Bool.or_assoc, ← hgiven, Bool.or_true]
        · rw [Instance.push, hcallback n hn, Bool.true_or, Bool.true_or]
  cases hnested with
  | application => exact hstart .application hcallback
  | exchange hinvoke => exact hstart (.exchange hinvoke) hcallback
  | invoke hbelow hnew hcontext hholds => exact .none

theorem represents_callBack {s : Instance φ ε ν} {o : Owners φ ε ν} (h : Represents s o)
    (request : Bytes) :
    Option.Rel Represents (s.step runtime (.callBack request))
      (o.step runtime (.callBack request)) := by
  obtain ⟨frames, contexts, calls, callback, events⟩ := s
  obtain ⟨layers, _⟩ := o
  obtain ⟨hnested, hevents, hcallback⟩ := h
  subst hevents
  cases hnested with
  | application => exact .none
  | exchange hinvoke => exact .none
  | @invoke number context call below calls layers hbelow hnew hcontext hholds =>
      have htop := Nested.invoke hbelow hnew hcontext hholds
      simp only [Instance.step, Owners.step]
      generalize call.given = given at htop hcallback ⊢
      cases given with
      | false => exact .none
      | true =>
          simp only [List.head?_cons, Option.bind_eq_bind, Option.bind_some, hcontext,
            hholds.transport, hholds.keyProvider, if_true]
          cases select runtime call.transport call.keyProvider request with
          | error e =>
              exact .some ⟨htop.answer fun _ hholds => holds_refused hholds e, rfl, hcallback⟩
          | ok selected =>
              refine .some ⟨.exchange htop, rfl, ?_⟩
              intro n hn
              exact hcallback n (by simpa using hn)

theorem represents_closureEnds {s : Instance φ ε ν} {o : Owners φ ε ν} (h : Represents s o)
    (result : Except (Throwable ε) Returned) :
    Option.Rel Represents (s.step runtime (.closureEnds result))
      (o.step runtime (.closureEnds result)) := by
  obtain ⟨frames, contexts, calls, callback, events⟩ := s
  obtain ⟨layers, _⟩ := o
  obtain ⟨hnested, hevents, hcallback⟩ := h
  subst hevents
  cases hnested with
  | application => exact .none
  | invoke hbelow hnew hcontext hholds => exact .none
  | @exchange number call given transport below calls layers hinvoke =>
      have hrest (n : ℕ) (hn : Frame.invoke n true ∈ Frame.invoke number given :: below) :=
        hcallback n (List.mem_cons_of_mem _ (List.mem_cons_of_mem _ hn))
      simp only [Instance.step, Owners.step]
      cases payload runtime transport result with
      | error e =>
          exact .some ⟨hinvoke.answer fun _ hholds => holds_refused hholds e, rfl, hrest⟩
      | ok data =>
          exact .some ⟨hinvoke.answer fun _ hholds => holds_answered hholds data, rfl, hrest⟩

theorem represents_nativeReturns {s : Instance φ ε ν} {o : Owners φ ε ν} (h : Represents s o)
    (output : Option (Address × Bytes)) :
    Option.Rel Represents (s.step runtime (.nativeReturns output))
      (o.step runtime (.nativeReturns output)) := by
  obtain ⟨frames, contexts, calls, callback, events⟩ := s
  obtain ⟨layers, _⟩ := o
  obtain ⟨hnested, hevents, hcallback⟩ := h
  subst hevents
  cases hnested with
  | application => exact .none
  | exchange hinvoke => exact .none
  | @invoke number context call below calls layers hbelow hnew hcontext hholds =>
      simp only [Instance.step, Owners.step, hcontext, Option.bind_eq_bind, Option.bind_some]
      refine .some ⟨hbelow, ?_, fun n hn => hcallback n (List.mem_cons_of_mem _ hn)⟩
      rw [hholds.error]

variable (runtime) in
theorem represents_step {s : Instance φ ε ν} {o : Owners φ ε ν} (move : Move φ ε ν)
    (h : Represents s o) :
    Option.Rel Represents ((instanceSystem runtime).step s move)
      ((ownersSystem runtime).step o move) := by
  cases move with
  | invoke input transport keyProvider => exact represents_invoke h input transport keyProvider
  | closureEnds result => exact represents_closureEnds h result
  | callBack request => exact represents_callBack h request
  | nativeReturns output => exact represents_nativeReturns h output

theorem represents_idle : Represents (φ := φ) (ε := ε) (ν := ν) .idle .idle where
  nested := .application
  events := rfl
  callback := by
    intro number hmem
    simp [Instance.idle] at hmem

/-- The context of an invocation. -/
def Frame.invocation : Frame → Option ℕ
  | .invoke number _ => some number
  | _ => none

theorem Nested.calls_eq {contexts : List (CallContext φ ε)} {frames : List Frame}
    {calls : List ℕ} {layers : List (Layer φ ε)} (h : Nested contexts frames calls layers) :
    calls = frames.filterMap Frame.invocation ∧ calls.Nodup := by
  induction h with
  | application => exact ⟨rfl, List.nodup_nil⟩
  | invoke hbelow hnew hcontext hholds ih =>
      obtain ⟨rfl, hnodup⟩ := ih
      exact ⟨rfl, List.nodup_cons.mpr ⟨hnew, hnodup⟩⟩
  | exchange hinvoke ih => exact ⟨ih.1, ih.2⟩

end Nesting

section Outputs

variable {φ ε ν : Type} {runtime : Runtime ε ν}

/-- The output that is freed. -/
def Event.output : Event φ ε ν → Option Address
  | .freed output => some output
  | _ => none

/-- The output that the native module has allocated. -/
def Move.output : Move φ ε ν → Option Address
  | .nativeReturns (some (output, _)) => some output
  | _ => none

/-- A step frees the output of its move, and nothing else. -/
theorem outputs_step {s s' : Instance φ ε ν} {move : Move φ ε ν}
    (h : (instanceSystem runtime).step s move = some s') :
    s'.events.filterMap Event.output =
      s.events.filterMap Event.output ++ move.output.toList := by
  have hquiet {event : Event φ ε ν} (hevent : event.output = none) :
      (s.events ++ [event]).filterMap Event.output =
        s.events.filterMap Event.output ++ (none : Option Address).toList := by
    rw [List.filterMap_append, List.filterMap_cons_none hevent]
    rfl
  change s.step runtime move = some s' at h
  cases move with
  | invoke input transport keyProvider =>
      simp only [Instance.step] at h
      split at h
      · split at h
        · obtain rfl := Option.some.inj h
          exact hquiet rfl
        · obtain rfl := Option.some.inj h
          exact hquiet rfl
      · cases h
  | callBack request =>
      simp only [Instance.step] at h
      split at h
      · obtain ⟨top, -, h⟩ := Option.bind_eq_some_iff.mp h
        obtain ⟨context, -, h⟩ := Option.bind_eq_some_iff.mp h
        split at h
        · obtain rfl := Option.some.inj h
          exact hquiet rfl
        · obtain rfl := Option.some.inj h
          exact hquiet rfl
      · cases h
  | closureEnds result =>
      simp only [Instance.step] at h
      split at h
      · split at h
        · obtain rfl := Option.some.inj h
          exact hquiet rfl
        · obtain rfl := Option.some.inj h
          exact hquiet rfl
      · cases h
  | nativeReturns output =>
      simp only [Instance.step] at h
      split at h
      · obtain ⟨context, -, h⟩ := Option.bind_eq_some_iff.mp h
        obtain rfl := Option.some.inj h
        cases output with
        | none =>
            rw [freeOutput, Option.map_none, Option.toList_none, List.append_nil]
            exact hquiet rfl
        | some output =>
            rw [List.append_assoc, List.filterMap_append]
            rfl
      · cases h

theorem outputs_exec {moves : List (Move φ ε ν)} {s s' : Instance φ ε ν}
    (h : (instanceSystem runtime).exec moves s = some s') :
    s'.events.filterMap Event.output =
      s.events.filterMap Event.output ++ moves.filterMap Move.output := by
  induction moves generalizing s with
  | nil =>
      obtain rfl := Option.some.inj h
      exact (List.append_nil _).symm
  | cons move moves ih =>
      obtain ⟨middle, hstep, hrest⟩ := Option.bind_eq_some_iff.mp h
      rw [ih hrest, outputs_step hstep, List.append_assoc]
      cases hmove : move.output with
      | none => rw [List.filterMap_cons_none hmove, Option.toList_none, List.nil_append]
      | some output => rw [List.filterMap_cons_some hmove]; rfl

end Outputs

/-- Whatever the application, the closures and the native module do, and to whatever depth they
call each other, an instance does what it would do if every invocation owned its context. The
contexts of the active invocations are on its stack, each of them once, a trampoline that the native
module has got is there, and the outputs are freed once each, in their order. -/
theorem calls_nest {φ ε ν : Type} (runtime : Runtime ε ν) (moves : List (Move φ ε ν)) :
    ((instanceSystem runtime).exec moves .idle).map Instance.events =
        ((ownersSystem runtime).exec moves .idle).map Owners.events ∧
      ∀ s, (instanceSystem runtime).exec moves .idle = some s →
        s.calls = s.frames.filterMap Frame.invocation ∧ s.calls.Nodup ∧
        (∀ number, Frame.invoke number true ∈ s.frames → s.callback = true) ∧
        s.events.filterMap Event.output = moves.filterMap Move.output := by
  have hrel := Transition.exec_rel (fun _ _ move => represents_step runtime move)
    moves (represents_idle (φ := φ) (ε := ε) (ν := ν))
  revert hrel
  generalize (ownersSystem runtime).exec moves .idle = o
  intro hrel
  constructor
  · revert hrel
    generalize (instanceSystem runtime).exec moves .idle = s
    intro hrel
    cases hrel with
    | none => rfl
    | some h => exact congrArg some h.events
  · intro s hs
    rw [hs] at hrel
    cases hrel with
    | some h =>
        obtain ⟨hcalls, hnodup⟩ := h.nested.calls_eq
        exact ⟨hcalls, hnodup, h.callback, outputs_exec hs⟩

section Sample

/-- PHP for two requests, a transport's and a key's, and empty bodies. -/
def sampleRuntime : Runtime String ℕ where
  encodeInput n := .ok [UInt8.ofNat n]
  decodeRequest text :=
    if text = ascii "transport" then
      .ok (.transport (ascii "http://localhost") (ascii "POST") [] [] (ascii "1000"))
    else if text = ascii "key" then .ok (.key (ascii "devkey"))
    else .error "JsonException"
  decodeResult text := .ok (.value text.length)
  encodePayload members := .ok (ascii "payload " ++ Decimal.decimal members.length)
  base64Encode := id
  base64Decode := some
  intval text := Decimal.value text

/-- The transport of one invocation makes another one, whose key provider throws. -/
def nestedMoves : List (Move ℕ String ℕ) :=
  [.invoke 1 (some 7) none, .callBack (ascii "transport"), .invoke 2 none (some 9),
    .callBack (ascii "key"), .closureEnds (.error (.other "KeyException")),
    .nativeReturns (some (64, ascii "inner")), .closureEnds (.ok (.response 200 [])),
    .nativeReturns (some (32, ascii "outer!"))]

/-- Each callback has got to its own closure, and only the inner invocation throws. -/
example : ((instanceSystem sampleRuntime).exec nestedMoves .idle).map Instance.events =
    some [.passed [1] true,
      .asked 7 (.request ⟨ascii "http://localhost", ascii "POST", [], [], 1000⟩),
      .passed [2] true, .asked 9 (.key (ascii "devkey")), .refused, .freed 64,
      .ended (.error (.other "KeyException")), .answered (ascii "payload 2"), .freed 32,
      .ended (.ok 6)] := rfl

end Sample

end LivekitServer.PhpBinding
