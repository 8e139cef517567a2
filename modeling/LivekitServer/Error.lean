import LivekitServer.Bytes
import Mathlib.Data.Int.Notation

/-!
# Errors

`Error` is the exception type of the library. A computation may also end in another standard
exception or in an unknown one: a callback or an allocation can throw anything.
-/

namespace LivekitServer

inductive ErrorCode
  | invalidArgument
  | authentication
  | transport
  | http
  | protocol
  | unsupported
  | unknown
  deriving DecidableEq

def ErrorCode.value : ErrorCode → ℕ
  | .invalidArgument => 0
  | .authentication => 1
  | .transport => 2
  | .http => 3
  | .protocol => 4
  | .unsupported => 5
  | .unknown => 255

structure Error where
  code : ErrorCode
  message : Bytes
  httpStatus : ℤ
  twirpCode : Bytes
  deriving DecidableEq

/-- `what()` is a C string: it ends at the first NUL of the message. -/
def Error.what (e : Error) : Bytes := e.message.takeWhile (· ≠ 0)

/-- Whatever a computation can throw. -/
inductive Thrown
  | error (e : Error)
  | standard (what : Bytes)
  | unknown
  deriving DecidableEq

abbrev Outcome (α : Type) := Except Thrown α

/-- `throw Error(code, message)`. -/
def raise {α : Type} (code : ErrorCode) (message : Bytes) : Outcome α :=
  .error (.error ⟨code, message, 0, []⟩)

variable {α β : Type}

theorem bind_ok {o : Outcome α} {f : α → Outcome β} {b : β} :
    (o >>= f) = .ok b ↔ ∃ a, o = .ok a ∧ f a = .ok b := by
  cases o with
  | error e =>
      constructor
      · intro h
        cases h
      · rintro ⟨a, h, -⟩
        cases h
  | ok a =>
      constructor
      · exact fun h => ⟨a, rfl, h⟩
      · rintro ⟨_, ha, h⟩
        obtain rfl := Except.ok.inj ha
        exact h

/-- A check that passes leaves the rest of the computation. -/
theorem check_ok {c : Prop} [Decidable c] {code : ErrorCode} {message : Bytes} {rest : Outcome α}
    {a : α} :
    (if c then (raise code message : Outcome Unit) >>= fun _ => rest else rest) = .ok a ↔
      ¬c ∧ rest = .ok a := by
  by_cases hc : c
  · rw [if_pos hc]
    constructor
    · intro h
      cases h
    · exact fun h => absurd hc h.1
  · rw [if_neg hc, and_iff_right hc]

end LivekitServer
