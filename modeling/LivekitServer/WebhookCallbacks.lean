import LivekitServer.Transition
import LivekitServer.WebhookReceiver
import Mathlib.Logic.Function.Basic

/-!
# The callback lock

`SetCallbacks` and `Dispatch` as programs of single operations: taking and releasing
`callbacks_mutex_`, copying and destroying application functors, calling them. Threads run them
from application code, which may call both again whenever it runs: in the body of a callback, in
the copy constructor of a functor and in its destructor.
-/

namespace LivekitServer.Webhook
open Program

/-- The single operations of the two functions on the callbacks of the receiver. -/
inductive Op (φ : Type)
  | lock
  | unlock
  | load (slot : CallbackSlot)
  | exchange (slot : CallbackSlot) (functor : Option φ)
  | copy (functor : φ)
  | destroy (functor : φ)
  | invoke (functor : φ) (event : WebhookEvent)

abbrev OpReply {φ : Type} : Op φ → Type
  | .load _ => Option φ
  | .exchange _ _ => Option φ
  | _ => Unit

abbrev OpProgram (φ : Type) := Program (Op φ) OpReply Thrown

/-- The members of `WebhookCallbacks` in the order of their declaration. -/
def CallbackSlot.members : List CallbackSlot :=
  [.onEvent, .onRoomStarted, .onRoomFinished, .onParticipantJoined, .onParticipantLeft,
    .onParticipantConnectionAborted, .onTrackPublished, .onTrackUnpublished, .onEgressStarted,
    .onEgressUpdated, .onEgressEnded, .onIngressStarted, .onIngressEnded]

section Programs

variable {φ : Type}

/-- The end of a scope that holds functors: they are destroyed. -/
def destroyAll : List φ → OpProgram φ Unit
  | [] => pure ()
  | functor :: functors => do
    perform (Op.destroy functor)
    destroyAll functors

/-- `callbacks_ = std::move(callbacks)`, member by member: the old functor of a member is swapped
out and destroyed. -/
def moveAssign (callbacks : CallbackSlot → Option φ) : List CallbackSlot → OpProgram φ Unit
  | [] => pure ()
  | slot :: slots => do
    let old ← perform (Op.exchange slot (callbacks slot))
    destroyAll old.toList
    moveAssign callbacks slots

def setCallbacks (callbacks : CallbackSlot → Option φ) : OpProgram φ Unit := do
  perform (Op.lock : Op φ)
  moveAssign callbacks CallbackSlot.members
  perform (Op.unlock : Op φ)

/-- `callbacks = callbacks_`, member by member: the members that are copied before a copy throws,
and the exception if one does. -/
def copyAssign : List CallbackSlot → List (CallbackSlot × φ) →
    OpProgram φ (List (CallbackSlot × φ) × Option Thrown)
  | [], copied => pure (copied, none)
  | slot :: slots, copied => do
    match ← perform (Op.load slot : Op φ) with
    | none => copyAssign slots copied
    | some functor =>
      (perform (Op.copy functor)).resume fun
        | .error e => pure (copied, some e)
        | .ok _ => copyAssign slots (copied ++ [(slot, functor)])

/-- `if (callbacks.on_event) callbacks.on_event(event)`. -/
def invokeAny (functor : Option φ) (event : WebhookEvent) : OpProgram φ Unit :=
  match functor with
  | none => pure ()
  | some functor => perform (Op.invoke functor event)

/-- The call of the callback that `SpecificCallback` returns, which is a copy. -/
def invokeSpecific (functor : Option φ) (event : WebhookEvent) : OpProgram φ Unit :=
  match functor with
  | none => pure ()
  | some functor => do
    perform (Op.copy functor)
    (perform (Op.invoke functor event)).resume fun result => do
      perform (Op.destroy functor)
      done result

def invokeCallbacks (copied : List (CallbackSlot × φ)) (event : WebhookEvent) :
    OpProgram φ Unit := do
  invokeAny (copied.lookup .onEvent) event
  invokeSpecific ((specificCallback event.event).bind fun slot => copied.lookup slot) event

/-- What `Dispatch` does once its copies are made or one has failed. -/
def dispatchCopied (copied : List (CallbackSlot × φ)) (event : WebhookEvent) :
    Option Thrown → OpProgram φ Unit
  | some e => done (.error e)
  | none => invokeCallbacks copied event

def dispatchSteps (event : WebhookEvent) : OpProgram φ Unit := do
  perform (Op.lock : Op φ)
  let (copied, failure) ← copyAssign CallbackSlot.members []
  -- the guard ends before the copies do
  perform (Op.unlock : Op φ)
  (dispatchCopied copied event failure).resume fun result => do
    destroyAll (copied.reverse.map Prod.snd)
    done result

end Programs

section Machine

/-- Which application code a functor type runs besides its call. -/
structure Functors (φ : Type) where
  copyRuns : φ → Bool
  destroyRuns : φ → Bool

variable {φ : Type}

/-- A frame of a thread's stack: application code, a function of the receiver that runs, or one
that waits for the application code above it. A destructor does not throw. -/
inductive Frame (φ : Type)
  | app
  | running (program : OpProgram φ Unit)
  | waiting (mayThrow : Bool) (next : Except Thrown Unit → OpProgram φ Unit)

structure LockState (φ : Type) where
  owner : Option ℕ
  callbacks : CallbackSlot → Option φ
  threads : ℕ → List (Frame φ)

namespace LockState

def withStack (s : LockState φ) (t : ℕ) (stack : List (Frame φ)) : LockState φ :=
  { s with threads := Function.update s.threads t stack }

end LockState

/-- What a thread does next: a function of the receiver proceeds or its copy fails, or
application code calls the receiver or ends. -/
inductive Action (φ : Type)
  | proceed
  | copyFails (e : Thrown)
  | setCallbacks (callbacks : CallbackSlot → Option φ)
  | dispatch (event : WebhookEvent)
  | finish (result : Except Thrown Unit)

variable (functors : Functors φ)

/-- One operation of a function of the receiver. -/
def stepOp (s : LockState φ) (t : ℕ) (below : List (Frame φ)) :
    (op : Op φ) → (Except Thrown (OpReply op) → OpProgram φ Unit) → Option (LockState φ)
  | .lock, next =>
    if s.owner = none then
      some { s.withStack t (.running (next (.ok ())) :: below) with owner := some t }
    else none
  | .unlock, next => some { s.withStack t (.running (next (.ok ())) :: below) with owner := none }
  | .load slot, next => some (s.withStack t (.running (next (.ok (s.callbacks slot))) :: below))
  | .exchange slot functor, next =>
    some { s.withStack t (.running (next (.ok (s.callbacks slot))) :: below) with
      callbacks := Function.update s.callbacks slot functor }
  | .copy functor, next =>
    some (s.withStack t (if functors.copyRuns functor then .app :: .waiting true next :: below
      else .running (next (.ok ())) :: below))
  | .destroy functor, next =>
    some (s.withStack t (if functors.destroyRuns functor then .app :: .waiting false next :: below
      else .running (next (.ok ())) :: below))
  | .invoke _ _, next => some (s.withStack t (.app :: .waiting true next :: below))

def stepThread (s : LockState φ) : ℕ × Action φ → Option (LockState φ)
  | (t, action) =>
    match s.threads t, action with
    | .running (.done _) :: below, .proceed => some (s.withStack t below)
    | .running (.call op next) :: below, .proceed => stepOp functors s t below op next
    | .running (.call (.copy _) next) :: below, .copyFails e =>
      some (s.withStack t (.running (next (.error e)) :: below))
    | .app :: below, .setCallbacks callbacks =>
      some (s.withStack t (.running (setCallbacks callbacks) :: .app :: below))
    | .app :: below, .dispatch event =>
      some (s.withStack t (.running (dispatchSteps event) :: .app :: below))
    | .app :: .waiting mayThrow next :: below, .finish result =>
      if mayThrow || result matches .ok _ then
        some (s.withStack t (.running (next result) :: below))
      else none
    | _, _ => none

/-- Threads of application code over one receiver, whose callbacks start out arbitrary. -/
def lockSystem : Transition (LockState φ) (ℕ × Action φ) where
  start s := s.owner = none ∧ ∀ t, s.threads t = [.app]
  step := stepThread functors

/-- Application code runs on the thread. -/
def appRuns : List (Frame φ) → Bool
  | .app :: _ => true
  | _ => false

/-- The thread is about to lock the mutex. -/
def locksNext : List (Frame φ) → Bool
  | .running (.call .lock _) :: _ => true
  | _ => false

/-- No application code runs on the thread that holds the lock, nor does it lock again. -/
def LockDiscipline (s : LockState φ) : Prop :=
  ∀ t, s.owner = some t → appRuns (s.threads t) = false ∧ locksNext (s.threads t) = false

/-- A functor that the step copies or destroys under the lock is copied or destroyed without
application code. -/
def PlainUnderLock (s : LockState φ) (label : ℕ × Action φ) : Prop :=
  s.owner = some label.1 →
    match s.threads label.1, label.2 with
    | .running (.call (.copy functor) _) :: _, .proceed => functors.copyRuns functor = false
    | .running (.call (.destroy functor) _) :: _, .proceed => functors.destroyRuns functor = false
    | _, _ => True

end Machine

section LockUse

variable {φ α β : Type}

/-- How a program uses the lock: it locks only when it does not hold the lock, calls callbacks
only then, unlocks only what it holds, and ends as `post` says of the lock and the result. -/
def LockUse (post : Bool → Except Thrown α → Prop) : Bool → OpProgram φ α → Prop
  | held, .done r => post held r
  | held, .call .lock next => held = false ∧ LockUse post true (next (.ok ()))
  | held, .call .unlock next => held = true ∧ LockUse post false (next (.ok ()))
  | held, .call (.load _) next => ∀ functor, LockUse post held (next (.ok functor))
  | held, .call (.exchange _ _) next => ∀ functor, LockUse post held (next (.ok functor))
  | held, .call (.copy _) next => ∀ r, LockUse post held (next r)
  | held, .call (.destroy _) next => LockUse post held (next (.ok ()))
  | held, .call (.invoke _ _) next => held = false ∧ ∀ r, LockUse post false (next r)

variable {post : Bool → Except Thrown α → Prop} {post' : Bool → Except Thrown β → Prop}

theorem LockUse.resume {p : OpProgram φ α} {k : Except Thrown α → OpProgram φ β} {held : Bool}
    (hp : LockUse post held p) (hk : ∀ h r, post h r → LockUse post' h (k r)) :
    LockUse post' held (p.resume k) := by
  induction p generalizing held with
  | done r => exact hk held r hp
  | call op next ih =>
      cases op with
      | lock => exact ⟨hp.1, ih _ hp.2⟩
      | unlock => exact ⟨hp.1, ih _ hp.2⟩
      | load slot => exact fun functor => ih _ (hp functor)
      | exchange slot functor => exact fun old => ih _ (hp old)
      | copy functor => exact fun r => ih r (hp r)
      | destroy functor => exact ih _ hp
      | invoke functor event => exact ⟨hp.1, fun r => ih r (hp.2 r)⟩

theorem LockUse.bind {p : OpProgram φ α} {f : α → OpProgram φ β} {held : Bool}
    (hp : LockUse post held p) (hok : ∀ h a, post h (.ok a) → LockUse post' h (f a))
    (herror : ∀ h e, post h (.error e) → post' h (.error e)) : LockUse post' held (p >>= f) :=
  hp.resume fun h r hr => by
    cases r with
    | error e => exact herror h e hr
    | ok a => exact hok h a hr

/-- The program returns, with the lock as it was. -/
def Returns (held : Bool) (h : Bool) (r : Except Thrown α) : Prop := h = held ∧ ∃ a, r = .ok a

/-- The program ends without the lock. -/
def Released (h : Bool) (_ : Except Thrown α) : Prop := h = false

theorem destroyAll_lockUse (functors : List φ) (held : Bool) :
    LockUse (Returns held) held (destroyAll functors) := by
  induction functors with
  | nil => exact ⟨rfl, (), rfl⟩
  | cons functor functors ih => exact ih

theorem moveAssign_lockUse (callbacks : CallbackSlot → Option φ) (slots : List CallbackSlot)
    (held : Bool) : LockUse (Returns held) held (moveAssign callbacks slots) := by
  induction slots with
  | nil => exact ⟨rfl, (), rfl⟩
  | cons slot slots ih =>
      intro old
      refine (destroyAll_lockUse old.toList held).bind ?_ ?_
      · rintro h a ⟨rfl, -⟩
        exact ih
      · rintro h e ⟨-, a, ha⟩
        cases ha

theorem setCallbacks_lockUse (callbacks : CallbackSlot → Option φ) :
    LockUse Released false (setCallbacks callbacks) := by
  refine ⟨rfl, (moveAssign_lockUse callbacks CallbackSlot.members true).bind ?_ ?_⟩
  · rintro h a ⟨rfl, -⟩
    exact ⟨rfl, rfl⟩
  · rintro h e ⟨-, a, ha⟩
    cases ha

theorem copyAssign_lockUse (slots : List CallbackSlot) (copied : List (CallbackSlot × φ))
    (held : Bool) : LockUse (Returns held) held (copyAssign slots copied) := by
  induction slots generalizing copied with
  | nil => exact ⟨rfl, _, rfl⟩
  | cons slot slots ih =>
      intro functor
      cases functor with
      | none => exact ih copied
      | some functor =>
          intro r
          cases r with
          | error e => exact ⟨rfl, _, rfl⟩
          | ok _ => exact ih _

theorem invokeAny_lockUse (functor : Option φ) (event : WebhookEvent) :
    LockUse Released false (invokeAny functor event) := by
  cases functor with
  | none => exact rfl
  | some functor => exact ⟨rfl, fun _ => rfl⟩

theorem invokeSpecific_lockUse (functor : Option φ) (event : WebhookEvent) :
    LockUse Released false (invokeSpecific functor event) := by
  cases functor with
  | none => exact rfl
  | some functor =>
      intro r
      cases r with
      | error e => exact rfl
      | ok _ => exact ⟨rfl, fun _ => rfl⟩

theorem dispatchCopied_lockUse (copied : List (CallbackSlot × φ)) (event : WebhookEvent)
    (failure : Option Thrown) : LockUse Released false (dispatchCopied copied event failure) := by
  cases failure with
  | some e => exact rfl
  | none =>
      refine (invokeAny_lockUse _ event).bind ?_ fun _ _ h => h
      rintro h a rfl
      exact invokeSpecific_lockUse _ event

theorem dispatchSteps_lockUse (event : WebhookEvent) :
    LockUse (φ := φ) Released false (dispatchSteps event) := by
  refine ⟨rfl, (copyAssign_lockUse CallbackSlot.members [] true).bind ?_ ?_⟩
  · rintro h ⟨copied, failure⟩ ⟨rfl, -⟩
    refine ⟨rfl, (dispatchCopied_lockUse copied event failure).resume ?_⟩
    rintro h r rfl
    refine (destroyAll_lockUse (copied.reverse.map Prod.snd) false).bind ?_ ?_
    · rintro h a ⟨rfl, -⟩
      exact rfl
    · rintro h e ⟨rfl, -⟩
      exact rfl
  · rintro h e ⟨-, a, ha⟩
    cases ha

end LockUse

section Runs

variable {φ : Type}

/-- A stack with application code on top, whose waiting functions do not hold the lock. -/
inductive Resting : List (Frame φ) → Prop
  | bottom : Resting [.app]
  | nested {mayThrow : Bool} {next : Except Thrown Unit → OpProgram φ Unit}
      {below : List (Frame φ)}
      (hnext : ∀ r, mayThrow = true ∨ r = .ok () → LockUse Released false (next r))
      (hbelow : Resting below) : Resting (.app :: .waiting mayThrow next :: below)

/-- Application code runs without the lock, and a function of the receiver uses it properly. -/
inductive Orderly : Bool → List (Frame φ) → Prop
  | app {stack : List (Frame φ)} (h : Resting stack) : Orderly false stack
  | running {held : Bool} {p : OpProgram φ Unit} {below : List (Frame φ)}
      (hp : LockUse Released held p) (hbelow : Resting below) :
      Orderly held (.running p :: below)

theorem Orderly.of_running {held : Bool} {p : OpProgram φ Unit} {below : List (Frame φ)}
    (h : Orderly held (.running p :: below)) : LockUse Released held p ∧ Resting below := by
  cases h with
  | app h => cases h
  | running hp hbelow => exact ⟨hp, hbelow⟩

theorem Orderly.of_app {held : Bool} {below : List (Frame φ)} (h : Orderly held (.app :: below)) :
    held = false ∧ Resting (.app :: below) := by
  cases h with
  | app h => exact ⟨rfl, h⟩

theorem Resting.of_waiting {mayThrow : Bool} {next : Except Thrown Unit → OpProgram φ Unit}
    {below : List (Frame φ)} (h : Resting (.app :: .waiting mayThrow next :: below)) :
    (∀ r, mayThrow = true ∨ r = .ok () → LockUse Released false (next r)) ∧ Resting below := by
  cases h with
  | nested hnext hbelow => exact ⟨hnext, hbelow⟩

def LockInvariant (s : LockState φ) : Prop :=
  ∀ t, Orderly (decide (s.owner = some t)) (s.threads t)

theorem Orderly.discipline {held : Bool} {stack : List (Frame φ)} (h : Orderly held stack)
    (hheld : held = true) : appRuns stack = false ∧ locksNext stack = false := by
  cases h with
  | app h => cases hheld
  | @running _ p below hp hbelow =>
      refine ⟨rfl, ?_⟩
      cases p with
      | done r => rfl
      | call op next =>
          cases op with
          | lock => exact absurd hp.1 (by simp [hheld])
          | _ => rfl

theorem LockInvariant.discipline {s : LockState φ} (h : LockInvariant s) : LockDiscipline s :=
  fun t ht => (h t).discipline (decide_eq_true ht)

/-- One thread moves: the other threads keep their stacks and their part in the lock. -/
theorem LockInvariant.update {s s' : LockState φ} (h : LockInvariant s) {t : ℕ}
    {stack : List (Frame φ)} (hthreads : s'.threads = Function.update s.threads t stack)
    (hother : ∀ u, u ≠ t → (s'.owner = some u ↔ s.owner = some u))
    (hstack : Orderly (decide (s'.owner = some t)) stack) : LockInvariant s' := by
  intro u
  rw [hthreads]
  by_cases hu : u = t
  · subst hu
    rw [Function.update_self]
    exact hstack
  · rw [Function.update_of_ne hu, decide_eq_decide.mpr (hother u hu)]
    exact h u

theorem LockInvariant.withStack {s : LockState φ} (h : LockInvariant s) {t : ℕ}
    {stack : List (Frame φ)} (hstack : Orderly (decide (s.owner = some t)) stack) :
    LockInvariant (s.withStack t stack) :=
  h.update rfl (fun _ _ => Iff.rfl) hstack

variable {functors : Functors φ}

/-- Application code goes on top of a function that does not hold the lock. -/
theorem orderly_app {s : LockState φ} {t : ℕ} (howner : s.owner ≠ some t) {mayThrow : Bool}
    {next : Except Thrown Unit → OpProgram φ Unit} {below : List (Frame φ)}
    (hnext : ∀ r, mayThrow = true ∨ r = .ok () → LockUse Released false (next r))
    (hbelow : Resting below) :
    Orderly (decide (s.owner = some t)) (.app :: .waiting mayThrow next :: below) := by
  rw [decide_eq_false howner]
  exact .app (.nested hnext hbelow)

theorem stepOp_invariant {s s' : LockState φ} {t : ℕ} {below : List (Frame φ)} {op : Op φ}
    {next : Except Thrown (OpReply op) → OpProgram φ Unit} (h : LockInvariant s)
    (hp : LockUse Released (decide (s.owner = some t)) (.call op next)) (hbelow : Resting below)
    (hcopy : ∀ functor, op = .copy functor → s.owner = some t → functors.copyRuns functor = false)
    (hdestroy : ∀ functor, op = .destroy functor → s.owner = some t →
      functors.destroyRuns functor = false)
    (hstep : stepOp functors s t below op next = some s') : LockInvariant s' := by
  cases op with
  | lock =>
      simp only [stepOp] at hstep
      split_ifs at hstep with hnone
      obtain rfl := Option.some.inj hstep
      refine h.update rfl (fun u hu => ?_) ?_
      · simp [hnone, Ne.symm hu]
      · simpa using Orderly.running hp.2 hbelow
  | unlock =>
      obtain rfl := Option.some.inj hstep
      have howner : s.owner = some t := of_decide_eq_true hp.1
      refine h.update rfl (fun u hu => ?_) ?_
      · simp [howner, Ne.symm hu]
      · simpa using Orderly.running hp.2 hbelow
  | load slot =>
      obtain rfl := Option.some.inj hstep
      exact h.update rfl (fun _ _ => Iff.rfl) (.running (hp _) hbelow)
  | exchange slot functor =>
      obtain rfl := Option.some.inj hstep
      exact h.update rfl (fun _ _ => Iff.rfl) (.running (hp _) hbelow)
  | copy functor =>
      obtain rfl := Option.some.inj hstep
      refine h.update rfl (fun _ _ => Iff.rfl) ?_
      split_ifs with hruns
      · have howner : s.owner ≠ some t := fun ho => by simp [hcopy functor rfl ho] at hruns
        rw [decide_eq_false howner] at hp
        exact orderly_app howner (fun r _ => hp r) hbelow
      · exact .running (hp (.ok ())) hbelow
  | destroy functor =>
      obtain rfl := Option.some.inj hstep
      refine h.update rfl (fun _ _ => Iff.rfl) ?_
      split_ifs with hruns
      · have howner : s.owner ≠ some t := fun ho => by simp [hdestroy functor rfl ho] at hruns
        rw [decide_eq_false howner] at hp
        refine orderly_app howner (fun r hr => ?_) hbelow
        rcases hr with hr | rfl
        · cases hr
        · exact hp
      · exact .running hp hbelow
  | invoke functor event =>
      obtain rfl := Option.some.inj hstep
      refine h.update rfl (fun _ _ => Iff.rfl) ?_
      exact orderly_app (of_decide_eq_false hp.1) (fun r _ => hp.2 r) hbelow

theorem stepThread_invariant {s s' : LockState φ} {label : ℕ × Action φ} (h : LockInvariant s)
    (hplain : PlainUnderLock functors s label)
    (hstep : (lockSystem functors).step s label = some s') : LockInvariant s' := by
  obtain ⟨t, action⟩ := label
  have ht := h t
  simp only [lockSystem, stepThread] at hstep
  simp only [PlainUnderLock] at hplain
  split at hstep
  · next _ _ r below hs =>
    obtain rfl := Option.some.inj hstep
    obtain ⟨hp, hbelow⟩ := (hs ▸ ht).of_running
    have hfree : decide (s.owner = some t) = false := hp
    exact h.withStack (hfree ▸ .app hbelow)
  · next _ _ op next below hs =>
    rw [hs] at hplain
    obtain ⟨hp, hbelow⟩ := (hs ▸ ht).of_running
    refine stepOp_invariant h hp hbelow ?_ ?_ hstep
    · rintro functor rfl ho
      exact hplain ho
    · rintro functor rfl ho
      exact hplain ho
  · next _ _ functor next below e hs =>
    obtain rfl := Option.some.inj hstep
    obtain ⟨hp, hbelow⟩ := (hs ▸ ht).of_running
    exact h.withStack (.running (hp (.error e)) hbelow)
  · next _ _ below callbacks hs =>
    obtain rfl := Option.some.inj hstep
    obtain ⟨hfree, hrest⟩ := (hs ▸ ht).of_app
    exact h.withStack (hfree ▸ .running (setCallbacks_lockUse callbacks) hrest)
  · next _ _ below event hs =>
    obtain rfl := Option.some.inj hstep
    obtain ⟨hfree, hrest⟩ := (hs ▸ ht).of_app
    exact h.withStack (hfree ▸ .running (dispatchSteps_lockUse event) hrest)
  · next _ _ mayThrow next below result hs =>
    split_ifs at hstep with hresult
    obtain rfl := Option.some.inj hstep
    obtain ⟨hfree, hrest⟩ := (hs ▸ ht).of_app
    obtain ⟨hnext, hbelow⟩ := hrest.of_waiting
    have hended : mayThrow = true ∨ result = .ok () := by
      cases result with
      | error e => simpa using hresult
      | ok u => exact Or.inr rfl
    exact h.withStack (hfree ▸ .running (hnext result hended) hbelow)
  · cases hstep

theorem plain_of_discipline {s s' : LockState φ} {label : ℕ × Action φ}
    (hstep : (lockSystem functors).step s label = some s') (h : LockDiscipline s') :
    PlainUnderLock functors s label := by
  obtain ⟨t, action⟩ := label
  intro ho
  simp only [lockSystem, stepThread] at hstep
  dsimp only at ho ⊢
  split
  · next _ _ functor next below hs =>
    rw [hs] at hstep
    by_contra hruns
    simp only [stepOp, if_pos (Bool.not_eq_false _ ▸ hruns), Option.some.injEq] at hstep
    subst hstep
    have happ := (h t ho).1
    simp [LockState.withStack, appRuns] at happ
  · next _ _ functor next below hs =>
    rw [hs] at hstep
    by_contra hruns
    simp only [stepOp, if_pos (Bool.not_eq_false _ ▸ hruns), Option.some.injEq] at hstep
    subst hstep
    have happ := (h t ho).1
    simp [LockState.withStack, appRuns] at happ
  · trivial

/-- While every step copies and destroys functors under the lock without application code, no
application code runs under the lock and no thread locks it twice; the first other step breaks
this. -/
theorem lockDiscipline_run (functors : Functors φ) :
    ∀ s, (lockSystem functors).Reachable (PlainUnderLock functors) s →
      LockDiscipline s ∧ ∀ label s', (lockSystem functors).step s label = some s' →
        (LockDiscipline s' ↔ PlainUnderLock functors s label) := by
  intro s hs
  have hinvariant : (lockSystem functors).Invariant (PlainUnderLock functors) LockInvariant :=
    { start := fun s h t => by
        rw [h.2 t, h.1]
        exact .app .bottom
      step := fun _ _ _ h hplain hstep => stepThread_invariant h hplain hstep }
  have hi := hinvariant.reachable hs
  refine ⟨hi.discipline, fun label s' hstep => ⟨plain_of_discipline hstep, fun hplain => ?_⟩⟩
  exact (stepThread_invariant hi hplain hstep).discipline

/-- Whether a thread's next step copies or destroys a functor without application code. -/
def plainNext (functors : Functors φ) : List (Frame φ) → Action φ → Bool
  | .running (.call (.copy functor) _) :: _, .proceed => !functors.copyRuns functor
  | .running (.call (.destroy functor) _) :: _, .proceed => !functors.destroyRuns functor
  | _, _ => true

theorem plainNext_iff {s : LockState φ} {label : ℕ × Action φ} :
    (s.owner = some label.1 → plainNext functors (s.threads label.1) label.2 = true) ↔
      PlainUnderLock functors s label := by
  apply imp_congr_right
  intro _
  unfold plainNext
  split <;> simp

instance (s : LockState φ) (label : ℕ × Action φ) : Decidable (PlainUnderLock functors s label) :=
  decidable_of_iff _ plainNext_iff

/-- A functor whose captured object has a destructor of the application. -/
def capturing : Functors Unit := ⟨fun _ => false, fun _ => true⟩

def idleState : LockState Unit := ⟨none, fun _ => none, fun _ => [.app]⟩

def onlyOnEvent : CallbackSlot → Option Unit := fun slot => if slot = .onEvent then some () else none

def namedEvent (event : String) : WebhookEvent :=
  ⟨ascii event, ascii "EV_1", 0, none, none, none, none, none, [], inInt64_zero⟩

/-- A thread sets a callback and dispatches an event: the callback is copied under the lock, called
and destroyed without the lock. The thread then replaces the callback, up to the destruction of the
old one. -/
def dispatchAndReplace : List (ℕ × Action Unit) :=
  (0, .setCallbacks onlyOnEvent) :: List.replicate 16 (0, .proceed) ++
    (0, .dispatch (namedEvent "room_started")) :: List.replicate 17 (0, .proceed) ++
    [(0, .finish (.ok ())), (0, .proceed), (0, .finish (.ok ())), (0, .proceed),
      (0, .setCallbacks fun _ => none), (0, .proceed), (0, .proceed)]

/-- Every step of that run is plain, and the next one is the first that is not. -/
theorem lockDiscipline_run_sample :
    ∃ s s', (lockSystem capturing).execMeeting (PlainUnderLock capturing) dispatchAndReplace
        idleState = some s ∧ s.owner = some 0 ∧ LockDiscipline s ∧
      (lockSystem capturing).step s (0, .proceed) = some s' ∧ ¬LockDiscipline s' := by
  have hexec : (((lockSystem capturing).execMeeting (PlainUnderLock capturing) dispatchAndReplace
      idleState).any fun s => decide (s.owner = some 0) &&
        !decide (PlainUnderLock capturing s (0, .proceed)) &&
        ((lockSystem capturing).step s (0, .proceed)).isSome) = true := by decide +kernel
  obtain ⟨s, hs, hnext⟩ := (Option.any_eq_true _ _).mp hexec
  simp only [Bool.and_eq_true, Bool.not_eq_true', decide_eq_true_eq, decide_eq_false_iff_not,
    Option.isSome_iff_exists] at hnext
  obtain ⟨⟨howner, hplain⟩, s', hstep⟩ := hnext
  obtain ⟨hdiscipline, hsteps⟩ := lockDiscipline_run capturing s
    (Transition.reachable_execMeeting (.start ⟨rfl, fun _ => rfl⟩) hs)
  exact ⟨s, s', hs, howner, hdiscipline, hstep, fun h => hplain ((hsteps _ s' hstep).mp h)⟩

/-- A thread sets a callback and replaces it, and the destructor of the old callback calls
`SetCallbacks`. -/
def replacement : List (ℕ × Action Unit) :=
  (0, .setCallbacks onlyOnEvent) :: List.replicate 16 (0, .proceed) ++
    (0, .setCallbacks fun _ => none) :: List.replicate 3 (0, .proceed) ++
    [(0, .setCallbacks fun _ => none)]

theorem replacement_relocks :
    ∃ s, (lockSystem capturing).Reachable (fun _ _ => True) s ∧ ¬ LockDiscipline s ∧
      s.owner = some 0 ∧ locksNext (s.threads 0) = true := by
  have hexec : (((lockSystem capturing).exec replacement idleState).any fun s =>
      decide (s.owner = some 0) && locksNext (s.threads 0)) = true := by decide +kernel
  obtain ⟨s, hs, hrelocks⟩ := (Option.any_eq_true _ _).mp hexec
  rw [Bool.and_eq_true, decide_eq_true_iff] at hrelocks
  obtain ⟨howner, hlocks⟩ := hrelocks
  refine ⟨s, Transition.reachable_exec (.start ⟨rfl, fun _ => rfl⟩) hs, fun h => ?_, howner,
    hlocks⟩
  rw [(h 0 howner).2] at hlocks
  cases hlocks

end Runs
end LivekitServer.Webhook
