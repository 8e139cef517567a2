import LivekitServer.DispatchGenerations

/-!
# The locked code and its single steps

While the lock keeps the callbacks, the locked `Dispatch` calls what the one with a single snapshot
calls and ends as it does, and the exchanges of the locked `SetCallbacks` amount to the new set.
-/

namespace LivekitServer.Webhook
open Program

section Refinement

variable {ι γ : Type} {ρ : ι → Type} {ε α β : Type} (see : ι → Option γ)
  (outside : ∀ request, Except ε (ρ request))

/-- The calls of a program that are seen, and its result. -/
def view (p : Program ι ρ ε α) : List γ × Except ε α :=
  ((p.log outside).filterMap see, p.result outside)

theorem view_resume (p : Program ι ρ ε α) (k : Except ε α → Program ι ρ ε β) :
    view see outside (p.resume k) =
      ((view see outside p).1 ++ (view see outside (k (view see outside p).2)).1,
        (view see outside (k (view see outside p).2)).2) := by
  simp only [view, log, result, run_resume, List.filterMap_append]

variable {φ : Type} (callbacks : CallbackSet φ)
  (answer : φ → WebhookEvent → Except Thrown Unit)

def Op.invocation? : Op φ → Option (φ × WebhookEvent)
  | .invoke functor event => some (functor, event)
  | _ => none

def DispatchOp.invocation? : DispatchOp φ → Option (φ × WebhookEvent)
  | .invoke functor event => some (functor, event)
  | .snapshot => none

/-- What the locked code meets while the lock keeps the callbacks: they are read as they are, and
copies succeed. -/
def lockedReply : ∀ op : Op φ, Except Thrown (OpReply op)
  | .lock => .ok ()
  | .unlock => .ok ()
  | .load slot => .ok (callbacks slot)
  | .exchange slot _ => .ok (callbacks slot)
  | .copy _ => .ok ()
  | .destroy _ => .ok ()
  | .invoke functor event => answer functor event

def atomicReply : ∀ op : DispatchOp φ, Except Thrown (DispatchReply op)
  | .snapshot => .ok callbacks
  | .invoke functor event => answer functor event

def viewLocked (p : OpProgram φ α) : List (φ × WebhookEvent) × Except Thrown α :=
  view Op.invocation? (lockedReply callbacks answer) p

def viewAtomic (p : DispatchProgram φ α) : List (φ × WebhookEvent) × Except Thrown α :=
  view DispatchOp.invocation? (atomicReply callbacks answer) p

theorem viewLocked_resume (p : OpProgram φ α) (k : Except Thrown α → OpProgram φ β) :
    viewLocked callbacks answer (p.resume k) =
      ((viewLocked callbacks answer p).1 ++
          (viewLocked callbacks answer (k (viewLocked callbacks answer p).2)).1,
        (viewLocked callbacks answer (k (viewLocked callbacks answer p).2)).2) :=
  view_resume _ _ p k

theorem viewLocked_bind (p : OpProgram φ α) (f : α → OpProgram φ β) :
    viewLocked callbacks answer (p >>= f) =
      ((viewLocked callbacks answer p).1 ++
          (viewLocked callbacks answer (onValue f (viewLocked callbacks answer p).2)).1,
        (viewLocked callbacks answer (onValue f (viewLocked callbacks answer p).2)).2) :=
  view_resume _ _ p (onValue f)

theorem viewAtomic_bind (p : DispatchProgram φ α) (f : α → DispatchProgram φ β) :
    viewAtomic callbacks answer (p >>= f) =
      ((viewAtomic callbacks answer p).1 ++
          (viewAtomic callbacks answer (onValue f (viewAtomic callbacks answer p).2)).1,
        (viewAtomic callbacks answer (onValue f (viewAtomic callbacks answer p).2)).2) :=
  view_resume _ _ p (onValue f)

theorem viewLocked_destroyAll (functors : List φ) :
    viewLocked callbacks answer (destroyAll functors) = ([], .ok ()) := by
  induction functors with
  | nil => rfl
  | cons functor functors ih =>
      rw [destroyAll, viewLocked_bind]
      exact ih

/-- The members of a set that are copied, each with its functor. -/
def copies (slots : List CallbackSlot) : List (CallbackSlot × φ) :=
  slots.filterMap fun slot => (callbacks slot).map fun functor => (slot, functor)

theorem viewLocked_copyAssign (slots : List CallbackSlot) (copied : List (CallbackSlot × φ)) :
    viewLocked callbacks answer (copyAssign slots copied) =
      ([], .ok (copied ++ copies callbacks slots, none)) := by
  induction slots generalizing copied with
  | nil => simp [copyAssign, copies, viewLocked, view, log, result]
  | cons slot slots ih =>
      have hload : viewLocked callbacks answer (perform (Op.load slot)) =
          ([], .ok (callbacks slot)) := rfl
      rw [copyAssign, viewLocked_bind, hload]
      cases hslot : callbacks slot with
      | none => simpa [onValue, copies, hslot] using ih copied
      | some functor =>
          have hcopy : viewLocked callbacks answer (perform (Op.copy functor)) = ([], .ok ()) := rfl
          simp only [onValue, viewLocked_resume, hcopy]
          simpa [copies, hslot] using ih (copied ++ [(slot, functor)])

theorem lookup_copies (slots : List CallbackSlot) (slot : CallbackSlot) :
    (copies callbacks slots).lookup slot = if slot ∈ slots then callbacks slot else none := by
  induction slots with
  | nil => rfl
  | cons first slots ih =>
      by_cases hslot : slot = first
      · subst hslot
        rw [if_pos List.mem_cons_self]
        cases hfirst : callbacks slot with
        | none =>
            have hskip : copies callbacks (slot :: slots) = copies callbacks slots := by
              simp [copies, hfirst]
            rw [hskip, ih, hfirst, ite_self]
        | some functor => simp [copies, hfirst]
      · have hmem : slot ∈ first :: slots ↔ slot ∈ slots := by simp [hslot]
        rw [if_congr hmem rfl rfl, ← ih]
        cases hfirst : callbacks first with
        | none => simp [copies, hfirst]
        | some functor =>
            have hne : (slot == first) = false := by simpa using hslot
            simp [copies, hfirst, List.lookup_cons, hne]

theorem lookup_members (slot : CallbackSlot) :
    (copies callbacks CallbackSlot.members).lookup slot = callbacks slot := by
  rw [lookup_copies, if_pos (CallbackSlot.mem_members slot)]

theorem view_invokeAny (functor : Option φ) (event : WebhookEvent) :
    viewLocked callbacks answer (invokeAny functor event) =
      viewAtomic callbacks answer (invokeIfPresent functor event) := by
  cases functor with
  | none => rfl
  | some functor => rfl

theorem view_invokeSpecific (functor : Option φ) (event : WebhookEvent) :
    viewLocked callbacks answer (invokeSpecific functor event) =
      viewAtomic callbacks answer (invokeIfPresent functor event) := by
  cases functor with
  | none => rfl
  | some functor =>
      have hdestroy (r : Except Thrown Unit) : viewLocked callbacks answer (do
          perform (Op.destroy functor)
          done r) = ([], r) := rfl
      have hcopy : viewLocked callbacks answer (perform (Op.copy functor)) = ([], .ok ()) := rfl
      rw [invokeSpecific, viewLocked_bind, hcopy]
      simp only [onValue, viewLocked_resume, hdestroy, List.append_nil, List.nil_append]
      rfl

/-- The locked `Dispatch` calls the callbacks that the atomic one calls, and ends as it does. -/
theorem view_dispatchSteps (event : WebhookEvent) :
    viewLocked callbacks answer (dispatchSteps event) =
      viewAtomic callbacks answer (dispatchAtomic event) := by
  have hlock : viewLocked callbacks answer (perform (Op.lock : Op φ)) = ([], .ok ()) := rfl
  have hunlock : viewLocked callbacks answer (perform (Op.unlock : Op φ)) = ([], .ok ()) := rfl
  have hsnapshot : viewAtomic callbacks answer (perform (DispatchOp.snapshot : DispatchOp φ)) =
      ([], .ok callbacks) := rfl
  have hdone (r : Except Thrown Unit) : viewLocked callbacks answer (done r) = ([], r) := rfl
  have hcallbacks : viewLocked callbacks answer
      (invokeCallbacks (copies callbacks CallbackSlot.members) event) =
      viewAtomic callbacks answer (do
        invokeIfPresent (callbacks .onEvent) event
        invokeIfPresent ((specificCallback event.event).bind callbacks) event) := by
    rw [invokeCallbacks, viewLocked_bind, viewAtomic_bind]
    simp only [lookup_members, view_invokeAny]
    cases (viewAtomic callbacks answer (invokeIfPresent (callbacks .onEvent) event)).2 with
    | error e => rfl
    | ok u => simp only [onValue, view_invokeSpecific]
  have hdestroy (functors : List φ) (r : Except Thrown Unit) : viewLocked callbacks answer
      (destroyAll functors >>= fun _ => done r) = ([], r) := by
    rw [viewLocked_bind, viewLocked_destroyAll]
    exact hdone r
  rw [dispatchSteps, viewLocked_bind, hlock, dispatchAtomic, viewAtomic_bind, hsnapshot]
  simp only [onValue, viewLocked_bind, viewLocked_copyAssign, hunlock, List.nil_append,
    dispatchCopied, viewLocked_resume, hcallbacks, hdestroy, List.append_nil]

/-- The callbacks after an operation. -/
def Op.installs (before : CallbackSet φ) : Op φ → CallbackSet φ
  | .exchange slot functor => Function.update before slot functor
  | _ => before

theorem run_destroyAll (functors : List φ) :
    run (lockedReply callbacks answer) (destroyAll functors) =
      (functors.map Op.destroy, .ok ()) := by
  induction functors with
  | nil => rfl
  | cons functor functors ih =>
      rw [destroyAll, run_bind]
      simp only [run_perform, lockedReply, onValue, ih]
      rfl

theorem foldl_destroy (before : CallbackSet φ) (functors : List φ) :
    (functors.map Op.destroy).foldl Op.installs before = before := by
  induction functors with
  | nil => rfl
  | cons functor functors ih => exact ih

/-- Member by member, the new set takes the place of the old one. -/
theorem run_moveAssign (replacement before : CallbackSet φ) (slots : List CallbackSlot) :
    (run (lockedReply callbacks answer) (moveAssign replacement slots)).2 = .ok () ∧
      ((run (lockedReply callbacks answer) (moveAssign replacement slots)).1.foldl Op.installs
          before) =
        fun slot => if slot ∈ slots then replacement slot else before slot := by
  induction slots generalizing before with
  | nil => exact ⟨rfl, by simp [moveAssign]⟩
  | cons first slots ih =>
      obtain ⟨hok, hset⟩ := ih (Function.update before first (replacement first))
      rw [moveAssign, run_bind]
      simp only [run_perform, lockedReply, onValue, run_bind, run_destroyAll, List.foldl_append,
        List.foldl_cons, List.foldl_nil, Op.installs, foldl_destroy, hset, hok, true_and]
      funext slot
      by_cases hslot : slot = first
      · subst hslot
        simp
      · simp [hslot]

theorem setCallbacks_installs (replacement before : CallbackSet φ) :
    ((setCallbacks replacement).log (lockedReply callbacks answer)).foldl Op.installs before =
      replacement := by
  obtain ⟨hok, hset⟩ := run_moveAssign callbacks answer replacement before CallbackSlot.members
  rw [log, setCallbacks, run_bind]
  simp only [run_perform, lockedReply, onValue, run_bind, hok, List.foldl_append, List.foldl_cons,
    List.foldl_nil, Op.installs, hset]
  funext slot
  exact if_pos (CallbackSlot.mem_members slot)

end Refinement

end LivekitServer.Webhook
