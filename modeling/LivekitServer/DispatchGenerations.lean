import LivekitServer.WebhookCallbacks

/-!
# Callback generations

The same two functions with their critical sections as single steps: `SetCallbacks` installs a set
of callbacks, and `Dispatch` takes the installed set and then runs callbacks of it. Threads and
callbacks call both at any time. Every call of `Dispatch` carries a record of what it has done, in
which the snapshot names all the sets that were installed until then. `DispatchInvariant` says that
a record is always the beginning of a course over the set that its snapshot took.
-/

namespace LivekitServer.Webhook
open Program

abbrev CallbackSet (φ : Type) := CallbackSlot → Option φ

section Programs

variable {φ : Type}

inductive DispatchOp (φ : Type)
  | snapshot
  | invoke (functor : φ) (event : WebhookEvent)

abbrev DispatchReply {φ : Type} : DispatchOp φ → Type
  | .snapshot => CallbackSet φ
  | .invoke _ _ => Unit

abbrev DispatchProgram (φ : Type) := Program (DispatchOp φ) DispatchReply Thrown

def invokeIfPresent (functor : Option φ) (event : WebhookEvent) : DispatchProgram φ Unit :=
  match functor with
  | none => pure ()
  | some functor => perform (DispatchOp.invoke functor event)

/-- `Dispatch`, whose critical section is one operation. -/
def dispatchAtomic (event : WebhookEvent) : DispatchProgram φ Unit := do
  let callbacks ← perform (DispatchOp.snapshot : DispatchOp φ)
  invokeIfPresent (callbacks .onEvent) event
  invokeIfPresent ((specificCallback event.event).bind callbacks) event

end Programs

section Machine

variable {φ : Type}

/-- What a call of `Dispatch` does, in order. -/
inductive Activity (φ : Type)
  | snapshot (installed : List (CallbackSet φ))
  | invoked (functor : φ) (event : WebhookEvent)
  | answered (result : Except Thrown Unit)
  | ended (result : Except Thrown Unit)

/-- A call of `Dispatch`: its event and what it has done so far. -/
structure DispatchRecord (φ : Type) where
  event : WebhookEvent
  activity : List (Activity φ)

def DispatchRecord.add (record : DispatchRecord φ) (step : Activity φ) : DispatchRecord φ :=
  { record with activity := record.activity ++ [step] }

/-- Application code, a `Dispatch` that runs, or one that waits for the callback above it. -/
inductive DispatchFrame (φ : Type)
  | app
  | running (record : DispatchRecord φ) (program : DispatchProgram φ Unit)
  | waiting (record : DispatchRecord φ) (next : Except Thrown Unit → DispatchProgram φ Unit)

/-- The sets installed so far start with the one of the constructor. -/
structure DispatchState (φ : Type) where
  callbacks : CallbackSet φ
  installed : List (CallbackSet φ)
  finished : List (DispatchRecord φ)
  threads : ℕ → List (DispatchFrame φ)

def DispatchState.withStack (s : DispatchState φ) (t : ℕ) (stack : List (DispatchFrame φ)) :
    DispatchState φ :=
  { s with threads := Function.update s.threads t stack }

namespace DispatchState

variable (s : DispatchState φ)

@[simp] theorem finished_withStack (t : ℕ) (stack : List (DispatchFrame φ)) :
    (s.withStack t stack).finished = s.finished := rfl

@[simp] theorem threads_withStack (t : ℕ) (stack : List (DispatchFrame φ)) :
    (s.withStack t stack).threads t = stack := Function.update_self _ _ _

theorem threads_withStack_of_ne {t u : ℕ} (h : u ≠ t) (stack : List (DispatchFrame φ)) :
    (s.withStack t stack).threads u = s.threads u := Function.update_of_ne h _ _

theorem withStack_withStack (t : ℕ) (stack stack' : List (DispatchFrame φ)) :
    (s.withStack t stack).withStack t stack' = s.withStack t stack' := by
  simp only [withStack, Function.update_idem]

end DispatchState

inductive DispatchAction (φ : Type)
  | proceed
  | setCallbacks (callbacks : CallbackSet φ)
  | dispatch (event : WebhookEvent)
  | finish (result : Except Thrown Unit)

def dispatchStep (s : DispatchState φ) : ℕ × DispatchAction φ → Option (DispatchState φ)
  | (t, action) =>
    match s.threads t, action with
    | .running record (.done result) :: below, .proceed =>
      some { s.withStack t below with finished := s.finished ++ [record.add (.ended result)] }
    | .running record (.call .snapshot next) :: below, .proceed =>
      some (s.withStack t
        (.running (record.add (.snapshot s.installed)) (next (.ok s.callbacks)) :: below))
    | .running record (.call (.invoke functor event) next) :: below, .proceed =>
      some (s.withStack t (.app :: .waiting (record.add (.invoked functor event)) next :: below))
    | .app :: _, .setCallbacks callbacks =>
      some { s with callbacks := callbacks, installed := s.installed ++ [callbacks] }
    | .app :: below, .dispatch event =>
      some (s.withStack t (.running ⟨event, []⟩ (dispatchAtomic event) :: .app :: below))
    | .app :: .waiting record next :: below, .finish result =>
      some (s.withStack t (.running (record.add (.answered result)) (next result) :: below))
    | _, _ => none

/-- Threads of application code over one receiver. -/
def dispatchSystem (φ : Type) : Transition (DispatchState φ) (ℕ × DispatchAction φ) where
  start s := ∃ callbacks, s = ⟨callbacks, [callbacks], [], fun _ => [.app]⟩
  step := dispatchStep

end Machine

section Courses

variable {φ : Type}

/-- The event for which a callback is, none for the callback of all events. -/
def eventName : CallbackSlot → Option Bytes
  | .onEvent => none
  | .onRoomStarted => some (ascii "room_started")
  | .onRoomFinished => some (ascii "room_finished")
  | .onParticipantJoined => some (ascii "participant_joined")
  | .onParticipantLeft => some (ascii "participant_left")
  | .onParticipantConnectionAborted => some (ascii "participant_connection_aborted")
  | .onTrackPublished => some (ascii "track_published")
  | .onTrackUnpublished => some (ascii "track_unpublished")
  | .onEgressStarted => some (ascii "egress_started")
  | .onEgressUpdated => some (ascii "egress_updated")
  | .onEgressEnded => some (ascii "egress_ended")
  | .onIngressStarted => some (ascii "ingress_started")
  | .onIngressEnded => some (ascii "ingress_ended")

theorem CallbackSlot.mem_members (slot : CallbackSlot) : slot ∈ CallbackSlot.members := by
  cases slot <;> decide

/-- The callbacks of a set that an event is for: `on_event`, then the one of its name. -/
def chosen (callbacks : CallbackSet φ) (event : WebhookEvent) : List φ :=
  (callbacks .onEvent).toList ++
    ((CallbackSlot.members.filter (eventName · = some event.event)).flatMap fun slot =>
      (callbacks slot).toList)

/-- Callbacks that were called with the event, one after the other, and returned. -/
def returned (event : WebhookEvent) (functors : List φ) : List (Activity φ) :=
  functors.flatMap fun functor => [.invoked functor event, .answered (.ok ())]

/-- What a whole call does after its snapshot: the chosen callbacks run in order, up to the first
that throws. -/
inductive Course (callbacks : CallbackSet φ) (event : WebhookEvent) : List (Activity φ) → Prop
  | returns : Course callbacks event (returned event (chosen callbacks event) ++ [.ended (.ok ())])
  | throws {front back : List φ} {functor : φ} (e : Thrown)
      (h : chosen callbacks event = front ++ functor :: back) :
      Course callbacks event (returned event front ++
        [.invoked functor event, .answered (.error e), .ended (.error e)])

theorem ite_some_iff {c : Prop} [Decidable c] {a slot : CallbackSlot}
    {rest : Option CallbackSlot} :
    (if c then some a else rest) = some slot ↔ (c ∧ a = slot) ∨ (¬c ∧ rest = some slot) := by
  by_cases hc : c
  · simp [hc]
  · simp [hc]

theorem specificCallback_iff (event : Bytes) (slot : CallbackSlot) :
    specificCallback event = some slot ↔ eventName slot = some event := by
  constructor
  · intro h
    rw [specificCallback] at h
    repeat
      rcases ite_some_iff.mp h with ⟨rfl, rfl⟩ | ⟨-, h⟩
      · rfl
    cases h
  · intro h
    cases slot <;> cases h <;> decide +kernel

/-- The name of an event stands for at most one member. -/
theorem filter_eventName (event : Bytes) :
    CallbackSlot.members.filter (eventName · = some event) = (specificCallback event).toList := by
  cases h : specificCallback event with
  | none =>
      refine List.filter_eq_nil_iff.mpr fun slot _ hslot => ?_
      rw [(specificCallback_iff event slot).mpr (of_decide_eq_true hslot)] at h
      cases h
  | some slot =>
      have hname := (specificCallback_iff event slot).mp h
      have hsame (other : CallbackSlot) :
          decide (eventName other = some event) = (other == slot) := by
        by_cases hother : other = slot
        · rw [hother, hname]
          simp
        · have hne : eventName other ≠ some event := fun hn =>
            hother (Option.some.inj (((specificCallback_iff event other).mpr hn).symm.trans h))
          simp [hne, hother]
      simp only [hsame]
      cases slot <;> rfl

theorem chosen_eq (callbacks : CallbackSet φ) (event : WebhookEvent) :
    chosen callbacks event = (callbacks .onEvent).toList ++
      ((specificCallback event.event).bind callbacks).toList := by
  rw [chosen, filter_eventName]
  cases specificCallback event.event with
  | none => rfl
  | some slot => simp

end Courses

section Invariant

variable {φ : Type}

/-- The snapshot found these sets installed, of which the last one is taken. -/
structure Took (installed earlier : List (CallbackSet φ)) (callbacks : CallbackSet φ) : Prop where
  begins : earlier <+: installed
  last : earlier.getLast? = some callbacks

theorem Took.append {installed earlier : List (CallbackSet φ)} {callbacks : CallbackSet φ}
    (h : Took installed earlier callbacks) (callbacks' : CallbackSet φ) :
    Took (installed ++ [callbacks']) earlier callbacks :=
  ⟨h.begins.trans (List.prefix_append _ _), h.last⟩

/-- The calls that are left. -/
def callAll (event : WebhookEvent) : List φ → DispatchProgram φ Unit
  | [] => pure ()
  | functor :: functors => do
    perform (DispatchOp.invoke functor event)
    callAll event functors

theorem invokeIfPresent_eq (functor : Option φ) (event : WebhookEvent) :
    invokeIfPresent functor event = callAll event functor.toList := by
  cases functor with
  | none => rfl
  | some functor =>
      have hnext : (done : Except Thrown Unit → DispatchProgram φ Unit) =
          fun reply => (done reply).resume (onValue fun _ => pure ()) := by
        funext reply
        cases reply with
        | error e => rfl
        | ok u => rfl
      exact congrArg (call (DispatchOp.invoke functor event)) hnext

theorem invokeIfPresent_bind (functor : Option φ) (event : WebhookEvent) (functors : List φ) :
    (invokeIfPresent functor event >>= fun _ => callAll event functors) =
      callAll event (functor.toList ++ functors) := by
  cases functor with
  | none => rfl
  | some functor => rfl

theorem dispatchAtomic_eq (event : WebhookEvent) :
    dispatchAtomic (φ := φ) event = call DispatchOp.snapshot
      (onValue fun callbacks => callAll event (chosen callbacks event)) := by
  have hnext (callbacks : CallbackSet φ) :
      (do
        invokeIfPresent (callbacks .onEvent) event
        invokeIfPresent ((specificCallback event.event).bind callbacks) event) =
      callAll event (chosen callbacks event) := by
    rw [chosen_eq, invokeIfPresent_eq ((specificCallback event.event).bind callbacks),
      invokeIfPresent_bind]
  simp only [dispatchAtomic, hnext]
  rfl

theorem returned_append (event : WebhookEvent) (front back : List φ) :
    returned event (front ++ back) = returned event front ++ returned event back :=
  List.flatMap_append

theorem returned_concat (event : WebhookEvent) (front : List φ) (functor : φ) :
    returned event (front ++ [functor]) =
      returned event front ++ [.invoked functor event, .answered (.ok ())] := by
  simp [returned]

/-- Where a running `Dispatch` stands: before its snapshot, between two callbacks, or after one
that threw. -/
inductive Progress (installed : List (CallbackSet φ)) :
    DispatchRecord φ → DispatchProgram φ Unit → Prop
  | called (event : WebhookEvent) : Progress installed ⟨event, []⟩ (dispatchAtomic event)
  | calling {event : WebhookEvent} {earlier : List (CallbackSet φ)} {callbacks : CallbackSet φ}
      {front back : List φ} (htook : Took installed earlier callbacks)
      (h : chosen callbacks event = front ++ back) :
      Progress installed ⟨event, .snapshot earlier :: returned event front⟩ (callAll event back)
  | threw {event : WebhookEvent} {earlier : List (CallbackSet φ)} {callbacks : CallbackSet φ}
      {front back : List φ} {functor : φ} (e : Thrown) (htook : Took installed earlier callbacks)
      (h : chosen callbacks event = front ++ functor :: back) :
      Progress installed
        ⟨event, .snapshot earlier ::
          (returned event front ++ [.invoked functor event, .answered (.error e)])⟩
        (done (.error e))

/-- A `Dispatch` waits for the callback that it has just called. -/
inductive Awaits (installed : List (CallbackSet φ)) :
    DispatchRecord φ → (Except Thrown Unit → DispatchProgram φ Unit) → Prop
  | intro {event : WebhookEvent} {earlier : List (CallbackSet φ)} {callbacks : CallbackSet φ}
      {front back : List φ} {functor : φ} (htook : Took installed earlier callbacks)
      (h : chosen callbacks event = front ++ functor :: back) :
      Awaits installed
        ⟨event, .snapshot earlier :: (returned event front ++ [.invoked functor event])⟩
        (onValue fun _ => callAll event back)

def SoundFrame (installed : List (CallbackSet φ)) : DispatchFrame φ → Prop
  | .app => True
  | .running record program => Progress installed record program
  | .waiting record next => Awaits installed record next

theorem SoundFrame.append {installed : List (CallbackSet φ)} {frame : DispatchFrame φ}
    (h : SoundFrame installed frame) (callbacks : CallbackSet φ) :
    SoundFrame (installed ++ [callbacks]) frame := by
  cases frame with
  | app => trivial
  | running record program =>
      cases h with
      | called event => exact .called event
      | calling htook h => exact .calling (htook.append callbacks) h
      | threw e htook h => exact .threw e (htook.append callbacks) h
  | waiting record next =>
      cases h with
      | intro htook h => exact .intro (htook.append callbacks) h

/-- A whole call: its snapshot and a course over the set that the snapshot took. -/
def Whole (installed : List (CallbackSet φ)) (record : DispatchRecord φ) : Prop :=
  ∃ earlier callbacks course, Took installed earlier callbacks ∧
    Course callbacks record.event course ∧ record.activity = .snapshot earlier :: course

/-- A call that has begun at most: the beginning of a whole one. -/
def Begun (installed : List (CallbackSet φ)) (record : DispatchRecord φ) : Prop :=
  record.activity = [] ∨ ∃ earlier callbacks course, Took installed earlier callbacks ∧
    Course callbacks record.event course ∧ record.activity <+: .snapshot earlier :: course

theorem Whole.append {installed : List (CallbackSet φ)} {record : DispatchRecord φ}
    (h : Whole installed record) (callbacks : CallbackSet φ) :
    Whole (installed ++ [callbacks]) record := by
  obtain ⟨earlier, taken, course, htook, hcourse, hactivity⟩ := h
  exact ⟨earlier, taken, course, htook.append callbacks, hcourse, hactivity⟩

/-- Whatever callbacks are left, the course may still end. -/
theorem exists_course {callbacks : CallbackSet φ} {event : WebhookEvent} {front back : List φ}
    (h : chosen callbacks event = front ++ back) :
    ∃ course, Course callbacks event course ∧ returned event front <+: course := by
  refine ⟨_, .returns, ?_⟩
  rw [h, returned_append, List.append_assoc]
  exact List.prefix_append _ _

theorem Progress.begun {installed : List (CallbackSet φ)} {record : DispatchRecord φ}
    {program : DispatchProgram φ Unit} (h : Progress installed record program) :
    Begun installed record := by
  cases h with
  | called event => exact Or.inl rfl
  | calling htook h =>
      obtain ⟨course, hcourse, hbegin⟩ := exists_course h
      exact Or.inr ⟨_, _, course, htook, hcourse, List.cons_prefix_cons.mpr ⟨rfl, hbegin⟩⟩
  | threw e htook h =>
      refine Or.inr ⟨_, _, _, htook, .throws e h, List.cons_prefix_cons.mpr ⟨rfl, ?_⟩⟩
      apply (List.prefix_append_right_inj _).mpr
      exact ⟨[.ended (.error e)], rfl⟩

/-- A call that has done nothing has its snapshot before it. -/
theorem Progress.begins {installed : List (CallbackSet φ)} {record : DispatchRecord φ}
    {program : DispatchProgram φ Unit} (h : Progress installed record program)
    (hempty : record.activity = []) : program = dispatchAtomic record.event := by
  cases h with
  | called event => rfl
  | calling htook h => cases hempty
  | threw e htook h => cases hempty

theorem Awaits.begun {installed : List (CallbackSet φ)} {record : DispatchRecord φ}
    {next : Except Thrown Unit → DispatchProgram φ Unit} (h : Awaits installed record next) :
    Begun installed record := by
  cases h with
  | intro htook h =>
      refine Or.inr ⟨_, _, _, htook, .throws .unknown h, List.cons_prefix_cons.mpr ⟨rfl, ?_⟩⟩
      apply (List.prefix_append_right_inj _).mpr
      exact ⟨[.answered (.error .unknown), .ended (.error .unknown)], rfl⟩

/-- A call that is done has run a whole course. -/
theorem Progress.whole {installed : List (CallbackSet φ)} {record : DispatchRecord φ}
    {result : Except Thrown Unit} (h : Progress installed record (done result)) :
    Whole installed (record.add (.ended result)) := by
  generalize hp : (done result : DispatchProgram φ Unit) = program at h
  cases h with
  | called event => cases hp
  | @calling event earlier callbacks front back htook h =>
      cases back with
      | nil =>
          obtain rfl : result = .ok () := by
            injection hp
          rw [List.append_nil] at h
          subst h
          exact ⟨earlier, callbacks, _, htook, .returns, rfl⟩
      | cons functor back => cases hp
  | @threw event earlier callbacks front back functor e htook h =>
      obtain rfl : result = .error e := by
        injection hp
      refine ⟨earlier, callbacks, _, htook, .throws e h, ?_⟩
      simp [DispatchRecord.add]

/-- The snapshot takes the set that is installed. -/
theorem Progress.snapshot {installed : List (CallbackSet φ)} {record : DispatchRecord φ}
    {next : Except Thrown (CallbackSet φ) → DispatchProgram φ Unit} {callbacks : CallbackSet φ}
    (h : Progress installed record (call DispatchOp.snapshot next))
    (hlast : installed.getLast? = some callbacks) :
    Progress installed (record.add (.snapshot installed)) (next (.ok callbacks)) := by
  generalize hp : (call DispatchOp.snapshot next : DispatchProgram φ Unit) = program at h
  cases h with
  | called event =>
      rw [dispatchAtomic_eq] at hp
      injection hp with _ hnext
      subst hnext
      have hsplit : chosen callbacks event = [] ++ chosen callbacks event := rfl
      exact .calling ⟨List.prefix_refl _, hlast⟩ hsplit
  | @calling event earlier taken front back htook h =>
      cases back with
      | nil => cases hp
      | cons functor back => cases hp
  | threw e htook h => cases hp

theorem Progress.invoke {installed : List (CallbackSet φ)} {record : DispatchRecord φ}
    {functor : φ} {event : WebhookEvent} {next : Except Thrown Unit → DispatchProgram φ Unit}
    (h : Progress installed record (call (DispatchOp.invoke functor event) next)) :
    Awaits installed (record.add (.invoked functor event)) next := by
  generalize hp : (call (DispatchOp.invoke functor event) next : DispatchProgram φ Unit) =
    program at h
  cases h with
  | called event =>
      rw [dispatchAtomic_eq] at hp
      cases hp
  | @calling event earlier taken front back htook h =>
      cases back with
      | nil => cases hp
      | cons functor back =>
          injection hp with hop hnext
          injection hop with hfunctor hevent
          subst hfunctor hevent
          subst hnext
          exact .intro htook h
  | threw e htook h => cases hp

theorem Awaits.answered {installed : List (CallbackSet φ)} {record : DispatchRecord φ}
    {next : Except Thrown Unit → DispatchProgram φ Unit} (h : Awaits installed record next)
    (result : Except Thrown Unit) :
    Progress installed (record.add (.answered result)) (next result) := by
  cases h with
  | @intro event earlier callbacks front back functor htook h =>
      cases result with
      | error e =>
          have hadd : (⟨event, .snapshot earlier :: (returned event front ++
              [.invoked functor event])⟩ : DispatchRecord φ).add (.answered (.error e)) =
              ⟨event, .snapshot earlier ::
                (returned event front ++ [.invoked functor event, .answered (.error e)])⟩ := by
            simp [DispatchRecord.add]
          rw [hadd]
          exact .threw e htook h
      | ok u =>
          have hadd : (⟨event, .snapshot earlier :: (returned event front ++
              [.invoked functor event])⟩ : DispatchRecord φ).add (.answered (.ok u)) =
              ⟨event, .snapshot earlier :: returned event (front ++ [functor])⟩ := by
            simp [DispatchRecord.add, returned_concat]
          rw [hadd]
          refine .calling htook ?_
          rw [h, List.append_assoc, List.singleton_append]

structure DispatchInvariant (s : DispatchState φ) : Prop where
  current : s.installed.getLast? = some s.callbacks
  finished : ∀ record ∈ s.finished, Whole s.installed record
  frames : ∀ t, ∀ frame ∈ s.threads t, SoundFrame s.installed frame

/-- A thread replaces the frames on top of its stack. -/
theorem DispatchInvariant.withStack {s : DispatchState φ} (h : DispatchInvariant s) {t : ℕ}
    {stack : List (DispatchFrame φ)} (hstack : ∀ frame ∈ stack, SoundFrame s.installed frame) :
    DispatchInvariant (s.withStack t stack) where
  current := h.current
  finished := h.finished
  frames u frame hframe := by
    by_cases hu : u = t
    · subst hu
      rw [DispatchState.threads_withStack] at hframe
      exact hstack frame hframe
    · rw [DispatchState.threads_withStack_of_ne _ hu] at hframe
      exact h.frames u frame hframe

theorem dispatchStep_invariant {s s' : DispatchState φ} {label : ℕ × DispatchAction φ}
    (h : DispatchInvariant s) (hstep : dispatchStep s label = some s') : DispatchInvariant s' := by
  obtain ⟨t, action⟩ := label
  have ht := h.frames t
  simp only [dispatchStep] at hstep
  split at hstep
  · next _ _ record result below hs =>
    obtain rfl := Option.some.inj hstep
    rw [hs, List.forall_mem_cons] at ht
    have hbelow := h.withStack (t := t) ht.2
    refine ⟨hbelow.current, fun record' hrecord => ?_, hbelow.frames⟩
    rcases List.mem_append.mp hrecord with hrecord | hrecord
    · exact h.finished record' hrecord
    · rw [List.mem_singleton.mp hrecord]
      exact Progress.whole ht.1
  · next _ _ record next below hs =>
    obtain rfl := Option.some.inj hstep
    rw [hs, List.forall_mem_cons] at ht
    exact h.withStack (List.forall_mem_cons.mpr ⟨Progress.snapshot ht.1 h.current, ht.2⟩)
  · next _ _ record functor event next below hs =>
    obtain rfl := Option.some.inj hstep
    rw [hs, List.forall_mem_cons] at ht
    exact h.withStack
      (List.forall_mem_cons.mpr ⟨trivial, List.forall_mem_cons.mpr ⟨Progress.invoke ht.1, ht.2⟩⟩)
  · next _ _ below callbacks hs =>
    obtain rfl := Option.some.inj hstep
    exact ⟨by simp, fun record hrecord => (h.finished record hrecord).append callbacks,
      fun u frame hframe => (h.frames u frame hframe).append callbacks⟩
  · next _ _ below event hs =>
    obtain rfl := Option.some.inj hstep
    rw [hs] at ht
    exact h.withStack (List.forall_mem_cons.mpr ⟨.called event, ht⟩)
  · next _ _ record next below result hs =>
    obtain rfl := Option.some.inj hstep
    rw [hs, List.forall_mem_cons, List.forall_mem_cons] at ht
    exact h.withStack (List.forall_mem_cons.mpr ⟨Awaits.answered ht.2.1 result, ht.2.2⟩)
  · cases hstep

end Invariant

end LivekitServer.Webhook
