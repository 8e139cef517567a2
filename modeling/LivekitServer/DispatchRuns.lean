import LivekitServer.DispatchLocked

/-!
# Runs of dispatches

A run is a list of what its threads do. `KeepsGenerations` compares what it leaves with the calls
in it: the sets that were set, a record for every call of `Dispatch`, and in each record a course
over the one set that its snapshot took. `GoesOn` says what comes next, and that a call with
nothing in between does what the locked code does.
-/

namespace LivekitServer.Webhook
open Program

section Histories

variable {φ : Type}

/-- The record of a call that has not ended. -/
def DispatchFrame.record? : DispatchFrame φ → Option (DispatchRecord φ)
  | .app => none
  | .running record _ => some record
  | .waiting record _ => some record

/-- The records of a stack of calls, the innermost first. -/
def records (stack : List (DispatchFrame φ)) : List (DispatchRecord φ) :=
  stack.filterMap DispatchFrame.record?

@[simp] theorem records_app (below : List (DispatchFrame φ)) :
    records (.app :: below) = records below := rfl

@[simp] theorem records_running (record : DispatchRecord φ) (program : DispatchProgram φ Unit)
    (below : List (DispatchFrame φ)) :
    records (.running record program :: below) = record :: records below := rfl

@[simp] theorem records_waiting (record : DispatchRecord φ)
    (next : Except Thrown Unit → DispatchProgram φ Unit) (below : List (DispatchFrame φ)) :
    records (.waiting record next :: below) = record :: records below := rfl

def DispatchAction.installs? : DispatchAction φ → Option (CallbackSet φ)
  | .setCallbacks callbacks => some callbacks
  | _ => none

def DispatchAction.dispatches? : DispatchAction φ → Option WebhookEvent
  | .dispatch event => some event
  | _ => none

/-- The events of all calls, of those that have ended and of those on these threads. -/
def DispatchState.events (s : DispatchState φ) (threads : List ℕ) : List WebhookEvent :=
  (s.finished ++ threads.flatMap fun t => records (s.threads t)).map DispatchRecord.event

section Steps

variable {s s' : DispatchState φ} {t : ℕ} {record : DispatchRecord φ}
  {below : List (DispatchFrame φ)}

theorem step_ended {result : Except Thrown Unit}
    (h : s.threads t = .running record (done result) :: below) :
    (dispatchSystem φ).step s (t, .proceed) =
      some { s.withStack t below with finished := s.finished ++ [record.add (.ended result)] } := by
  simp only [dispatchSystem, dispatchStep, h]

theorem step_snapshot {next : Except Thrown (CallbackSet φ) → DispatchProgram φ Unit}
    (h : s.threads t = .running record (call DispatchOp.snapshot next) :: below) :
    (dispatchSystem φ).step s (t, .proceed) = some (s.withStack t
      (.running (record.add (.snapshot s.installed)) (next (.ok s.callbacks)) :: below)) := by
  simp only [dispatchSystem, dispatchStep, h]

theorem step_invoked {functor : φ} {event : WebhookEvent}
    {next : Except Thrown Unit → DispatchProgram φ Unit}
    (h : s.threads t = .running record (call (DispatchOp.invoke functor event) next) :: below) :
    (dispatchSystem φ).step s (t, .proceed) = some (s.withStack t
      (.app :: .waiting (record.add (.invoked functor event)) next :: below)) := by
  simp only [dispatchSystem, dispatchStep, h]

theorem step_answered {next : Except Thrown Unit → DispatchProgram φ Unit}
    (h : s.threads t = .app :: .waiting record next :: below) (result : Except Thrown Unit) :
    (dispatchSystem φ).step s (t, .finish result) = some (s.withStack t
      (.running (record.add (.answered result)) (next result) :: below)) := by
  simp only [dispatchSystem, dispatchStep, h]

theorem step_dispatch (h : s.threads t = .app :: below) (event : WebhookEvent) :
    (dispatchSystem φ).step s (t, .dispatch event) = some (s.withStack t
      (.running ⟨event, []⟩ (dispatchAtomic event) :: s.threads t)) := by
  simp only [dispatchSystem, dispatchStep, h]

theorem step_setCallbacks (h : s.threads t = .app :: below) (replacement : CallbackSet φ) :
    (dispatchSystem φ).step s (t, .setCallbacks replacement) = some { s with
      callbacks := replacement
      installed := s.installed ++ [replacement] } := by
  simp only [dispatchSystem, dispatchStep, h]

end Steps

section Calls

variable {s s' : DispatchState φ} {t : ℕ} {action : DispatchAction φ}

/-- What a step changes: a stack, the sets installed and the calls made. -/
theorem dispatchStep_frame (hstep : dispatchStep s (t, action) = some s') :
    (∀ u, u ≠ t → s'.threads u = s.threads u) ∧
      s'.installed = s.installed ++ action.installs?.toList ∧
      ((s'.finished ++ records (s'.threads t)).map DispatchRecord.event).Perm
        ((s.finished ++ records (s.threads t)).map DispatchRecord.event ++
          action.dispatches?.toList) := by
  have hother (stack : List (DispatchFrame φ)) (u : ℕ) (hu : u ≠ t) :=
    s.threads_withStack_of_ne hu stack
  simp only [dispatchStep] at hstep
  split at hstep
  · next _ _ record result below hs =>
    obtain rfl := Option.some.inj hstep
    refine ⟨hother below, (List.append_nil _).symm, ?_⟩
    simp [hs, DispatchRecord.add, DispatchAction.dispatches?]
  · next _ _ record next below hs =>
    obtain rfl := Option.some.inj hstep
    refine ⟨hother _, (List.append_nil _).symm, ?_⟩
    simp [hs, DispatchRecord.add, DispatchAction.dispatches?]
  · next _ _ record functor event next below hs =>
    obtain rfl := Option.some.inj hstep
    refine ⟨hother _, (List.append_nil _).symm, ?_⟩
    simp [hs, DispatchRecord.add, DispatchAction.dispatches?]
  · next _ _ below callbacks hs =>
    obtain rfl := Option.some.inj hstep
    exact ⟨fun _ _ => rfl, rfl, by simp [DispatchAction.dispatches?]⟩
  · next _ _ below event hs =>
    obtain rfl := Option.some.inj hstep
    refine ⟨hother _, (List.append_nil _).symm, ?_⟩
    simp only [DispatchState.threads_withStack, hs, records_running, records_app,
      List.map_append, List.map_cons]
    rw [List.append_assoc]
    exact (List.perm_append_singleton _ _).symm.append_left _
  · next _ _ record next below result hs =>
    obtain rfl := Option.some.inj hstep
    refine ⟨hother _, (List.append_nil _).symm, ?_⟩
    simp [hs, DispatchRecord.add, DispatchAction.dispatches?]
  · cases hstep

/-- The calls of one thread, apart from those of the others. -/
theorem events_perm {threads : List ℕ} (ht : t ∈ threads) :
    (s.events threads).Perm ((s.finished ++ records (s.threads t)).map DispatchRecord.event ++
      ((threads.erase t).flatMap fun u => records (s.threads u)).map DispatchRecord.event) := by
  have hperm := (List.perm_cons_erase ht).flatMap_right fun u => records (s.threads u)
  rw [DispatchState.events, ← List.map_append, List.append_assoc]
  exact (hperm.append_left s.finished).map _

theorem dispatchStep_events (hstep : dispatchStep s (t, action) = some s') {threads : List ℕ}
    (hnodup : threads.Nodup) (ht : t ∈ threads) :
    (s'.events threads).Perm (s.events threads ++ action.dispatches?.toList) := by
  obtain ⟨hother, -, hcalls⟩ := dispatchStep_frame hstep
  have hothers : ((threads.erase t).flatMap fun u => records (s'.threads u)) =
      (threads.erase t).flatMap fun u => records (s.threads u) := by
    refine List.flatMap_congr fun u hu => ?_
    rw [hother u ((hnodup.mem_erase_iff.mp hu).1)]
  refine (events_perm ht).trans ?_
  rw [hothers]
  refine (hcalls.append_right _).trans ?_
  rw [List.append_assoc]
  refine (List.perm_append_comm.append_left _).trans ?_
  rw [← List.append_assoc]
  exact (events_perm ht).symm.append_right _

/-- A run installs the sets of its calls of `SetCallbacks`, in order, and makes its calls of
`Dispatch`. -/
theorem exec_history {labels : List (ℕ × DispatchAction φ)}
    (h : (dispatchSystem φ).exec labels s = some s') :
    s'.installed = s.installed ++ labels.filterMap (fun label => label.2.installs?) ∧
      ∀ threads : List ℕ, threads.Nodup → (∀ label ∈ labels, label.1 ∈ threads) →
        (s'.events threads).Perm
          (s.events threads ++ labels.filterMap fun label => label.2.dispatches?) := by
  induction labels generalizing s with
  | nil =>
      obtain rfl := Option.some.inj h
      refine ⟨(List.append_nil _).symm, fun threads _ _ => ?_⟩
      rw [List.filterMap_nil, List.append_nil]
  | cons label labels ih =>
      obtain ⟨t, action⟩ := label
      obtain ⟨middle, hstep, hrest⟩ := Option.bind_eq_some_iff.mp h
      obtain ⟨hinstalled, hevents⟩ := ih hrest
      have htoList {γ : Type} (found : (ℕ × DispatchAction φ) → Option γ) :
          ((t, action) :: labels).filterMap found =
            (found (t, action)).toList ++ labels.filterMap found := by
        rw [List.filterMap_cons]
        cases found (t, action) <;> rfl
      constructor
      · rw [hinstalled, (dispatchStep_frame hstep).2.1, htoList, List.append_assoc]
      · intro threads hnodup hthreads
        obtain ⟨ht, hothers⟩ := List.forall_mem_cons.mp hthreads
        rw [htoList, ← List.append_assoc]
        exact (hevents threads hnodup hothers).trans
          ((dispatchStep_events hstep hnodup ht).append_right _)

end Calls

section Alone

variable (t : ℕ) (answer : φ → WebhookEvent → Except Thrown Unit) (event : WebhookEvent)

/-- What a thread does when callbacks answer at once. -/
def answering : List φ → List (ℕ × DispatchAction φ)
  | [] => [(t, .proceed)]
  | functor :: functors =>
    (t, .proceed) :: (t, .finish (answer functor event)) ::
      match answer functor event with
      | .error _ => [(t, .proceed)]
      | .ok _ => answering functors

/-- What a call does then. -/
def courseOf : List φ → List (Activity φ)
  | [] => [.ended (.ok ())]
  | functor :: functors =>
    .invoked functor event :: .answered (answer functor event) ::
      match answer functor event with
      | .error e => [.ended (.error e)]
      | .ok _ => courseOf functors

def Activity.invocation? : Activity φ → Option (φ × WebhookEvent)
  | .invoked functor event => some (functor, event)
  | _ => none

variable {t answer event}

theorem course_courseOf {callbacks : CallbackSet φ} {front back : List φ}
    (h : chosen callbacks event = front ++ back) :
    Course callbacks event (returned event front ++ courseOf answer event back) := by
  induction back generalizing front with
  | nil =>
      rw [List.append_nil] at h
      exact h ▸ .returns
  | cons functor back ih =>
      rw [courseOf]
      cases hanswer : answer functor event with
      | error e => exact .throws e h
      | ok u =>
          have hsplit : chosen callbacks event = (front ++ [functor]) ++ back := by
            rw [h, List.append_assoc]
            rfl
          have hnext := ih hsplit
          rw [returned_concat, List.append_assoc] at hnext
          exact hnext

variable {s : DispatchState φ}

/-- The callbacks that are left run one after the other, and the call ends. -/
theorem exec_callAll {functors : List φ} {record : DispatchRecord φ}
    {below : List (DispatchFrame φ)}
    (h : s.threads t = .running record (callAll event functors) :: below) :
    (dispatchSystem φ).exec (answering t answer event functors) s = some { s.withStack t below with
      finished := s.finished ++
        [{ record with activity := record.activity ++ courseOf answer event functors }] } := by
  induction functors generalizing record s with
  | nil =>
      rw [answering, Transition.exec_cons (step_ended h)]
      rfl
  | cons functor functors ih =>
      rw [answering, Transition.exec_cons (step_invoked h), Transition.exec_cons
        (step_answered (s.threads_withStack t _) (answer functor event)), s.withStack_withStack]
      cases hanswer : answer functor event with
      | error e =>
          refine (Transition.exec_cons (step_ended (s.threads_withStack t
            (.running _ (done (.error e)) :: below))) []).trans ?_
          simp only [s.withStack_withStack, courseOf, hanswer, DispatchRecord.add,
            List.append_assoc]
          rfl
      | ok u =>
          refine (ih (s.threads_withStack t
            (.running _ (callAll event functors) :: below))).trans ?_
          simp only [s.withStack_withStack, courseOf, hanswer, DispatchRecord.add,
            List.append_assoc]
          rfl

variable (answer event) in
theorem viewAtomic_callAll (callbacks : CallbackSet φ) (functors : List φ) :
    (viewAtomic callbacks answer (callAll event functors)).1 =
        (courseOf answer event functors).filterMap Activity.invocation? ∧
      (courseOf answer event functors).getLast? =
        some (.ended (viewAtomic callbacks answer (callAll event functors)).2) := by
  induction functors with
  | nil => exact ⟨rfl, rfl⟩
  | cons functor functors ih =>
      have hinvoke : viewAtomic callbacks answer (perform (DispatchOp.invoke functor event)) =
          ([(functor, event)], answer functor event) := rfl
      rw [callAll, viewAtomic_bind, hinvoke, courseOf]
      cases hanswer : answer functor event with
      | error e => exact ⟨rfl, rfl⟩
      | ok u =>
          refine ⟨congrArg (List.cons (functor, event)) ih.1, ?_⟩
          rw [List.getLast?_cons_cons, List.getLast?_cons, ih.2]
          rfl

end Alone

end Histories

section Runs

variable {φ : Type}

/-- What a run has made of the calls in it. The sets installed are the one of the constructor and
those that were set, every call of `Dispatch` has a record, and a record follows the one set that
its snapshot took, which was the last one installed then. -/
structure KeepsGenerations (callbacks : CallbackSet φ) (labels : List (ℕ × DispatchAction φ))
    (s : DispatchState φ) : Prop where
  installed : s.installed = callbacks :: labels.filterMap fun label => label.2.installs?
  current : s.installed.getLast? = some s.callbacks
  calls : ∀ threads : List ℕ, threads.Nodup → (∀ label ∈ labels, label.1 ∈ threads) →
    (s.events threads).Perm (labels.filterMap fun label => label.2.dispatches?)
  finished : ∀ record ∈ s.finished, Whole s.installed record
  unfinished : ∀ t, ∀ record ∈ records (s.threads t), Begun s.installed record

/-- How calls go on from a state. A `Dispatch` is never blocked: its snapshot names all the sets
installed so far, and then its record grows with its callbacks, their answers and its end. When
nothing comes between, a call does what the locked code does. -/
structure GoesOn (s : DispatchState φ) : Prop where
  proceeds : ∀ t record program below, s.threads t = .running record program :: below →
    ∃ activity s', (dispatchSystem φ).step s (t, .proceed) = some s' ∧
      (record.activity = [] → activity = .snapshot s.installed) ∧
      ((∃ result, activity = .ended result) ∧ s'.threads t = below ∧
          s'.finished = s.finished ++ [record.add activity] ∨
        records (s'.threads t) = record.add activity :: records below ∧
          s'.finished = s.finished)
  answers : ∀ t record next below result, s.threads t = .app :: .waiting record next :: below →
    ∃ s', (dispatchSystem φ).step s (t, .finish result) = some s' ∧
      records (s'.threads t) = record.add (.answered result) :: records below
  dispatches : ∀ t below, s.threads t = .app :: below → ∀ event answer, ∃ labels course,
    (dispatchSystem φ).exec ((t, .dispatch event) :: labels) s = some { s with
      finished := s.finished ++ [⟨event, .snapshot s.installed :: course⟩] } ∧
    (∀ label ∈ labels, label = (t, .proceed) ∨
      ∃ functor, label = (t, .finish (answer functor event))) ∧
    Course s.callbacks event course ∧
    course.filterMap Activity.invocation? =
      (viewLocked s.callbacks answer (dispatchSteps event)).1 ∧
    course.getLast? = some (.ended (viewLocked s.callbacks answer (dispatchSteps event)).2)
  replaces : ∀ t below, s.threads t = .app :: below → ∀ replacement answer,
    (dispatchSystem φ).step s (t, .setCallbacks replacement) = some { s with
      callbacks := ((setCallbacks replacement).log (lockedReply s.callbacks answer)).foldl
        Op.installs s.callbacks
      installed := s.installed ++ [replacement] }

theorem DispatchInvariant.unfinished {s : DispatchState φ} (h : DispatchInvariant s) (t : ℕ) :
    ∀ record ∈ records (s.threads t), Begun s.installed record := by
  intro record hrecord
  obtain ⟨frame, hframe, hfound⟩ := List.mem_filterMap.mp hrecord
  have hsound := h.frames t frame hframe
  cases frame with
  | app => cases hfound
  | running record' program =>
      obtain rfl := Option.some.inj hfound
      exact Progress.begun hsound
  | waiting record' next =>
      obtain rfl := Option.some.inj hfound
      exact Awaits.begun hsound

theorem DispatchInvariant.proceeds {s : DispatchState φ} (h : DispatchInvariant s) {t : ℕ}
    {record : DispatchRecord φ} {program : DispatchProgram φ Unit}
    {below : List (DispatchFrame φ)} (hs : s.threads t = .running record program :: below) :
    ∃ activity s', (dispatchSystem φ).step s (t, .proceed) = some s' ∧
      (record.activity = [] → activity = .snapshot s.installed) ∧
      ((∃ result, activity = .ended result) ∧ s'.threads t = below ∧
          s'.finished = s.finished ++ [record.add activity] ∨
        records (s'.threads t) = record.add activity :: records below ∧
          s'.finished = s.finished) := by
  have hprogress : Progress s.installed record program :=
    h.frames t (.running record program) (hs ▸ List.mem_cons_self)
  cases program with
  | done result =>
      refine ⟨.ended result, _, step_ended hs, fun hempty => ?_,
        Or.inl ⟨⟨result, rfl⟩, s.threads_withStack t below, rfl⟩⟩
      have hbegins := hprogress.begins hempty
      rw [dispatchAtomic_eq] at hbegins
      cases hbegins
  | call op next =>
      cases op with
      | snapshot =>
          refine ⟨.snapshot s.installed, _, step_snapshot hs, fun _ => rfl, Or.inr ⟨?_, rfl⟩⟩
          rw [s.threads_withStack]
          rfl
      | invoke functor event =>
          refine ⟨.invoked functor event, _, step_invoked hs, fun hempty => ?_,
            Or.inr ⟨?_, rfl⟩⟩
          · have hbegins := hprogress.begins hempty
            rw [dispatchAtomic_eq] at hbegins
            cases hbegins
          · rw [s.threads_withStack]
            rfl

theorem label_answering {t : ℕ} {answer : φ → WebhookEvent → Except Thrown Unit}
    {event : WebhookEvent} (functors : List φ) :
    ∀ label ∈ answering t answer event functors, label = (t, .proceed) ∨
      ∃ functor, label = (t, .finish (answer functor event)) := by
  induction functors with
  | nil => exact List.forall_mem_singleton.mpr (Or.inl rfl)
  | cons functor functors ih =>
      refine List.forall_mem_cons.mpr ⟨Or.inl rfl, List.forall_mem_cons.mpr
        ⟨Or.inr ⟨functor, rfl⟩, ?_⟩⟩
      cases answer functor event with
      | error e => exact List.forall_mem_singleton.mpr (Or.inl rfl)
      | ok u => exact ih

/-- A call with nothing in between, from its start to its end. -/
theorem exec_dispatch {s : DispatchState φ} {t : ℕ} {below : List (DispatchFrame φ)}
    (hs : s.threads t = .app :: below) (event : WebhookEvent)
    (answer : φ → WebhookEvent → Except Thrown Unit) :
    (dispatchSystem φ).exec ((t, .dispatch event) :: (t, .proceed) ::
        answering t answer event (chosen s.callbacks event)) s = some { s with
      finished := s.finished ++
        [⟨event, .snapshot s.installed :: courseOf answer event (chosen s.callbacks event)⟩] } := by
  rw [Transition.exec_cons (step_dispatch hs event), dispatchAtomic_eq,
    Transition.exec_cons (step_snapshot (s.threads_withStack t _)), s.withStack_withStack]
  refine (exec_callAll (s.threads_withStack t _)).trans ?_
  rw [s.withStack_withStack, DispatchState.withStack, Function.update_eq_self]
  rfl

theorem DispatchInvariant.goesOn {s : DispatchState φ} (h : DispatchInvariant s) : GoesOn s where
  proceeds _ _ _ _ hs := h.proceeds hs
  answers t record next below result hs := by
    refine ⟨_, step_answered hs result, ?_⟩
    rw [s.threads_withStack]
    rfl
  dispatches t below hs event answer := by
    have hview : viewLocked s.callbacks answer (dispatchSteps event) =
        viewAtomic s.callbacks answer (callAll event (chosen s.callbacks event)) := by
      rw [view_dispatchSteps, dispatchAtomic_eq]
      rfl
    obtain ⟨hinvoked, hended⟩ := viewAtomic_callAll answer event s.callbacks
      (chosen s.callbacks event)
    refine ⟨_, _, exec_dispatch hs event answer, ?_, ?_, ?_, ?_⟩
    · exact List.forall_mem_cons.mpr ⟨Or.inl rfl, label_answering _⟩
    · have hsplit : chosen s.callbacks event = [] ++ chosen s.callbacks event := rfl
      exact course_courseOf hsplit
    · rw [hview, hinvoked]
    · rw [hview, hended]
  replaces t below hs replacement answer := by
    rw [setCallbacks_installs]
    exact step_setCallbacks hs replacement

def constructed (callbacks : CallbackSet φ) : DispatchState φ :=
  ⟨callbacks, [callbacks], [], fun _ => [.app]⟩

theorem events_constructed (callbacks : CallbackSet φ) (threads : List ℕ) :
    (constructed callbacks).events threads = [] := by
  simp [DispatchState.events, constructed, records, DispatchFrame.record?]

/-- Every run of any threads, from the constructor on. -/
theorem dispatch_keepsGenerations (callbacks : CallbackSet φ)
    (labels : List (ℕ × DispatchAction φ)) (s : DispatchState φ)
    (h : (dispatchSystem φ).exec labels (constructed callbacks) = some s) :
    KeepsGenerations callbacks labels s ∧ GoesOn s := by
  have hinvariant : (dispatchSystem φ).Invariant (fun _ _ => True) DispatchInvariant :=
    { start := by
        rintro s ⟨callbacks, rfl⟩
        refine ⟨rfl, fun _ h => absurd h List.not_mem_nil, fun t frame hframe => ?_⟩
        rw [List.mem_singleton.mp hframe]
        trivial
      step := fun _ _ _ h _ hstep => dispatchStep_invariant h hstep }
  have hs := hinvariant.reachable (Transition.reachable_exec (.start ⟨callbacks, rfl⟩) h)
  obtain ⟨hinstalled, hevents⟩ := exec_history h
  refine ⟨⟨hinstalled, hs.current, fun threads hnodup hthreads => ?_, hs.finished, hs.unfinished⟩,
    hs.goesOn⟩
  have hcalls := hevents threads hnodup hthreads
  rwa [events_constructed, List.nil_append] at hcalls

def numbered (n : ℕ) : CallbackSet ℕ
  | .onEvent => some n
  | .onRoomStarted => some (n + 1)
  | _ => none

/-- A thread dispatches an event, and another thread replaces the callbacks between the snapshot
and the first callback, which replaces them again. -/
def sampleRun : List (ℕ × DispatchAction ℕ) :=
  [(0, .dispatch (namedEvent "room_started")), (0, .proceed), (1, .setCallbacks (numbered 20)),
    (0, .proceed), (0, .setCallbacks (numbered 30)), (0, .finish (.ok ())), (0, .proceed),
    (0, .finish (.ok ())), (0, .proceed)]

/-- The call ran the callbacks of the set that it was constructed with. -/
theorem dispatch_keepsGenerations_sample :
    ∃ s, (dispatchSystem ℕ).exec sampleRun (constructed (numbered 10)) = some s ∧
      s.installed = [numbered 10, numbered 20, numbered 30] ∧
      s.finished = [⟨namedEvent "room_started", [.snapshot [numbered 10],
        .invoked 10 (namedEvent "room_started"), .answered (.ok ()),
        .invoked 11 (namedEvent "room_started"), .answered (.ok ()), .ended (.ok ())]⟩] ∧
      KeepsGenerations (numbered 10) sampleRun s ∧ GoesOn s := by
  have hexec : ((dispatchSystem ℕ).exec sampleRun (constructed (numbered 10))).isSome = true := by
    decide +kernel
  obtain ⟨s, hs⟩ := Option.isSome_iff_exists.mp hexec
  refine ⟨s, hs, ?_, ?_, dispatch_keepsGenerations (numbered 10) sampleRun s hs⟩
  · obtain rfl := Option.some.inj hs
    rfl
  · obtain rfl := Option.some.inj hs
    rfl

end Runs
end LivekitServer.Webhook
