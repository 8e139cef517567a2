import LivekitServer.Program
import LivekitServer.Transition
import Mathlib.Logic.Function.Basic

/-!
# Jobs around a mutex

Threads run jobs, one after the other and interleaved in any order. A job is a program whose calls
take the mutex, give it back, touch the state behind it or do neither. `Safe` is an argument about
one job by itself: it permits the state only while it holds the mutex, and gives it back with the
invariant restored; while it does not hold the mutex it knows of the state only that it has
developed. `sound_reachable` carries the argument over to all interleavings.
-/

namespace LivekitServer

inductive MutexUse
  | acquire
  | release
  | touch
  | elsewhere

/-- The state behind a mutex: how it changes with a call that permits it and the reply to that, and
which replies there can be. -/
structure Monitor (ι : Type) (ρ : ι → Type) (ε σ : Type) where
  use : ι → MutexUse
  effect : σ → (call : ι) → Except ε (ρ call) → σ
  possible : σ → (call : ι) → Except ε (ρ call) → Prop

namespace Monitor

/-- A call and its reply. -/
abbrev Event {ι : Type} (ρ : ι → Type) (ε : Type) := (call : ι) × Except ε (ρ call)

/-- What a job knows of the state: it holds the mutex and knows it, or has seen it some time ago. -/
inductive View (σ : Type)
  | held (s : σ)
  | seen (s : σ)

variable {ι : Type} {ρ : ι → Type} {ε σ : Type}

/-- What every job keeps: the invariant while the mutex is free, and a relation between a state and
all later ones. -/
structure Rules (monitor : Monitor ι ρ ε σ) where
  invariant : σ → Prop
  develops : σ → σ → Prop
  refl : ∀ s, develops s s
  trans : ∀ s s' s'', develops s s' → develops s' s'' → develops s s''

section Jobs

variable {monitor : Monitor ι ρ ε σ} (rules : Rules monitor) {α β : Type}

/-- A program is safe after its events so far: it makes only calls that `permits` allows with what
it knows then, and it ends as `ends` says. -/
def Safe (permits : List (Event ρ ε) → ι → View σ → Prop)
    (ends : List (Event ρ ε) → Except ε α → View σ → Prop) :
    Program ι ρ ε α → List (Event ρ ε) → View σ → Prop
  | .done r, history, view => ends history r view
  | .call call next, history, view => permits history call view ∧
    match monitor.use call, view with
    | .elsewhere, view => ∀ x reply, monitor.possible x call reply →
        Safe permits ends (next reply) (history ++ [⟨call, reply⟩]) view
    | .acquire, .seen s =>
      (∀ x e, monitor.possible x call (.error e) →
        Safe permits ends (next (.error e)) (history ++ [⟨call, .error e⟩]) (.seen s)) ∧
      ∀ s', rules.develops s s' → rules.invariant s' → ∀ a,
        Safe permits ends (next (.ok a)) (history ++ [⟨call, .ok a⟩]) (.held s')
    | .release, .held s => rules.invariant s ∧ ∀ reply, monitor.possible s call reply →
        Safe permits ends (next reply) (history ++ [⟨call, reply⟩]) (.seen s)
    | .touch, .held s => ∀ reply, monitor.possible s call reply →
        rules.develops s (monitor.effect s call reply) ∧
        Safe permits ends (next reply) (history ++ [⟨call, reply⟩])
          (.held (monitor.effect s call reply))
    | _, _ => False

variable {rules} {permits : List (Event ρ ε) → ι → View σ → Prop}

section Calls

variable {ends : List (Event ρ ε) → Except ε α → View σ → Prop} {call : ι}
  {next : Except ε (ρ call) → Program ι ρ ε α} {history : List (Event ρ ε)} {view : View σ} {s : σ}

theorem permits_of_safe (h : Safe rules permits ends (.call call next) history view) :
    permits history call view := by
  unfold Safe at h
  exact h.1

theorem safe_elsewhere (h : monitor.use call = .elsewhere) :
    Safe rules permits ends (.call call next) history view ↔ permits history call view ∧
      ∀ x reply, monitor.possible x call reply →
        Safe rules permits ends (next reply) (history ++ [⟨call, reply⟩]) view := by
  simp [Safe, h]

theorem safe_acquire (h : monitor.use call = .acquire) :
    Safe rules permits ends (.call call next) history (.seen s) ↔
      permits history call (.seen s) ∧
      (∀ x e, monitor.possible x call (.error e) →
        Safe rules permits ends (next (.error e)) (history ++ [⟨call, .error e⟩]) (.seen s)) ∧
      ∀ s', rules.develops s s' → rules.invariant s' → ∀ a,
        Safe rules permits ends (next (.ok a)) (history ++ [⟨call, .ok a⟩]) (.held s') := by
  simp [Safe, h]

theorem safe_release (h : monitor.use call = .release) :
    Safe rules permits ends (.call call next) history (.held s) ↔
      permits history call (.held s) ∧ rules.invariant s ∧ ∀ reply, monitor.possible s call reply →
        Safe rules permits ends (next reply) (history ++ [⟨call, reply⟩]) (.seen s) := by
  simp [Safe, h]

theorem safe_touch (h : monitor.use call = .touch) :
    Safe rules permits ends (.call call next) history (.held s) ↔
      permits history call (.held s) ∧ ∀ reply, monitor.possible s call reply →
        rules.develops s (monitor.effect s call reply) ∧
        Safe rules permits ends (next reply) (history ++ [⟨call, reply⟩])
          (.held (monitor.effect s call reply)) := by
  simp [Safe, h]

/-- A job that holds the mutex does not take it. -/
theorem not_safe_acquire (h : monitor.use call = .acquire) :
    ¬Safe rules permits ends (.call call next) history (.held s) := by
  simp [Safe, h]

/-- A job gives back and permits only what it holds. -/
theorem held_of_safe (h : monitor.use call = .release ∨ monitor.use call = .touch) :
    ¬Safe rules permits ends (.call call next) history (.seen s) := by
  rcases h with h | h <;> simp [Safe, h]

variable {β : Type} {ends' : List (Event ρ ε) → Except ε β → View σ → Prop}
  {k : Except ε (ρ call) → Program ι ρ ε β}

/-- A call of its own, and what follows its reply. -/
theorem safe_elsewhere_resume (h : monitor.use call = .elsewhere)
    (hpermit : permits history call view)
    (hk : ∀ x reply, monitor.possible x call reply →
      Safe rules permits ends' (k reply) (history ++ [⟨call, reply⟩]) view) :
    Safe rules permits ends' ((Program.perform call).resume k) history view :=
  (safe_elsewhere h).mpr ⟨hpermit, hk⟩

theorem safe_touch_resume (h : monitor.use call = .touch) (hpermit : permits history call (.held s))
    (hk : ∀ reply, monitor.possible s call reply →
      rules.develops s (monitor.effect s call reply) ∧
      Safe rules permits ends' (k reply) (history ++ [⟨call, reply⟩])
        (.held (monitor.effect s call reply))) :
    Safe rules permits ends' ((Program.perform call).resume k) history (.held s) :=
  (safe_touch h).mpr ⟨hpermit, hk⟩

theorem safe_acquire_resume (h : monitor.use call = .acquire)
    (hpermit : permits history call (.seen s))
    (herror : ∀ x e, monitor.possible x call (.error e) →
      Safe rules permits ends' (k (.error e)) (history ++ [⟨call, .error e⟩]) (.seen s))
    (hok : ∀ s', rules.develops s s' → rules.invariant s' → ∀ a,
      Safe rules permits ends' (k (.ok a)) (history ++ [⟨call, .ok a⟩]) (.held s')) :
    Safe rules permits ends' ((Program.perform call).resume k) history (.seen s) :=
  (safe_acquire h).mpr ⟨hpermit, herror, hok⟩

theorem safe_release_resume (h : monitor.use call = .release)
    (hpermit : permits history call (.held s)) (hinv : rules.invariant s)
    (hk : ∀ reply, monitor.possible s call reply →
      Safe rules permits ends' (k reply) (history ++ [⟨call, reply⟩]) (.seen s)) :
    Safe rules permits ends' ((Program.perform call).resume k) history (.held s) :=
  (safe_release h).mpr ⟨hpermit, hinv, hk⟩

end Calls

/-- A program and what follows it. -/
theorem Safe.resume {ends : List (Event ρ ε) → Except ε α → View σ → Prop}
    {ends' : List (Event ρ ε) → Except ε β → View σ → Prop} {p : Program ι ρ ε α}
    {k : Except ε α → Program ι ρ ε β} {history : List (Event ρ ε)} {view : View σ}
    (hp : Safe rules permits ends p history view)
    (hk : ∀ history r view, ends history r view →
      Safe rules permits ends' (k r) history view) :
    Safe rules permits ends' (p.resume k) history view := by
  induction p generalizing history view with
  | done r => exact hk history r view hp
  | call call next ih =>
      rw [Program.resume]
      cases huse : monitor.use call with
      | elsewhere =>
          rw [safe_elsewhere huse] at hp ⊢
          exact ⟨hp.1, fun x reply hreply => ih reply (hp.2 x reply hreply)⟩
      | acquire =>
          cases view with
          | held s => exact absurd hp (not_safe_acquire huse)
          | seen s =>
              rw [safe_acquire huse] at hp ⊢
              exact ⟨hp.1, fun x e he => ih _ (hp.2.1 x e he),
                fun s' hs' hinv a => ih _ (hp.2.2 s' hs' hinv a)⟩
      | release =>
          cases view with
          | seen s => exact absurd hp (held_of_safe (Or.inl huse))
          | held s =>
              rw [safe_release huse] at hp ⊢
              exact ⟨hp.1, hp.2.1, fun reply hreply => ih reply (hp.2.2 reply hreply)⟩
      | touch =>
          cases view with
          | seen s => exact absurd hp (held_of_safe (Or.inr huse))
          | held s =>
              rw [safe_touch huse] at hp ⊢
              refine ⟨hp.1, fun reply hreply => ?_⟩
              obtain ⟨hdevelops, hnext⟩ := hp.2 reply hreply
              exact ⟨hdevelops, ih reply hnext⟩

theorem Safe.mono {ends ends' : List (Event ρ ε) → Except ε α → View σ → Prop}
    {p : Program ι ρ ε α} {history : List (Event ρ ε)} {view : View σ}
    (hp : Safe rules permits ends p history view)
    (h : ∀ history r view, ends history r view → ends' history r view) :
    Safe rules permits ends' p history view := by
  have hdone (q : Program ι ρ ε α) : q.resume .done = q := by
    induction q with
    | done r => rfl
    | call call next ih => exact congrArg (Program.call call) (funext ih)
  rw [← hdone p]
  exact hp.resume h

theorem Safe.bind {ends : List (Event ρ ε) → Except ε α → View σ → Prop}
    {ends' : List (Event ρ ε) → Except ε β → View σ → Prop} {p : Program ι ρ ε α}
    {f : α → Program ι ρ ε β} {history : List (Event ρ ε)} {view : View σ}
    (hp : Safe rules permits ends p history view)
    (herror : ∀ history e view, ends history (.error e) view → ends' history (.error e) view)
    (hok : ∀ history a view, ends history (.ok a) view →
      Safe rules permits ends' (f a) history view) :
    Safe rules permits ends' (p >>= f) history view := by
  apply hp.resume
  intro history r view h
  cases r with
  | error e => exact herror history e view h
  | ok a => exact hok history a view h

end Jobs

section Threads

variable (monitor : Monitor ι ρ ε σ) {τ κ α : Type} [DecidableEq τ]

/-- The job of a thread, with what it has done and what is left of it. -/
structure Running (κ : Type) (ρ : ι → Type) (ε α : Type) where
  job : κ
  history : List (Event ρ ε)
  rest : Program ι ρ ε α

/-- A job that has ended. -/
structure Finished (κ : Type) (ρ : ι → Type) (ε α : Type) where
  job : κ
  history : List (Event ρ ε)
  result : Except ε α

structure State (τ κ : Type) (ρ : ι → Type) (ε α σ : Type) where
  shared : σ
  owner : Option τ
  running : τ → Option (Running κ ρ ε α)
  finished : List (Finished κ ρ ε α)

/-- A thread begins a job, or goes on with what the outside replies. -/
inductive Label (τ κ : Type) (ρ : ι → Type) (ε : Type)
  | start (thread : τ) (job : κ)
  | advance (thread : τ) (outside : ∀ call : ι, Except ε (ρ call))

/-- The state after a reply; a call that takes the mutex waits until it is free. -/
def moved (s : State τ κ ρ ε α σ) (thread : τ) (running : Running κ ρ ε α) (call : ι)
    (reply : Except ε (ρ call)) : Option (State τ κ ρ ε α σ) :=
  let s' := { s with running := Function.update s.running thread (some running) }
  match monitor.use call with
  | .acquire =>
    if s.owner.isSome then none
    else some { s' with owner := if reply.isOk then some thread else none }
  | .release => some { s' with owner := none }
  | .touch => some { s' with shared := monitor.effect s.shared call reply }
  | .elsewhere => some s'

variable (body : κ → Program ι ρ ε α)

def step (s : State τ κ ρ ε α σ) : Label τ κ ρ ε → Option (State τ κ ρ ε α σ)
  | .start thread job =>
    match s.running thread with
    | some _ => none
    | none =>
      some { s with running := Function.update s.running thread (some ⟨job, [], body job⟩) }
  | .advance thread outside =>
    match s.running thread with
    | none => none
    | some ⟨job, history, .done r⟩ =>
      some { s with
        running := Function.update s.running thread none
        finished := s.finished ++ [⟨job, history, r⟩] }
    | some ⟨job, history, .call call next⟩ =>
      moved monitor s thread
        ⟨job, history ++ [⟨call, outside call⟩], next (outside call)⟩ call (outside call)

/-- No job has begun. -/
def starts (initial : σ → Prop) (s : State τ κ ρ ε α σ) : Prop :=
  initial s.shared ∧ s.owner = none ∧ (∀ thread, s.running thread = none) ∧ s.finished = []

def threads (initial : σ → Prop) : Transition (State τ κ ρ ε α σ) (Label τ κ ρ ε) :=
  ⟨starts initial, step monitor body⟩

/-- The outside replies as it can. -/
def Replies (s : State τ κ ρ ε α σ) : Label τ κ ρ ε → Prop
  | .start _ _ => True
  | .advance thread outside => ∀ running call next, s.running thread = some running →
      running.rest = .call call next → monitor.possible s.shared call (outside call)

end Threads

section Soundness

variable {monitor : Monitor ι ρ ε σ} {rules : Rules monitor} {τ κ α : Type} [DecidableEq τ]
  {permits : κ → List (Event ρ ε) → ι → View σ → Prop}
  {ends : κ → List (Event ρ ε) → Except ε α → σ → Prop} {s s' : State τ κ ρ ε α σ} {thread : τ}

/-- A job ends without the mutex. -/
def atRest (ends : List (Event ρ ε) → Except ε α → σ → Prop) (history : List (Event ρ ε))
    (r : Except ε α) : View σ → Prop
  | .seen s => ends history r s
  | .held _ => False

variable (rules) in
/-- The view of a thread is right. -/
def Knows (s : State τ κ ρ ε α σ) (thread : τ) : View σ → Prop
  | .held x => s.owner = some thread ∧ x = s.shared
  | .seen x => s.owner ≠ some thread ∧ rules.develops x s.shared

variable (rules permits ends) in
/-- The argument about a job, wherever it has got to. -/
def SafeRunning (running : Running κ ρ ε α) (view : View σ) : Prop :=
  Safe rules (permits running.job) (atRest (ends running.job)) running.rest running.history view

variable (rules permits ends) in
structure Sound (s : State τ κ ρ ε α σ) : Prop where
  resting : s.owner = none → rules.invariant s.shared
  owned : ∀ thread, s.owner = some thread → (s.running thread).isSome = true
  knows : ∀ thread running, s.running thread = some running →
    ∃ view, Knows rules s thread view ∧ SafeRunning rules permits ends running view
  finished : ∀ ended ∈ s.finished, ∃ seen, rules.develops seen s.shared ∧
    ends ended.job ended.history ended.result seen

/-- A thread has moved: it keeps the argument, and it has not disturbed the others. -/
theorem Sound.moves (hs : Sound rules permits ends s) {running : Running κ ρ ε α}
    (hrunning : s'.running = Function.update s.running thread (some running))
    (hfinished : s'.finished = s.finished) (hdevelops : rules.develops s.shared s'.shared)
    (hrest : s'.owner = none → rules.invariant s'.shared)
    (howner : ∀ other, other ≠ thread → (s'.owner = some other ↔ s.owner = some other))
    (hothers : ∀ other, other ≠ thread → s.owner = some other → s'.shared = s.shared)
    (hview : ∃ view, Knows rules s' thread view ∧ SafeRunning rules permits ends running view) :
    Sound rules permits ends s' := by
  refine ⟨hrest, fun other hother => ?_, fun other running' hother => ?_, fun ended hended => ?_⟩
  · rw [hrunning]
    by_cases heq : other = thread
    · rw [heq, Function.update_self]
      rfl
    · rw [Function.update_of_ne heq]
      exact hs.owned other ((howner other heq).mp hother)
  · rw [hrunning] at hother
    by_cases heq : other = thread
    · rw [heq, Function.update_self] at hother
      obtain rfl := Option.some.inj hother
      rw [heq]
      exact hview
    · rw [Function.update_of_ne heq] at hother
      obtain ⟨view, hknows, hsafe⟩ := hs.knows other running' hother
      refine ⟨view, ?_, hsafe⟩
      cases view with
      | held x =>
          obtain ⟨hholds, rfl⟩ := hknows
          exact ⟨(howner other heq).mpr hholds, (hothers other heq hholds).symm⟩
      | seen x =>
          exact ⟨fun h => hknows.1 ((howner other heq).mp h),
            rules.trans _ _ _ hknows.2 hdevelops⟩
  · rw [hfinished] at hended
    obtain ⟨seen, hseen, hends⟩ := hs.finished ended hended
    exact ⟨seen, rules.trans _ _ _ hseen hdevelops, hends⟩

/-- A job begins. -/
theorem Sound.start (hs : Sound rules permits ends s) (hidle : s.running thread = none)
    {running : Running κ ρ ε α}
    (hsafe : SafeRunning rules permits ends running (.seen s.shared)) :
    Sound rules permits ends
      { s with running := Function.update s.running thread (some running) } := by
  have howner : s.owner ≠ some thread := by
    intro h
    have hsome := hs.owned thread h
    rw [hidle] at hsome
    cases hsome
  exact hs.moves rfl rfl (rules.refl _) hs.resting (fun _ _ => Iff.rfl) (fun _ _ _ => rfl)
    ⟨.seen s.shared, ⟨howner, rules.refl _⟩, hsafe⟩

/-- A job ends. -/
theorem Sound.finish (hs : Sound rules permits ends s) {job : κ} {history : List (Event ρ ε)}
    {r : Except ε α} (hrunning : s.running thread = some ⟨job, history, .done r⟩) :
    Sound rules permits ends { s with
      running := Function.update s.running thread none
      finished := s.finished ++ [⟨job, history, r⟩] } := by
  obtain ⟨view, hknows, hsafe⟩ := hs.knows thread _ hrunning
  cases view with
  | held x => exact hsafe.elim
  | seen x =>
      refine ⟨hs.resting, fun other hother => ?_, fun other running hother => ?_,
        fun ended hended => ?_⟩
      · have hne : other ≠ thread := by
          rintro rfl
          exact hknows.1 hother
        dsimp only
        rw [Function.update_of_ne hne]
        exact hs.owned other hother
      · dsimp only at hother
        by_cases heq : other = thread
        · rw [heq, Function.update_self] at hother
          cases hother
        · rw [Function.update_of_ne heq] at hother
          exact hs.knows other running hother
      · rcases List.mem_append.mp hended with hended | hended
        · exact hs.finished ended hended
        · obtain rfl := List.mem_singleton.mp hended
          exact ⟨x, hknows.2, hsafe⟩

/-- A call is replied to. -/
theorem Sound.reply (hs : Sound rules permits ends s) {job : κ} {history : List (Event ρ ε)}
    {call : ι} {next : Except ε (ρ call) → Program ι ρ ε α}
    (hrunning : s.running thread = some ⟨job, history, .call call next⟩) {reply : Except ε (ρ call)}
    (hreply : monitor.possible s.shared call reply)
    (h : moved monitor s thread ⟨job, history ++ [⟨call, reply⟩], next reply⟩ call reply = some s') :
    Sound rules permits ends s' := by
  obtain ⟨view, hknows, hsafe⟩ := hs.knows thread _ hrunning
  rw [SafeRunning] at hsafe
  rw [moved] at h
  cases huse : monitor.use call with
  | elsewhere =>
      rw [huse] at h
      obtain rfl := Option.some.inj h
      exact hs.moves rfl rfl (rules.refl _) hs.resting (fun _ _ => Iff.rfl) (fun _ _ _ => rfl)
        ⟨view, hknows, ((safe_elsewhere huse).mp hsafe).2 s.shared reply hreply⟩
  | acquire =>
      rw [huse] at h
      cases howner : s.owner with
      | some other =>
          rw [howner] at h
          cases h
      | none =>
          rw [howner] at h
          obtain rfl := Option.some.inj h
          cases view with
          | held x => exact absurd hsafe (not_safe_acquire huse)
          | seen x =>
              obtain ⟨-, herror, hok⟩ := (safe_acquire huse).mp hsafe
              have hinv := hs.resting howner
              refine hs.moves rfl rfl (rules.refl _) (fun _ => hinv) (fun other hne => ?_)
                (fun _ _ _ => rfl) ?_
              · rw [howner]
                cases reply with
                | error e => exact Iff.rfl
                | ok a =>
                    exact ⟨fun h => absurd (Option.some.inj h).symm hne, fun h => by cases h⟩
              · cases reply with
                | error e => exact ⟨.seen x, ⟨nofun, hknows.2⟩, herror s.shared e hreply⟩
                | ok a => exact ⟨.held s.shared, ⟨rfl, rfl⟩, hok _ hknows.2 hinv a⟩
  | release =>
      rw [huse] at h
      obtain rfl := Option.some.inj h
      cases view with
      | seen x => exact absurd hsafe (held_of_safe (Or.inl huse))
      | held x =>
          obtain ⟨howner, rfl⟩ := hknows
          obtain ⟨-, hinv, hnext⟩ := (safe_release huse).mp hsafe
          refine hs.moves rfl rfl (rules.refl _) (fun _ => hinv) (fun other hne => ?_)
            (fun _ _ _ => rfl) ?_
          · rw [howner]
            exact ⟨nofun, fun h => absurd (Option.some.inj h).symm hne⟩
          · exact ⟨.seen s.shared, ⟨nofun, rules.refl _⟩, hnext reply hreply⟩
  | touch =>
      rw [huse] at h
      obtain rfl := Option.some.inj h
      cases view with
      | seen x => exact absurd hsafe (held_of_safe (Or.inr huse))
      | held x =>
          obtain ⟨howner, rfl⟩ := hknows
          obtain ⟨hdevelops, hnext⟩ := ((safe_touch huse).mp hsafe).2 reply hreply
          refine hs.moves rfl rfl hdevelops (fun hnone => ?_) (fun _ _ => Iff.rfl)
            (fun other hne hother => ?_)
            ⟨.held (monitor.effect s.shared call reply), ⟨howner, rfl⟩, hnext⟩
          · rw [howner] at hnone
            cases hnone
          · rw [howner] at hother
            exact absurd (Option.some.inj hother).symm hne

variable {body : κ → Program ι ρ ε α} {initial : σ → Prop}

/-- The argument about every job holds in every interleaving. -/
theorem sound_reachable (hinitial : ∀ x, initial x → rules.invariant x)
    (hbody : ∀ job x, SafeRunning rules permits ends ⟨job, [], body job⟩ (.seen x))
    (hs : (threads (τ := τ) monitor body initial).Reachable (Replies monitor) s) :
    Sound rules permits ends s := by
  apply Transition.Invariant.reachable (P := Sound rules permits ends) _ hs
  constructor
  · rintro x ⟨hx, howner, hrunning, hfinished⟩
    refine ⟨fun _ => hinitial _ hx, fun thread h => ?_, fun thread running h => ?_,
      fun ended h => ?_⟩
    · rw [howner] at h
      cases h
    · rw [hrunning] at h
      cases h
    · rw [hfinished] at h
      cases h
  · intro x label x' hsound hreplies hstep
    cases label with
    | start thread job =>
        cases hidle : x.running thread with
        | some running =>
            simp only [threads, step, hidle] at hstep
            cases hstep
        | none =>
            simp only [threads, step, hidle] at hstep
            obtain rfl := Option.some.inj hstep
            exact hsound.start hidle (hbody job x.shared)
    | advance thread outside =>
        cases hrunning : x.running thread with
        | none =>
            simp only [threads, step, hrunning] at hstep
            cases hstep
        | some running =>
            obtain ⟨job, history, rest⟩ := running
            cases rest with
            | done r =>
                simp only [threads, step, hrunning] at hstep
                obtain rfl := Option.some.inj hstep
                exact hsound.finish hrunning
            | call call next =>
                simp only [threads, step, hrunning] at hstep
                exact hsound.reply hrunning (hreplies _ call next hrunning rfl) hstep

omit [DecidableEq τ] in
/-- A thread makes only calls that the argument about its job permits, with a right view. -/
theorem Sound.permitted (hs : Sound rules permits ends s) {job : κ} {history : List (Event ρ ε)}
    {call : ι} {next : Except ε (ρ call) → Program ι ρ ε α}
    (hrunning : s.running thread = some ⟨job, history, .call call next⟩) :
    ∃ view, Knows rules s thread view ∧ permits job history call view := by
  obtain ⟨view, hknows, hsafe⟩ := hs.knows thread _ hrunning
  exact ⟨view, hknows, permits_of_safe hsafe⟩

omit [DecidableEq τ] in
/-- A thread that is about to touch the state holds the mutex. -/
theorem Sound.touch (hs : Sound rules permits ends s) {job : κ} {history : List (Event ρ ε)}
    {call : ι} {next : Except ε (ρ call) → Program ι ρ ε α}
    (hrunning : s.running thread = some ⟨job, history, .call call next⟩)
    (huse : monitor.use call = .touch) :
    s.owner = some thread ∧ permits job history call (.held s.shared) := by
  obtain ⟨view, hknows, hsafe⟩ := hs.knows thread _ hrunning
  cases view with
  | seen x => exact absurd hsafe (held_of_safe (Or.inr huse))
  | held x =>
      obtain ⟨howner, rfl⟩ := hknows
      exact ⟨howner, permits_of_safe hsafe⟩

/-- A thread can go on while no other one holds the mutex, whatever the outside replies. -/
theorem Sound.goes (hs : Sound rules permits ends s) {running : Running κ ρ ε α}
    (hrunning : s.running thread = some running)
    (hfree : s.owner = none ∨ s.owner = some thread) (body : κ → Program ι ρ ε α)
    (outside : ∀ call : ι, Except ε (ρ call)) :
    (step monitor body s (.advance thread outside)).isSome = true := by
  obtain ⟨job, history, rest⟩ := running
  cases rest with
  | done r => simp [step, hrunning]
  | call call next =>
      simp only [step, hrunning, moved]
      cases huse : monitor.use call with
      | elsewhere => rfl
      | release => rfl
      | touch => rfl
      | acquire =>
          rcases hfree with hfree | hfree
          · rw [hfree]
            rfl
          · obtain ⟨view, hknows, hsafe⟩ := hs.knows thread _ hrunning
            rw [SafeRunning] at hsafe
            cases view with
            | held x => exact absurd hsafe (not_safe_acquire huse)
            | seen x => exact absurd hfree hknows.1

/-- The holder of the mutex has not finished, and can go on. -/
theorem Sound.holder_goes (hs : Sound rules permits ends s) (howner : s.owner = some thread)
    (body : κ → Program ι ρ ε α) (outside : ∀ call : ι, Except ε (ρ call)) :
    (step monitor body s (.advance thread outside)).isSome = true := by
  obtain ⟨running, hrunning⟩ := Option.isSome_iff_exists.mp (hs.owned thread howner)
  exact hs.goes hrunning (Or.inr howner) body outside

variable (monitor body) in
/-- A schedule on which the outside replies as the state of the moment has it. -/
def drive (outside : σ → ∀ call : ι, Except ε (ρ call)) :
    List (τ × Option κ) → State τ κ ρ ε α σ → Option (State τ κ ρ ε α σ)
  | [], s => some s
  | (thread, some job) :: rest, s =>
    (step monitor body s (.start thread job)).bind (drive outside rest)
  | (thread, none) :: rest, s =>
    (step monitor body s (.advance thread (outside s.shared))).bind (drive outside rest)

theorem reachable_drive {outside : σ → ∀ call : ι, Except ε (ρ call)}
    (houtside : ∀ x call, monitor.possible x call (outside x call)) {schedule : List (τ × Option κ)}
    (hs : (threads (τ := τ) monitor body initial).Reachable (Replies monitor) s)
    (h : drive monitor body outside schedule s = some s') :
    (threads (τ := τ) monitor body initial).Reachable (Replies monitor) s' := by
  induction schedule generalizing s with
  | nil =>
      obtain rfl := Option.some.inj h
      exact hs
  | cons entry rest ih =>
      obtain ⟨thread, job⟩ := entry
      cases job with
      | some job =>
          obtain ⟨middle, hstep, hrest⟩ := Option.bind_eq_some_iff.mp h
          exact ih (hs.step (.start thread job) trivial hstep) hrest
      | none =>
          obtain ⟨middle, hstep, hrest⟩ := Option.bind_eq_some_iff.mp h
          have hreplies : Replies monitor s (.advance thread (outside s.shared)) :=
            fun _ call _ _ _ => houtside s.shared call
          exact ih (hs.step _ hreplies hstep) hrest

end Soundness

end Monitor
end LivekitServer
