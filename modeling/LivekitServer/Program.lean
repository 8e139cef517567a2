import Mathlib.Data.List.Basic

/-!
# Programs that call out

A `Program` computes, and on its way calls code outside itself: a request goes out, and the
program goes on with the reply, which may be an exception. `run` follows one behaviour of the
outside and keeps a log of the requests. `faulty` lets an exception of its own strike before any
call and before the end, `resume` catches, `translate` replaces every call by a program of another
interface, `CallsAtMost` bounds the calls on every path, and `Yields` says what its values are.
`runFrom` follows an outside that has a state.
-/

namespace LivekitServer

inductive Program (ι : Type) (ρ : ι → Type) (ε α : Type)
  | done (result : Except ε α)
  | call (request : ι) (next : Except ε (ρ request) → Program ι ρ ε α)

namespace Program

variable {ι κ : Type} {ρ : ι → Type} {σ : κ → Type} {ε α β : Type}

/-- Go on with the result of a program, be it a value or an exception. -/
def resume (p : Program ι ρ ε α) (k : Except ε α → Program ι ρ ε β) : Program ι ρ ε β :=
  match p with
  | done result => k result
  | call request next => call request fun reply => (next reply).resume k

/-- Go on with the value of a program; an exception passes through. -/
def onValue (f : α → Program ι ρ ε β) : Except ε α → Program ι ρ ε β
  | .error e => done (.error e)
  | .ok a => f a

instance : Monad (Program ι ρ ε) where
  pure a := done (.ok a)
  bind p f := p.resume (onValue f)

instance : MonadLift (Except ε) (Program ι ρ ε) := ⟨done⟩

instance : MonadExceptOf ε (Program ι ρ ε) where
  throw e := done (.error e)
  tryCatch p handler := p.resume fun
    | .error e => handler e
    | .ok a => done (.ok a)

/-- One call, whose reply is the result. -/
def perform (request : ι) : Program ι ρ ε (ρ request) := call request done

section Run

variable (outside : ∀ request, Except ε (ρ request))

def run : Program ι ρ ε α → List ι × Except ε α
  | done result => ([], result)
  | call request next =>
    let rest := run (next (outside request))
    (request :: rest.1, rest.2)

def log (p : Program ι ρ ε α) : List ι := (run outside p).1

def result (p : Program ι ρ ε α) : Except ε α := (run outside p).2

@[simp] theorem run_done (r : Except ε α) : run outside (done (ρ := ρ) r) = ([], r) := rfl

@[simp] theorem run_perform (request : ι) :
    run outside (perform (ρ := ρ) request) = ([request], outside request) := rfl

theorem run_resume (p : Program ι ρ ε α) (k : Except ε α → Program ι ρ ε β) :
    run outside (p.resume k) =
      ((run outside p).1 ++ (run outside (k (run outside p).2)).1,
        (run outside (k (run outside p).2)).2) := by
  induction p with
  | done r => rfl
  | call request next ih => simp only [resume, run, ih, List.cons_append]

theorem run_bind (p : Program ι ρ ε α) (f : α → Program ι ρ ε β) :
    run outside (p >>= f) =
      ((run outside p).1 ++ (run outside (onValue f (run outside p).2)).1,
        (run outside (onValue f (run outside p).2)).2) := run_resume outside p (onValue f)

@[simp] theorem run_pure (a : α) : run outside (pure a : Program ι ρ ε α) = ([], .ok a) := rfl

@[simp] theorem run_throw (e : ε) :
    run outside (throw e : Program ι ρ ε α) = ([], .error e) := rfl

@[simp] theorem liftM_eq (r : Except ε α) : (liftM r : Program ι ρ ε α) = done r := rfl

theorem done_ok_bind (a : α) (f : α → Program ι ρ ε β) : (done (.ok a) >>= f) = f a := rfl

/-- A program followed by a computation. -/
theorem run_bind_compute {p : Program ι ρ ε α} {f : α → Program ι ρ ε β} {g : α → Except ε β}
    (hf : ∀ a, f a = done (g a)) :
    run outside (p >>= f) = (p.log outside, p.result outside >>= g) := by
  rw [run_bind, log, result]
  cases (run outside p).2 with
  | error e => exact Prod.ext (List.append_nil _) rfl
  | ok a => simp only [onValue, hf, run_done, List.append_nil]; rfl

theorem result_bind (p : Program ι ρ ε α) (f : α → Program ι ρ ε β) :
    (p >>= f).result outside = p.result outside >>= fun a => (f a).result outside := by
  rw [result, run_bind, result]
  cases (run outside p).2 <;> rfl

/-- A run depends on the replies to its own requests only. -/
theorem run_congr {outside' : ∀ request, Except ε (ρ request)} (p : Program ι ρ ε α)
    (h : ∀ request ∈ p.log outside, outside request = outside' request) :
    p.run outside = p.run outside' := by
  induction p with
  | done r => rfl
  | call request next ih =>
      have hreply := h request List.mem_cons_self
      have hrest := ih (outside request) fun r hr => h r (List.mem_cons_of_mem request hr)
      rw [run, run, hrest, hreply]

/-- A sequence returns when its first part does and its second part then does. -/
theorem run_bind_ok {p : Program ι ρ ε α} {f : α → Program ι ρ ε β} {log : List ι} {b : β} :
    run outside (p >>= f) = (log, .ok b) ↔ ∃ front a back, run outside p = (front, .ok a) ∧
      run outside (f a) = (back, .ok b) ∧ log = front ++ back := by
  rw [run_bind]
  rcases run outside p with ⟨front, e | a⟩
  · simp [onValue]
  · constructor
    · intro h
      rw [Prod.mk.injEq] at h
      exact ⟨front, a, (run outside (f a)).1, rfl, Prod.ext rfl h.2, h.1.symm⟩
    · rintro ⟨_, _, back, hp, hf, rfl⟩
      obtain ⟨rfl, rfl⟩ : front = _ ∧ a = _ := by simpa using hp
      simp [onValue, hf]

theorem run_done_bind_ok {r : Except ε α} {f : α → Program ι ρ ε β} {log : List ι} {b : β} :
    run outside (done r >>= f) = (log, .ok b) ↔
      ∃ a, r = .ok a ∧ run outside (f a) = (log, .ok b) := by
  rw [run_bind_ok]
  constructor
  · rintro ⟨front, a, back, hr, hf, rfl⟩
    obtain ⟨rfl, rfl⟩ : [] = front ∧ r = .ok a := by simpa using hr
    exact ⟨a, rfl, hf⟩
  · rintro ⟨a, rfl, hf⟩
    exact ⟨[], a, log, rfl, hf, rfl⟩

theorem run_perform_bind_ok {request : ι} {f : ρ request → Program ι ρ ε β} {log : List ι}
    {b : β} :
    run outside (perform request >>= f) = (log, .ok b) ↔ ∃ a rest,
      outside request = .ok a ∧ run outside (f a) = (rest, .ok b) ∧ log = request :: rest := by
  rw [run_bind_ok]
  constructor
  · rintro ⟨front, a, back, hr, hf, rfl⟩
    obtain ⟨rfl, hreply⟩ : [request] = front ∧ outside request = .ok a := by simpa using hr
    exact ⟨a, back, hreply, hf, rfl⟩
  · rintro ⟨a, rest, hr, hf, rfl⟩
    exact ⟨[request], a, rest, by rw [run_perform, hr], hf, rfl⟩

end Run
section Bound

variable {allowed : ι → Prop}

/-- On every path at most `n` calls, all of them allowed. -/
def CallsAtMost (allowed : ι → Prop) : ℕ → Program ι ρ ε α → Prop
  | _, done _ => True
  | 0, call _ _ => False
  | n + 1, call request next => allowed request ∧ ∀ reply, CallsAtMost allowed n (next reply)

theorem callsAtMost_done (n : ℕ) (r : Except ε α) :
    CallsAtMost allowed n (done (ρ := ρ) r) := by
  cases n <;> trivial

theorem CallsAtMost.mono {p : Program ι ρ ε α} {m n : ℕ} (hp : CallsAtMost allowed m p)
    (h : m ≤ n) : CallsAtMost allowed n p := by
  induction p generalizing m n with
  | done r => exact callsAtMost_done n r
  | call request next ih =>
      cases m with
      | zero => exact hp.elim
      | succ m =>
          obtain ⟨n, rfl⟩ := Nat.exists_eq_succ_of_ne_zero (by omega : n ≠ 0)
          exact ⟨hp.1, fun reply => ih reply (hp.2 reply) (by omega)⟩

theorem CallsAtMost.imp {permitted : ι → Prop} {p : Program ι ρ ε α} {n : ℕ}
    (hp : CallsAtMost allowed n p) (h : ∀ request, allowed request → permitted request) :
    CallsAtMost permitted n p := by
  induction p generalizing n with
  | done r => exact callsAtMost_done n r
  | call request next ih =>
      cases n with
      | zero => exact hp.elim
      | succ n => exact ⟨h request hp.1, fun reply => ih reply (hp.2 reply)⟩

theorem CallsAtMost.resume {p : Program ι ρ ε α} {k : Except ε α → Program ι ρ ε β} {m n : ℕ}
    (hp : CallsAtMost allowed m p) (hk : ∀ r, CallsAtMost allowed n (k r)) :
    CallsAtMost allowed (m + n) (p.resume k) := by
  induction p generalizing m with
  | done r => exact (hk r).mono (by omega)
  | call request next ih =>
      cases m with
      | zero => exact hp.elim
      | succ m =>
          rw [Nat.succ_add]
          exact ⟨hp.1, fun reply => ih reply (hp.2 reply)⟩

theorem CallsAtMost.bind {p : Program ι ρ ε α} {f : α → Program ι ρ ε β} {m n : ℕ}
    (hp : CallsAtMost allowed m p) (hf : ∀ a, CallsAtMost allowed n (f a)) :
    CallsAtMost allowed (m + n) (p >>= f) :=
  hp.resume fun
    | .error e => callsAtMost_done n (.error e)
    | .ok a => hf a

/-- A computation without calls, followed by a program that is bounded for its value. -/
theorem callsAtMost_bind_ok {r : Except ε α} {f : α → Program ι ρ ε β} {n : ℕ}
    (hf : ∀ a, r = .ok a → CallsAtMost allowed n (f a)) :
    CallsAtMost allowed n (done r >>= f) := by
  cases r with
  | error e => exact callsAtMost_done n (.error e)
  | ok a => exact hf a rfl

theorem callsAtMost_bind_done {r : Except ε α} {f : α → Program ι ρ ε β} {n : ℕ}
    (hf : ∀ a, CallsAtMost allowed n (f a)) : CallsAtMost allowed n (done r >>= f) :=
  callsAtMost_bind_ok fun a _ => hf a

theorem callsAtMost_perform {request : ι} (h : allowed request) :
    CallsAtMost allowed 1 (perform (ρ := ρ) (ε := ε) request) :=
  ⟨h, fun _ => trivial⟩

theorem CallsAtMost.log {p : Program ι ρ ε α} {n : ℕ} (hp : CallsAtMost allowed n p)
    (outside : ∀ request, Except ε (ρ request)) :
    (p.log outside).length ≤ n ∧ ∀ request ∈ p.log outside, allowed request := by
  induction p generalizing n with
  | done r => exact ⟨Nat.zero_le n, fun _ h => absurd h List.not_mem_nil⟩
  | call request next ih =>
      cases n with
      | zero => exact hp.elim
      | succ n =>
          obtain ⟨hlength, hall⟩ := ih (outside request) (hp.2 _)
          refine ⟨Nat.succ_le_succ hlength, fun r hr => ?_⟩
          rcases List.mem_cons.mp hr with rfl | hr
          · exact hp.1
          · exact hall r hr

theorem callsAtMost_zero {p : Program ι ρ ε α} (hp : CallsAtMost allowed 0 p) :
    ∃ r, p = done r := by
  cases p with
  | done r => exact ⟨r, rfl⟩
  | call request next => exact hp.elim

end Bound

section Faulty

/-- The program with faults: an exception may strike before each call and before the end. -/
def faulty : Program ι ρ ε α → (ℕ → Option ε) → Program ι ρ ε α
  | done r, faults =>
    match faults 0 with
    | some e => done (.error e)
    | none => done r
  | call request next, faults =>
    match faults 0 with
    | some e => done (.error e)
    | none => call request fun reply => (next reply).faulty fun n => faults (n + 1)

theorem CallsAtMost.faulty {allowed : ι → Prop} {p : Program ι ρ ε α} {n : ℕ}
    (hp : CallsAtMost allowed n p) (faults : ℕ → Option ε) :
    CallsAtMost allowed n (p.faulty faults) := by
  induction p generalizing n faults with
  | done r =>
      unfold Program.faulty
      split <;> exact callsAtMost_done n _
  | call request next ih =>
      unfold Program.faulty
      split
      · exact callsAtMost_done n _
      · cases n with
        | zero => exact hp.elim
        | succ n => exact ⟨hp.1, fun reply => ih reply (hp.2 reply) _⟩

end Faulty

theorem faulty_none (p : Program ι ρ ε α) : p.faulty (fun _ => none) = p := by
  induction p with
  | done r => rfl
  | call request next ih => exact congrArg (call request) (funext ih)

section Single

variable {P : ε → Prop}

/-- No call, or one call: an exception of the call passes through, and its reply is followed by a
computation whose own exceptions satisfy `P`. -/
inductive Single (P : ε → Prop) : Program ι ρ ε α → Prop
  | done (r : Except ε α) : Single P (done r)
  | call (request : ι) (g : ρ request → Except ε α) (hg : ∀ a e, g a = .error e → P e) :
      Single P (call request fun reply => Program.done (reply >>= g))

theorem single_perform (request : ι) : Single P (perform (ρ := ρ) (ε := ε) request) := by
  have hpure : perform (ρ := ρ) (ε := ε) request =
      call request fun reply => Program.done (reply >>= .ok) := by
    rw [perform]
    congr 1
    funext reply
    cases reply <;> rfl
  rw [hpure]
  exact Single.call request _ fun a e h => by cases h

theorem single_done_bind {r : Except ε α} {f : α → Program ι ρ ε β}
    (hf : ∀ a, Single P (f a)) : Single P (Program.done r >>= f) := by
  cases r with
  | error e => exact Single.done (.error e)
  | ok a => exact hf a

/-- What follows a single call may compute on. -/
theorem Single.bind {p : Program ι ρ ε α} (hp : Single P p) {f : α → Program ι ρ ε β}
    {g : α → Except ε β} (hf : ∀ a, f a = Program.done (g a))
    (hg : ∀ a e, g a = .error e → P e) : Single P (p >>= f) := by
  obtain rfl : f = fun a => Program.done (g a) := funext hf
  cases hp with
  | done r => exact single_done_bind fun a => Single.done (g a)
  | call request h hh =>
      have hnext : ((Program.call request fun reply => Program.done (reply >>= h)) >>=
            fun a => Program.done (g a)) =
          Program.call request fun reply => Program.done (reply >>= fun a => h a >>= g) := by
        change Program.call request _ = _
        congr 1
        funext reply
        cases reply with
        | error e => rfl
        | ok a =>
            change onValue (fun a => Program.done (g a)) (h a) = Program.done (h a >>= g)
            cases h a <;> rfl
      rw [hnext]
      refine Single.call request _ fun a e he => ?_
      cases ha : h a with
      | error e' =>
          rw [ha] at he
          obtain rfl : e' = e := Except.error.inj he
          exact hh a e' ha
      | ok b =>
          rw [ha] at he
          exact hg b e he

/-- What follows a single call may be any program without calls. -/
theorem Single.bind_silent {p : Program ι ρ ε α} (hp : Single (fun _ => True) p)
    {f : α → Program ι ρ ε β} (hf : ∀ a, CallsAtMost (fun _ => True) 0 (f a)) :
    Single (fun _ => True) (p >>= f) := by
  choose g hg using fun a => callsAtMost_zero (hf a)
  exact hp.bind hg fun _ _ _ => trivial

/-- The result of a run that calls. -/
theorem Single.result {p : Program ι ρ ε α} (hp : Single P p)
    {outside : ∀ request, Except ε (ρ request)} (h : p.log outside ≠ []) :
    ∃ request, p.log outside = [request] ∧
      (∀ e, outside request = .error e → p.result outside = .error e) ∧
      (∀ a e, outside request = .ok a → p.result outside = .error e → P e) := by
  cases hp with
  | done r => exact absurd rfl h
  | call request g hg =>
      refine ⟨request, rfl, fun e he => ?_, fun a e ha he => hg a e ?_⟩
      · change outside request >>= g = .error e
        rw [he]
        rfl
      · change outside request >>= g = .error e at he
        rw [ha] at he
        exact he

end Single

section Translate

variable (f : ∀ request, Program κ σ ε (ρ request))

/-- Every call of one interface carried out by a program of another. -/
def translate : Program ι ρ ε α → Program κ σ ε α
  | done r => done r
  | call request next => (f request).resume fun reply => (next reply).translate

theorem resume_resume {γ : Type} (p : Program ι ρ ε α) (k : Except ε α → Program ι ρ ε β)
    (k' : Except ε β → Program ι ρ ε γ) :
    (p.resume k).resume k' = p.resume fun r => (k r).resume k' := by
  induction p with
  | done r => rfl
  | call request next ih =>
      rw [resume, resume, resume]
      congr 1
      exact funext ih

theorem translate_resume (p : Program ι ρ ε α) (k : Except ε α → Program ι ρ ε β) :
    (p.resume k).translate f = (p.translate f).resume fun r => (k r).translate f := by
  induction p with
  | done r => rfl
  | call request next ih =>
      rw [resume, translate, translate, resume_resume]
      congr 1
      exact funext ih

theorem translate_bind_pure (p : Program ι ρ ε α) (g : α → β) :
    (p >>= fun a => pure (g a)).translate f = p.translate f >>= fun a => pure (g a) := by
  change (p.resume _).translate f = (p.translate f).resume _
  rw [translate_resume]
  congr 1
  funext r
  cases r <;> rfl

/-- A program whose calls are all known does not call. -/
theorem translate_done (p : Program ι ρ ε α) (g : ∀ request, Except ε (ρ request)) :
    p.translate (fun request => (done (g request) : Program κ σ ε (ρ request))) =
      done (p.result g) := by
  induction p with
  | done r => rfl
  | call request next ih => exact ih (g request)

/-- A translated program returns what the program returns over the translated calls. -/
theorem run_translate (outside : ∀ request, Except ε (σ request)) (p : Program ι ρ ε α) :
    run outside (p.translate f) =
      ((p.log fun request => (f request).result outside).flatMap fun request =>
          (f request).log outside,
        p.result fun request => (f request).result outside) := by
  induction p with
  | done r => rfl
  | call request next ih => simp only [translate, run_resume, ih, log, result, run, List.flatMap_cons]

theorem CallsAtMost.translate {allowed : ι → Prop} {permitted : κ → Prop} {p : Program ι ρ ε α}
    {n : ℕ} (hp : CallsAtMost allowed n p)
    (hf : ∀ request, allowed request → CallsAtMost permitted 1 (f request)) :
    CallsAtMost permitted n (p.translate f) := by
  induction p generalizing n with
  | done r => exact callsAtMost_done n r
  | call request next ih =>
      cases n with
      | zero => exact hp.elim
      | succ n =>
          rw [Nat.add_comm]
          exact (hf request hp.1).resume fun reply => ih reply (hp.2 reply)

end Translate

section Yield

variable {P : α → Prop} {Q : β → Prop}

/-- On every path, the value that is returned satisfies `P`. -/
def Yields (P : α → Prop) : Program ι ρ ε α → Prop
  | done (.ok a) => P a
  | done (.error _) => True
  | call _ next => ∀ reply, Yields P (next reply)

theorem yields_done {r : Except ε α} (h : ∀ a, r = .ok a → P a) :
    Yields P (done (ρ := ρ) r) := by
  cases r with
  | error e => trivial
  | ok a => exact h a rfl

theorem yields_true (p : Program ι ρ ε α) : Yields (fun _ => True) p := by
  induction p with
  | done r => exact yields_done fun _ _ => trivial
  | call request next ih => exact ih

theorem Yields.bind {p : Program ι ρ ε α} {f : α → Program ι ρ ε β} (hp : Yields P p)
    (hf : ∀ a, P a → Yields Q (f a)) : Yields Q (p >>= f) := by
  induction p with
  | done r =>
      cases r with
      | error e => trivial
      | ok a => exact hf a hp
  | call request next ih => exact fun reply => ih reply (hp reply)

theorem yields_bind {p : Program ι ρ ε α} {f : α → Program ι ρ ε β} (hf : ∀ a, Yields Q (f a)) :
    Yields Q (p >>= f) :=
  (yields_true p).bind fun a _ => hf a

theorem Yields.faulty {p : Program ι ρ ε α} (hp : Yields P p) (faults : ℕ → Option ε) :
    Yields P (p.faulty faults) := by
  induction p generalizing faults with
  | done r =>
      unfold Program.faulty
      split
      · trivial
      · exact hp
  | call request next ih =>
      unfold Program.faulty
      split
      · trivial
      · exact fun reply => ih reply (hp reply) _

theorem Yields.translate {p : Program ι ρ ε α} (hp : Yields P p)
    (f : ∀ request, Program κ σ ε (ρ request)) : Yields P (p.translate f) := by
  induction p with
  | done r =>
      cases r with
      | error e => trivial
      | ok a => exact hp
  | call request next ih =>
      have hnext (q : Program κ σ ε (ρ request)) :
          Yields P (q.resume fun reply => (next reply).translate f) := by
        induction q with
        | done r => exact ih r (hp r)
        | call request' next' ih' => exact ih'
      exact hnext (f request)

theorem Yields.result {p : Program ι ρ ε α} (hp : Yields P p)
    {outside : ∀ request, Except ε (ρ request)} {a : α} (h : p.result outside = .ok a) : P a := by
  induction p with
  | done r =>
      obtain rfl : r = .ok a := h
      exact hp
  | call request next ih => exact ih (outside request) (hp _) h

end Yield

section State

variable {θ : Type} (react : θ → (request : ι) → Except ε (ρ request) × θ)

/-- A run against an outside that has a state. -/
def runFrom : Program ι ρ ε α → θ → Except ε α × θ
  | done r, s => (r, s)
  | call request next, s => runFrom (next (react s request).1) (react s request).2

theorem runFrom_resume (p : Program ι ρ ε α) (k : Except ε α → Program ι ρ ε β) (s : θ) :
    runFrom react (p.resume k) s =
      runFrom react (k (runFrom react p s).1) (runFrom react p s).2 := by
  induction p generalizing s with
  | done r => rfl
  | call request next ih => exact ih _ _

theorem runFrom_bind (p : Program ι ρ ε α) (f : α → Program ι ρ ε β) (s : θ) :
    runFrom react (p >>= f) s =
      runFrom react (onValue f (runFrom react p s).1) (runFrom react p s).2 :=
  runFrom_resume react p (onValue f) s

theorem runFrom_perform (request : ι) (s : θ) :
    runFrom react (perform (ρ := ρ) request) s = react s request := rfl

/-- On every path, every call is an allowed one. -/
def Makes (allowed : ι → Prop) : Program ι ρ ε α → Prop
  | done _ => True
  | call request next => allowed request ∧ ∀ reply, Makes allowed (next reply)

/-- A program over an interface is a program over another one that implements it. -/
theorem runFrom_translate {allowed : ι → Prop} {f : ∀ request, Program κ σ ε (ρ request)}
    {react' : θ → (request : κ) → Except ε (σ request) × θ} {p : Program ι ρ ε α}
    (hp : p.Makes allowed)
    (hf : ∀ request, allowed request → ∀ s, runFrom react' (f request) s = react s request)
    (s : θ) : runFrom react' (p.translate f) s = runFrom react p s := by
  induction p generalizing s with
  | done r => rfl
  | call request next ih =>
      rw [translate, runFrom_resume, hf request hp.1, ih _ (hp.2 _)]
      rfl

end State

end Program
end LivekitServer
