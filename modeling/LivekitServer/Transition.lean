import Mathlib.Data.Option.Basic

/-!
# Transition systems

A system has start states and a partial step for every label. `Reachable` follows the steps that
meet a condition on the state before them and their label, so the states of all runs are
`Reachable fun _ _ => True`. An invariant holds at the start and is kept by every step that meets
the condition.
-/

namespace LivekitServer

structure Transition (σ ι : Type) where
  start : σ → Prop
  step : σ → ι → Option σ

namespace Transition

variable {σ ι : Type} (system : Transition σ ι)

/-- The states that are reached by steps of which every one meets the condition. -/
inductive Reachable (meets : σ → ι → Prop) : σ → Prop
  | start {s : σ} : system.start s → Reachable meets s
  | step {s s' : σ} (label : ι) : Reachable meets s → meets s label →
      system.step s label = some s' → Reachable meets s'

structure Invariant (meets : σ → ι → Prop) (P : σ → Prop) : Prop where
  start : ∀ s, system.start s → P s
  step : ∀ s label s', P s → meets s label → system.step s label = some s' → P s'

variable {system} {meets : σ → ι → Prop} {P : σ → Prop}

theorem Invariant.reachable (h : system.Invariant meets P) {s : σ}
    (hs : system.Reachable meets s) : P s := by
  induction hs with
  | start h0 => exact h.start _ h0
  | step label _ hmeets hstep ih => exact h.step _ label _ ih hmeets hstep

variable (system)

/-- The state after a list of labels, when every step is possible. -/
def exec : List ι → σ → Option σ
  | [], s => some s
  | label :: labels, s => (system.step s label).bind (exec labels)

variable {system}

theorem exec_cons {label : ι} {s s' : σ} (h : system.step s label = some s') (labels : List ι) :
    system.exec (label :: labels) s = system.exec labels s' := by
  rw [exec, h, Option.bind_some]

theorem reachable_exec {labels : List ι} {s s' : σ}
    (hs : system.Reachable (fun _ _ => True) s) (h : system.exec labels s = some s') :
    system.Reachable (fun _ _ => True) s' := by
  induction labels generalizing s with
  | nil =>
      obtain rfl := Option.some.inj h
      exact hs
  | cons label labels ih =>
      obtain ⟨middle, hstep, hrest⟩ := Option.bind_eq_some_iff.mp h
      exact ih (hs.step label trivial hstep) hrest

variable (system) in
/-- The state after a list of labels, when every step is possible and meets the condition. -/
def execMeeting (meets : σ → ι → Prop) [∀ s label, Decidable (meets s label)] :
    List ι → σ → Option σ
  | [], s => some s
  | label :: labels, s =>
    if meets s label then (system.step s label).bind (execMeeting meets labels) else none

theorem reachable_execMeeting [∀ s label, Decidable (meets s label)] {labels : List ι} {s s' : σ}
    (hs : system.Reachable meets s) (h : system.execMeeting meets labels s = some s') :
    system.Reachable meets s' := by
  induction labels generalizing s with
  | nil =>
      obtain rfl := Option.some.inj h
      exact hs
  | cons label labels ih =>
      rw [execMeeting] at h
      by_cases hmeets : meets s label
      · rw [if_pos hmeets] at h
        obtain ⟨middle, hstep, hrest⟩ := Option.bind_eq_some_iff.mp h
        exact ih (hs.step label hmeets hstep) hrest
      · rw [if_neg hmeets] at h
        cases h

section Simulation

variable {σ' : Type} {system' : Transition σ' ι} {R : σ → σ' → Prop}

/-- Two systems that make the same steps from related states make the same runs. -/
theorem exec_rel (hstep : ∀ s s' label, R s s' →
      Option.Rel R (system.step s label) (system'.step s' label))
    (labels : List ι) {s : σ} {s' : σ'} (h : R s s') :
    Option.Rel R (system.exec labels s) (system'.exec labels s') := by
  induction labels generalizing s s' with
  | nil => exact .some h
  | cons label labels ih =>
      rw [exec, exec]
      have hrel := hstep s s' label h
      revert hrel
      generalize system.step s label = next
      generalize system'.step s' label = next'
      intro hrel
      cases hrel with
      | some hnext => exact ih hnext
      | none => exact .none

end Simulation

end Transition
end LivekitServer
