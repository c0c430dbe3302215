import Mathlib.Data.List.Basic

/-!
# Pipelines

A value is passed through layers, each of which passes on a value or ends with an answer.

What is read of a value behind the layers was put there by the last one that writes it
(`eq_or_lastWrite`).
-/

namespace Pipeline

variable {Layer State Answer Value : Type*}

/-- Pass a state through the layers, in their order. -/
def run (call : Layer → State → Except Answer State) : List Layer → State → Except Answer State
  | [], state => .ok state
  | layer :: rest, state => (call layer state).bind fun next => run call rest next

variable {call : Layer → State → Except Answer State} {layers : List Layer} {state final : State}

@[simp] theorem run_nil (state : State) : run call [] state = .ok state := rfl

theorem run_cons_eq_ok {layer : Layer} :
    run call (layer :: layers) state = .ok final ↔
      ∃ next, call layer state = .ok next ∧ run call layers next = .ok final := by
  rw [run]
  cases call layer state with
  | error answer => simp [Except.bind]
  | ok next => simp [Except.bind]

theorem run_append_eq_ok {first second : List Layer} :
    run call (first ++ second) state = .ok final ↔
      ∃ middle, run call first state = .ok middle ∧ run call second middle = .ok final := by
  induction first generalizing state with
  | nil => simp
  | cons layer rest ih =>
      simp only [List.cons_append, run_cons_eq_ok, ih]
      constructor
      · rintro ⟨next, hnext, middle, hrest, hsecond⟩
        exact ⟨middle, ⟨next, hnext, hrest⟩, hsecond⟩
      · rintro ⟨middle, ⟨next, hnext, hrest⟩, hsecond⟩
        exact ⟨next, hnext, middle, hrest, hsecond⟩

/-- What every layer preserves holds behind them. -/
theorem run_invariant (Inv : State → Prop)
    (hcall : ∀ layer state next, Inv state → call layer state = .ok next → Inv next)
    (hstate : Inv state) (hrun : run call layers state = .ok final) : Inv final := by
  induction layers generalizing state with
  | nil => exact Except.ok.inj hrun ▸ hstate
  | cons layer rest ih =>
      obtain ⟨next, hnext, hrest⟩ := run_cons_eq_ok.mp hrun
      exact ih (hcall layer state next hstate hnext) hrest

/-- What no layer changes is not changed. -/
theorem run_eq {read : State → Value}
    (hkeeps : ∀ layer state next, call layer state = .ok next → read next = read state)
    (hrun : run call layers state = .ok final) : read final = read state :=
  run_invariant (fun passed => read passed = read state)
    (fun layer passed next hsame hcall => (hkeeps layer passed next hcall).trans hsame) rfl hrun

/-- The layer is the last one that writes, and `middle` is what came to it. -/
structure LastWrite (call : Layer → State → Except Answer State) (writes : Layer → State → Prop)
    (layers : List Layer) (state : State) (layer : Layer) (middle next : State) : Prop where
  place : ∃ before after, layers = before ++ layer :: after ∧ run call before state = .ok middle ∧
    ∀ first later rest passed, after = first ++ later :: rest →
      run call first next = .ok passed → ¬writes later passed
  call_eq : call layer middle = .ok next
  writes : writes layer middle

/-- **The last write**: what is read behind the layers was there before, or the last layer that
writes put it there. -/
theorem eq_or_lastWrite (read : State → Value) (writes : Layer → State → Prop)
    (hkeeps : ∀ layer state next, ¬writes layer state → call layer state = .ok next →
      read next = read state)
    (hrun : run call layers state = .ok final) :
    read final = read state ∨
      ∃ layer middle next, LastWrite call writes layers state layer middle next ∧
        read final = read next := by
  have hlast : ((∀ first later rest passed, layers = first ++ later :: rest →
        run call first state = .ok passed → ¬writes later passed) ∧ read final = read state) ∨
      ∃ layer middle next, LastWrite call writes layers state layer middle next ∧
        read final = read next := by
    induction layers generalizing state with
    | nil =>
        refine .inl ⟨fun first later rest passed hnil => ?_,
          congrArg read (Except.ok.inj hrun).symm⟩
        simp at hnil
    | cons layer rest ih =>
        obtain ⟨next, hnext, hrest⟩ := run_cons_eq_ok.mp hrun
        rcases ih hrest with ⟨hnone, heq⟩ | ⟨last, middle, written, hwrite, heq⟩
        · by_cases hwrites : writes layer state
          · exact .inr ⟨layer, state, next, ⟨⟨[], rest, rfl, rfl, hnone⟩, hnext, hwrites⟩, heq⟩
          · refine .inl ⟨?_, heq.trans (hkeeps layer state next hwrites hnext)⟩
            intro first later behind passed hsplit hpassed
            cases first with
            | nil =>
                obtain ⟨rfl, -⟩ := List.cons.inj hsplit
                exact Except.ok.inj hpassed ▸ hwrites
            | cons head first =>
                obtain ⟨rfl, hbehind⟩ := List.cons.inj hsplit
                obtain ⟨between, hbetween, hpassed⟩ := run_cons_eq_ok.mp hpassed
                obtain rfl := Except.ok.inj (hnext.symm.trans hbetween)
                exact hnone first later behind passed hbehind hpassed
        · obtain ⟨⟨before, after, rfl, hbefore, hafter⟩, hcall, hwrites⟩ := hwrite
          exact .inr ⟨last, middle, written, ⟨⟨layer :: before, after, rfl,
            run_cons_eq_ok.mpr ⟨next, hnext, hbefore⟩, hafter⟩, hcall, hwrites⟩, heq⟩
  exact hlast.imp_left And.right

end Pipeline
