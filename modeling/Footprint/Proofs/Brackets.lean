import Footprint.Proofs.Idle
import Footprint.Proofs.Recording

set_option autoImplicit false

/-!
What is heard during a run splits into activations of frames, which nest: each begins with its call
and, unless the listener detaches from it there, ends with its return.
-/

namespace Footprint

mutual

/-- What is heard of an activation at a depth, and of all that it calls. -/
inductive Activation : Nat → List Heard → Prop
  /-- No more is heard of the activation itself if its call is answered so. -/
  | detached (f : FrameInfo) {inner : List Heard} : Activations (f.depth + 1) inner →
      Activation f.depth (⟨f, .call, .ok .detach⟩ :: inner)
  | traced (f : FrameInfo) (answer : Except String Control) {body : List Heard} {line : Nat}
      (last : Except String Control) : answer ≠ .ok .detach →
      Body f.function f.code f.depth f.line body line →
      Activation f.depth (⟨f, .call, answer⟩ :: (body ++ [⟨{ f with line }, .ret, last⟩]))

/-- What is heard of activations at a depth, one after the other. -/
inductive Activations : Nat → List Heard → Prop
  | nil (d : Nat) : Activations d []
  | cons {d : Nat} {es rest : List Heard} : Activation d es → Activations d rest →
      Activations d (es ++ rest)

/-- What is heard between the call and the return of an activation of a code object at a depth, with
the latest lines before and after that. -/
inductive Body : String → CodeId → Nat → Nat → List Heard → Nat → Prop
  | nil (name : String) (code : CodeId) (d line : Nat) : Body name code d line [] line
  | line {name : String} {code : CodeId} {d n last : Nat} {rest : List Heard} (before : Nat)
      (answer : Except String Control) : Body name code d n rest last →
      Body name code d before (⟨⟨name, code, n, d⟩, .line, answer⟩ :: rest) last
  | exception {name : String} {code : CodeId} {d n last : Nat} {rest : List Heard}
      (answer : Except String Control) : Body name code d n rest last →
      Body name code d n (⟨⟨name, code, n, d⟩, .exception, answer⟩ :: rest) last
  | inner {name : String} {code : CodeId} {d n last : Nat} {es rest : List Heard} :
      Activation (d + 1) es → Body name code d n rest last → Body name code d n (es ++ rest) last

end

theorem Activations.append {d : Nat} {es fs : List Heard} (h : Activations d es)
    (h' : Activations d fs) : Activations d (es ++ fs) := by
  match h with
  | .nil _ => exact h'
  | .cons first rest =>
    rw [List.append_assoc]
    exact .cons first (rest.append h')

theorem Body.append {name : String} {code : CodeId} {d line line' line'' : Nat}
    {es fs : List Heard} (h : Body name code d line es line')
    (h' : Body name code d line' fs line'') : Body name code d line (es ++ fs) line'' := by
  match h with
  | .nil .. => exact h'
  | .line before answer rest => exact .line before answer (rest.append h')
  | .exception answer rest => exact .exception answer (rest.append h')
  | .inner first rest =>
    rw [List.append_assoc]
    exact .inner first (rest.append h')

/-- What is heard while an activation runs: of one that is not traced, only what it calls. -/
def Segment (c : Code) (d : Nat) : Bool → Nat → List Heard → Nat → Prop
  | true, line, es, line' => Body c.name c.id d line es line'
  | false, _, es, _ => Activations (d + 1) es

section

variable {ω : Type}

/-- The protocol of what is heard. -/
def Protocol.brackets (ω : Type) : Protocol (Monitors (ω × List Heard)) where
  known _ := True
  stage _ _ := True
  part c t d p q :=
    ∃ es, q.state.host.2 = p.state.host.2 ++ es ∧ Segment c d t p.line es q.line
  whole d s s' := ∃ es, s'.host.2 = s.host.2 ++ es ∧ Activation d es
  cut _ _ := True

variable (limits : Limits) (clock : Clock) (l : Listener (Monitors ω))

theorem Protocol.brackets_exceptions :
    (brackets ω).AdmitsExceptions ⟨limits, clock, some (l.noting .mk)⟩ where
  told := by
    rintro c ⟨name, code, line, kind, traced, reported⟩ hs d s - - ⟨rfl, rfl⟩ -
    cases traced with
    | true =>
      refine ⟨_, hear_recorded Heard.mk limits clock l d .exception s (.inr rfl), ?_⟩
      exact .exception _ (.nil ..)
    | false =>
      rw [hear_untraced Heard.mk limits clock l d .exception s (by decide) rfl]
      exact ⟨[], (List.append_nil _).symm, .nil _⟩
  caught := by
    intro c t d n reported s
    refine ⟨[], (List.append_nil _).symm, ?_⟩
    cases t with
    | true => exact .nil ..
    | false => exact .nil _

theorem Protocol.brackets_admits : (brackets ω).Admits ⟨limits, clock, some (l.noting .mk)⟩ where
  known_of_defines _ _ := trivial
  stage_push _ _ := trivial
  refl c t d p := by
    refine ⟨[], (List.append_nil _).symm, ?_⟩
    cases t with
    | true => exact .nil ..
    | false => exact .nil _
  trans := by
    rintro c t d p q r ⟨es, hes, h⟩ ⟨fs, hfs, h'⟩
    refine ⟨es ++ fs, by rw [hfs, hes, List.append_assoc], ?_⟩
    cases t with
    | true => exact Body.append h h'
    | false => exact Activations.append h h'
  line := by
    rintro c ⟨name, code, line, kind, traced, reported⟩ n hs d s - - ⟨rfl, rfl⟩ -
    cases traced with
    | true =>
      refine ⟨_, hear_recorded Heard.mk limits clock l d .line s (.inr rfl), ?_⟩
      exact .line line _ (.nil ..)
    | false =>
      rw [hear_untraced Heard.mk limits clock l d .line s (by decide) rfl]
      exact ⟨[], (List.append_nil _).symm, .nil _⟩
  activation := by
    rintro c f hs d s s' answer line reported s'' - - begins hcall ⟨es, hes, segment⟩
    have called := hear_recorded Heard.mk limits clock l (f := f) d .call s (.inl rfl)
    rw [hcall] at called
    obtain ⟨hname, hcode⟩ := begins.runs
    by_cases detached : answer = .ok .detach
    · subst detached
      rw [hear_untraced Heard.mk limits clock l d .ret s'' (by decide) rfl]
      refine ⟨⟨f.info d, .call, .ok .detach⟩ :: es, ?_, .detached (f.info d) segment⟩
      rw [hes, called, List.append_assoc]
      rfl
    · have stays : staysTraced answer = true := by
        unfold staysTraced
        split
        · exact absurd rfl detached
        · rfl
      rw [stays] at segment ⊢
      have body : Body f.name f.code d f.line es line := by
        rw [hname, hcode]
        exact segment
      have returned := hear_recorded Heard.mk limits clock l
        (f := { f with line, traced := true }) d .ret s'' (.inr rfl)
      generalize (Setting.hear _ { f with line, traced := true } d .ret s'').1 = last at returned
      refine ⟨_, ?_, .traced (f.info d) answer last detached body⟩
      rw [returned, hes, called, List.append_assoc, List.append_assoc]
      rfl
  inner := by
    rintro c t d n reported s s' ⟨es, hes, activation⟩
    refine ⟨es, hes, ?_⟩
    rw [← List.append_nil es]
    cases t with
    | true => exact .inner activation (.nil ..)
    | false => exact .cons activation (.nil _)
  cut_part _ := trivial
  cut_call _ _ _ _ := trivial
  cut_trans _ _ := trivial

namespace Interpreter

variable {i : Interpreter ω} {l : Listener (Monitors ω)} {μ ν : Monitors ω} {n : Nat}
  {heard : List Heard} {j : Interpreter (ω × List Heard)}

theorem activation_of_run (listening : i.listener = some l) (idle : i.machine.Idle)
    {r : Except Failure Unit}
    (ended : (i.noting .mk).run n ⟨μ.tracers, (μ.host, [])⟩ =
      some (r, j, ⟨ν.tracers, (ν.host, heard)⟩)) :
    i.limits.maxDepth = 0 ∧ heard = [] ∨ Activation 1 heard := by
  obtain ⟨program, limits, clock, machine, listener⟩ := i
  obtain rfl : listener = some l := listening
  have admits := Protocol.brackets_admits limits clock l
  have run := Protocol.runWith_concludes
    (m := machine.withMonitor ⟨μ.tracers, (μ.host, [])⟩) admits
    (Protocol.calls admits (Protocol.brackets_exceptions limits clock l) (fun _ _ => trivial) n)
    program.script trivial trivial
    fun _ _ _ => trivial
  obtain ⟨m, returned, -, hm⟩ := ends_of_act ended run.ends
  have hheard : heard = m.monitor.host.2 := congrArg (·.host.2) hm
  have hdepth : machine.stack.size = 0 := by rw [idle.stack]; rfl
  rcases returned.monitor with ⟨room, same⟩ | ⟨es, hes, activation⟩
  · refine .inl ⟨?_, by rw [hheard, same]; rfl⟩
    change limits.maxDepth ≤ machine.stack.size at room
    rw [hdepth] at room
    exact Nat.le_zero.1 room
  · change Activation (machine.stack.size + 1) es at activation
    rw [hdepth] at activation
    rw [hheard, hes]
    exact .inr activation

theorem activations_of_call (listening : i.listener = some l) (idle : i.machine.Idle)
    {name : String} {args : Edit (List Value)} {r : Except Failure Value}
    (ended : (i.noting .mk).call n ⟨μ.tracers, (μ.host, [])⟩ name args =
      some (r, j, ⟨ν.tracers, (ν.host, heard)⟩)) :
    Activations 2 heard := by
  obtain ⟨program, limits, clock, machine, listener⟩ := i
  obtain rfl : listener = some l := listening
  have admits := Protocol.brackets_admits limits clock l
  have call := Protocol.callGlobal_concludes
    (m := { machine.withMonitor ⟨μ.tracers, (μ.host, [])⟩ with store := (args machine.store).2 })
    admits
    (Protocol.calls admits (Protocol.brackets_exceptions limits clock l) (fun _ _ => trivial) n)
    program.script trivial trivial (fun _ _ _ => trivial) name (args machine.store).1
  obtain ⟨m, answered, -, hm⟩ := ends_of_act ended call.ends
  have hheard : heard = m.monitor.host.2 := congrArg (·.host.2) hm
  have hdepth : machine.stack.size = 0 := by rw [idle.stack]; rfl
  obtain ⟨line, reported, es, hes, activations⟩ := answered.monitor
  change Activations (machine.stack.size + 1 + 1) es at activations
  rw [hdepth] at activations
  rw [hheard, hes]
  exact activations

end Interpreter

end

end Footprint
