import JsonScript.Probe.Workbench
import JsonScript.Proofs.Pulls
import JsonScript.Proofs.Sandboxes

/-!
How typed natives are called.

A typed native serves a call by its pulls. If they all pass, the function decides on what it
receives, and otherwise the first that does not pass stops the call. The parameters are published in
the order of the pulls, and those that may be left out are published as such.
-/

set_option autoImplicit false
set_option relaxedAutoImplicit false

namespace JsonScript

open Evaluator

variable {φ ε : Type}

section Calls

variable [Callable φ ε] (setup : Setup φ ε) (inner : InnerRun φ) (arguments : List Json)
  (address : Address)

/-- `Serves t w ending u pulls`: from the state `w` the typed native serves the call with so many
pulls and ends it in the state `u`. All pulls pass, and the function decides on what it receives, or
the first that does not pass stops the call. -/
inductive Serves (t : TypedNative φ) (w : World ε) : Ending (Outcome φ) → World ε → Nat → Prop where
  | received {received : Received φ (t.parameters.map (·.2))} {u : World ε}
      (passes : Passes setup inner arguments address (t.parameters.map (·.2)) 1 w received u) :
      Serves t w
        (.returned ((t.body received).mapError fun message => u.failure (.native message))) u
        t.parameters.length
  | stopped {before after : List Shape} {shape : Shape} {received : Received φ before}
      {u u' : World ε} {halt : Halt} (parts : t.parameters.map (·.2) = before ++ shape :: after)
      (passes : Passes setup inner arguments address before 1 w received u)
      (stops : Stops setup inner arguments address (before.length + 1) shape u halt u') :
      Serves t w halt.ending u' (before.length + 1)

variable {setup inner arguments address} {t : TypedNative φ} {w : World ε}

private theorem Serves.reads {ending : Ending (Outcome φ)} {u : World ε} {pulls : Nat}
    (serves : Serves setup inner arguments address t w ending u pulls) :
    Reads address w u (List.range' 1 (min pulls arguments.length)) := by
  have positions (count : Nat) :
      pulledPositions arguments 1 count = List.range' 1 (min count arguments.length) := by
    rw [pulledPositions, Nat.add_sub_cancel]
  rw [← positions]
  cases serves with
  | received passes =>
    have read := passes.reads
    rwa [List.length_map] at read
  | @stopped before after shape received between _ halt parts passes stops =>
    have read := stops.reads
    rw [Nat.add_comm] at read
    have whole := passes.reads.trans read
    rwa [pulledPositions_append] at whole

private theorem Serves.performed {ending : Ending (Outcome φ)} {u : World ε} {pulls : Nat}
    (serves : Serves setup inner arguments address t w ending u pulls) :
    perform (callAnswers setup inner arguments address) t.native.run w = (ending, u) := by
  cases serves with
  | received passes =>
    refine (perform_bind_ok passes.performed).trans ?_
    cases t.body _ with
    | ok v => rfl
    | error message => rfl
  | stopped parts passes stops =>
    rw [Nat.add_comm] at stops
    exact perform_bind_halt (passes.performed_stopped stops parts)

private theorem Serves.stamped {outcome : Outcome φ} {u : World ε} {pulls : Nat}
    (serves : Serves setup inner arguments address t w (.returned outcome) u pulls) :
    outcome.mapError (Failure.stamp u.stack) = outcome := by
  generalize same : Ending.returned outcome = ending at serves
  cases serves with
  | @received received _ passes =>
    obtain rfl := Ending.returned.inj same
    cases t.body received with
    | ok v => rfl
    | error message => exact congrArg Except.error (World.stamp_failure u _)
  | @stopped before after shape received between _ halt parts passes stops =>
    cases halt with
    | failed f =>
      obtain rfl := Ending.returned.inj same
      exact congrArg Except.error stops.stamped
    | unwound payload => cases same
    | exhausted => cases same

variable (setup inner arguments address t w) in
private theorem exists_serves :
    ∃ ending u pulls, Serves setup inner arguments address t w ending u pulls := by
  rcases pullAll_cases setup inner arguments address Nat.one_pos (t.parameters.map (·.2)) w with
    ⟨received, u, passes⟩ | ⟨before, shape, after, received, u, halt, u', parts, passes, stops⟩
  · exact ⟨_, u, _, .received passes⟩
  · rw [Nat.add_comm] at stops
    exact ⟨_, u', _, .stopped parts passes stops⟩

private theorem Serves.missing_iff {ending : Ending (Outcome φ)} {last : World ε} {pulls : Nat}
    (serves : Serves setup inner arguments address t w ending last pulls)
    {before after : List Shape} {shape : Shape} {received : Received φ before} {u : World ε}
    (parts : t.parameters.map (·.2) = before ++ shape :: after)
    (passes : Passes setup inner arguments address before 1 w received u)
    (lacks : arguments.length ≤ before.length) :
    ending = .returned (.error (u.failure (.missingArgument u.label (before.length + 1)))) ↔
      shape.isOptional = false := by
  constructor
  · intro fails
    cases serves with
    | @received given _ _ =>
      cases said : t.body given with
      | ok v =>
        rw [said] at fails
        cases fails
      | error message =>
        rw [said] at fails
        cases fails
    | @stopped _ _ _ _ _ _ halt parts' passes' stops =>
      obtain rfl := Halt.eq_failed fails
      rw [Nat.add_comm] at stops
      -- The call stops among the pulls that are left. Each of them lacks its argument, and the
      -- position in the failure is that of the first.
      have whole := passes'.performed_stopped stops parts'
      have rest := (passes.performed_append parts).mp whole
      have positive : 0 < 1 + before.length := by omega
      rcases pullAll_cases setup inner arguments address positive (shape :: after) u with
        ⟨_, _, passing⟩ | ⟨earlier, other, later, _, between, halt, _, split, passing, stops⟩
      · cases passing.performed.symm.trans rest
      · have absent : arguments.length < 1 + before.length + earlier.length := by omega
        obtain ⟨required, rfl⟩ := stops.of_absent absent
        have same := (passing.performed_stopped stops split).symm.trans rest
        simp only [Halt.ending, World.failure, Prod.mk.injEq, Ending.returned.injEq,
          Except.error.injEq, Failure.mk.injEq, Cause.missingArgument.injEq] at same
        obtain ⟨⟨⟨_, position⟩, _⟩, _⟩ := same
        obtain rfl : earlier = [] := List.eq_nil_of_length_eq_zero (by omega)
        obtain ⟨rfl, _⟩ := List.cons.inj split
        exact required
  · intro required
    have stops : Stops setup inner arguments address (before.length + 1) shape u _ u :=
      .missing required (Nat.lt_succ_of_le lacks)
    have same := (Serves.stopped parts passes stops).performed.symm.trans serves.performed
    exact (congrArg Prod.fst same).symm

section Resolved

variable {head : Json} {resolved : World ε} {ending : Ending (Outcome φ)} {last : World ε}
  {pulls : Nat}

private theorem Serves.called
    (resolves : resolve setup inner head address w =
      (.returned (.ok (some (.callable t.native))), resolved))
    (serves : Serves setup inner arguments address t
      (reportDispatch arguments.length { resolved with
        frames := ⟨head.headLabel, address.index, w.frames.length + 1⟩ :: resolved.frames }).2
      ending last pulls) :
    ∃ frames, evaluateCall setup inner (head :: arguments) address w =
      (ending, { last with frames }) := by
  refine evaluateCall_invoked resolves (invoke_performed serves.performed ?_)
  rintro outcome rfl
  exact serves.stamped

private theorem Serves.frames_eq (innerLeveled : inner.SeesLeveled)
    (passes : setup.sandbox.EveryNative (Routine.Only (·.catchesPanic = false)))
    (only : Routine.Only (·.catchesPanic = false) (t.native : Native φ ε))
    (serves : Serves setup inner arguments address t w ending last pulls) {outcome : Outcome φ}
    (returned : ending = .returned outcome) : last.frames = w.frames := by
  subst returned
  have keeps := perform_keepsCalls
    (answer_evaluations_keepsCalls innerLeveled passes arguments address) only w
  exact keeps.frames_eq serves.performed

end Resolved

end Calls

namespace Declaration

private theorem boundName?_word {name : String} (valid : isParameterName name = true) :
    boundName? [.word name] = some name := by
  unfold boundName?
  split
  · cases ‹[Token.word name] = _›
  · rename_i same
    cases same
    cases valid
  · rename_i same
    cases same
    cases valid
  · simp [namedWord?, valid]

private theorem isOptional_written (s : Shape) : isOptional (written s) = s.isOptional := by
  cases s <;> rfl

private theorem published_eq {parameters : List (String × Shape)}
    (named : ∀ p ∈ parameters, isParameterName p.1 = true) (first : Nat) :
    published first (parameters.map fun (name, shape) => ([.word name], written shape)) =
      parameters.mapIdx fun i p => ⟨p.1, written p.2, first + i⟩ := by
  induction parameters generalizing first with
  | nil => rfl
  | cons p rest ih =>
    obtain ⟨here, others⟩ := List.forall_mem_cons.mp named
    have shifted (i : Nat) : first + 1 + i = first + (i + 1) := by omega
    simp only [List.map_cons, published, boundName?_word here, ih others, List.mapIdx_cons,
      shifted, Nat.add_zero]

end Declaration

namespace TypedNative

theorem find?_register (t : TypedNative φ) (s : Sandbox φ ε) :
    (t.register s).find? t.declaration.scriptName = some (.callable t.native) :=
  Sandbox.find?_insert_self t.declaration.scriptName (.callable t.native) s

variable {t : TypedNative φ}
  (named : ∀ p ∈ t.parameters, Declaration.isParameterName p.1 = true)

include named

private theorem map_published {α : Type} (view : Declaration.Published → α) :
    (Declaration.published 1 t.declaration.parameters).map view =
      t.parameters.mapIdx fun i p => view ⟨p.1, Declaration.written p.2, i + 1⟩ := by
  apply List.ext_getElem?
  intro i
  rw [declaration, Declaration.published_eq named, List.getElem?_map, List.getElem?_mapIdx,
    List.getElem?_mapIdx, Nat.add_comm 1 i]
  cases t.parameters[i]? <;> rfl

private theorem pulls_eq :
    t.declaration.pulls = t.parameters.mapIdx fun i p => ⟨p.1, p.2.isOptional, i + 1⟩ := by
  unfold Declaration.pulls
  simp only [map_published named, Declaration.Published.pull, Declaration.isOptional_written]

private theorem signature_parameters_eq :
    t.declaration.signature.parameters = t.parameters.mapIdx fun _ p =>
      ⟨p.1, Declaration.typeName (Declaration.written p.2),
        (Declaration.Docs.ofLines t.docs).argument p.1, !p.2.isOptional⟩ := by
  unfold Declaration.signature
  simp only [map_published named, Declaration.Published.parameter, Declaration.isOptional_written]
  rfl

end TypedNative

variable [Callable φ ε]

/-- A call of a typed native, whatever head stands for it, pulls its arguments in the order of the
parameters. It enters the arguments from the first on, each once, up to the last that is pulled, and
ends as the native serves it. Unless natives catch panics, failures of the call itself name it and
have its stack. The parameters are published in order, and one of them is published as required just
when a call that lacks it fails for it, once the earlier pulls have passed. -/
theorem typed_native_calling_convention [Inhabited ε] (c : Context φ ε) (limit : Nat)
    (t : TypedNative φ) (named : ∀ p ∈ t.parameters, Declaration.isParameterName p.1 = true)
    (head : Json) (arguments : List Json) (address : Address) (w resolved : World ε)
    (resolves : resolve c.toSetup (Context.innerRun c.sandbox limit) head address w =
      (.returned (.ok (some (.callable t.native))), resolved)) :
    let inner := Context.innerRun c.sandbox limit
    let shapes := t.parameters.map (·.2)
    let call : Frame := ⟨head.headLabel, address.index, w.frames.length + 1⟩
    let start := { resolved with frames := call :: resolved.frames }.record
      (.dispatch call resolved.frames arguments.length)
    let e := evaluateCall c.toSetup inner (head :: arguments) address w
    (∃ ending last frames pulls,
      Serves c.toSetup inner arguments address t start ending last pulls ∧
      e = (ending, { last with frames }) ∧
      Reads address resolved e.2 (List.range' 1 (min pulls arguments.length)) ∧
      (c.sandbox.EveryNative (Routine.Only (·.catchesPanic = false)) →
        ∀ outcome, ending = .returned outcome →
          last.label = head.headLabel ∧ last.stack = ⟨call :: w.frames⟩)) ∧
    t.declaration.signature.parameters.length = t.parameters.length ∧
    ∀ i parameter, t.parameters[i]? = some parameter →
      t.declaration.pulls[i]? = some ⟨parameter.1, parameter.2.isOptional, i + 1⟩ ∧
      ∃ published, t.declaration.signature.parameters[i]? = some published ∧
        published.name = parameter.1 ∧
        (arguments.length ≤ i → ∀ received u,
          Passes c.toSetup inner arguments address (shapes.take i) 1 start received u →
          (published.required = true ↔
            e.1 = .returned (.error (u.failure (.missingArgument u.label (i + 1)))))) := by
  intro inner shapes call start e
  obtain ⟨ending, last, pulls, serves⟩ := exists_serves c.toSetup inner arguments address t start
  obtain ⟨frames, called⟩ := serves.called resolves
  have served : e = (ending, { last with frames }) := called
  refine ⟨⟨ending, last, frames, pulls, serves, served, ?_, ?_⟩, ?_, ?_⟩
  · rw [served]
    exact serves.reads
  · intro passes outcome returned
    have innerLeveled : inner.SeesLeveled := innerRun_seesLeveled c.sandbox passes limit
    have atHead : resolved.frames = w.frames :=
      (resolve_keepsCalls innerLeveled passes head address w).frames_eq resolves
    have restored : last.frames = call :: resolved.frames :=
      serves.frames_eq innerLeveled passes (resolve_native passes resolves) returned
    constructor
    · rw [World.label, restored]
      rfl
    · rw [World.stack, restored, atHead]
  · rw [TypedNative.signature_parameters_eq named, List.length_mapIdx]
  · intro i parameter found
    rw [TypedNative.pulls_eq named, TypedNative.signature_parameters_eq named,
      List.getElem?_mapIdx, List.getElem?_mapIdx, found]
    refine ⟨rfl, _, rfl, rfl, ?_⟩
    intro lacks received u passing
    have shape : shapes[i]? = some parameter.2 := by
      rw [List.getElem?_map, found]
      rfl
    obtain ⟨within, here⟩ := List.getElem?_eq_some_iff.mp shape
    have parts : shapes = shapes.take i ++ parameter.2 :: shapes.drop (i + 1) := by
      rw [← here, ← List.drop_eq_getElem_cons within, List.take_append_drop]
    have length : (shapes.take i).length = i := List.length_take_of_le (Nat.le_of_lt within)
    have missing := serves.missing_iff parts passing (by rwa [length])
    rw [length] at missing
    rw [served, missing, Bool.not_eq_true']

/-- Null is taken for a missing option, and the parameter after it is missed. -/
theorem required_parameter_missed :
    let t : TypedNative Probe.Closure := {
      name := "total"
      parameters := [("items", .optional (.list (.optional .integer))), ("scale", .integer)]
      body := fun (items, scale, _) => Probe.give .integer (Probe.total items scale) }
    let c : Context Probe.Closure Probe.Journal := .ofSandbox (t.register .empty) {}
    let w : World Probe.Journal := { env := {}, ledger := {} }
    (∀ p ∈ t.parameters, Declaration.isParameterName p.1 = true) ∧
      c.sandbox.find? "total" = some (.callable t.native) ∧
      (evaluateCall c.toSetup (Context.innerRun c.sandbox 1) [.string "total", .null] [] w).1 =
        .returned (.error ⟨.missingArgument "total" 2, ⟨[⟨"total", 0, 1⟩]⟩⟩) := by
  intro t c w
  have named : ∀ p ∈ t.parameters, Declaration.isParameterName p.1 = true := by decide
  have bound : c.sandbox.find? "total" = some (.callable t.native) := t.find?_register .empty
  have resolves : resolve c.toSetup (Context.innerRun c.sandbox 1) (.string "total") [] w =
      (.returned (.ok (some (.callable t.native))), w) :=
    congrArg (fun binding => (Ending.returned (Except.ok binding), w)) bound
  have convention := typed_native_calling_convention c 1 t named _ [.null] [] w w resolves
  obtain ⟨_, published, listed, _, missing⟩ := convention.2.2 1 ("scale", .integer) rfl
  have required : published.required = true := by
    cases listed
    rfl
  have fails := (missing (Nat.le_refl 1) _ _ (.cons (.null rfl rfl) .nil)).mp required
  exact ⟨named, bound, fails⟩

/-- A panic that is caught while an argument is evaluated leaves a frame behind, and the failure of
the call names that one. -/
theorem caught_panic_takes_the_name :
    let t : TypedNative Probe.Closure := {
      name := "maybe"
      parameters := [("x", .optional .integer)]
      body := fun (x, _) => Probe.give (.optional .integer) (Probe.successor x) }
    let sandbox : Sandbox Probe.Closure Probe.Journal :=
      t.register ((Sandbox.empty.insertNative "guard" Probe.guard).insertNative "panic-str"
        (Call.panic (.text "static text")))
    let c : Context Probe.Closure Probe.Journal := .ofSandbox sandbox {}
    let argument : Json := .array [.string "guard", .array [.string "panic-str"]]
    t.declaration.scriptName = "maybe" ∧
      c.sandbox.find? "maybe" = some (.callable t.native) ∧
      (∃ v, (c.run argument {}).1 = .returned (.ok v)) ∧
      (c.run (.array [.string "maybe", argument]) {}).1 = .returned (.error
        ⟨.argumentType "guard" 1 ⟨"integer", "list"⟩, ⟨[⟨"guard", 1, 2⟩, ⟨"maybe", 0, 1⟩]⟩⟩) :=
  ⟨rfl, rfl, ⟨_, rfl⟩, rfl⟩

end JsonScript
