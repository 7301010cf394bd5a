import SampleTypes.Filter.Environment
import SampleTypes.Filter.Native
import SampleTypes.Filter.Way

/-!
# Evaluation of filters

`Filter.outputs` runs a filter on a value. `Filter.updates` changes the parts of a value that a filter
leads to; only some filters lead anywhere. Both take their filters and variables from an `Env`.

Calls may go on without end, so there is a bound on the depth of evaluation, at which it fails. Whatever is
evaluated inside something else has a smaller bound; the bound at which a label is entered therefore tells
it from all labels around it.
-/

namespace SampleTypes.Filter

/-- An output that keeps the second side of an alternative out: a true value, or a failure. -/
def counts : Except Failure Value → Bool
  | .ok value => value.isTrue
  | .error _ => true

def entryOf (key value : Value) : Value.Result :=
  match key with
  | .string key => .ok (.object [(key, value)])
  | key => Value.fail ("cannot use " ++ key.text ++ " as string")

def tooDeep : Outputs Value :=
  .fail "evaluation is too deep"

def noPath (value : Value) : Outputs Value :=
  .fail ("invalid path expression with input " ++ value.text)

/-- The ways that a step takes; `run` finds the indices. -/
def waysOf (run : Filter → Outputs Value) : Step → Outputs Way
  | .index f => .index <$> run f
  | .slice first last =>
    .pairs (ends first) (fun _ => ends last) fun first last => .ok (.slice first last)
  | .each => pure .each
where
  /-- The values of an end of a slice. -/
  ends : Option Filter → Outputs (Option Value)
  | none => pure none
  | some f => some <$> run f

/-- The ways that steps take one after the other; `run` finds the indices. -/
def ways (run : Filter → Outputs Value) : List (Step × Bool) → Outputs Ways
  | [] => pure []
  | (step, mark) :: steps =>
    .pairs (waysOf run step) (fun _ => ways run steps) fun way ways => .ok ((way, mark) :: ways)

mutual

def outputs : (bound : Nat) → Env → Filter → Value → Outputs Value
  | 0, _, _, _ => tooDeep
  | bound + 1, env, filter, value => .paced bound fun _ =>
    let runOn (f : Filter) (value : Value) : Outputs Value := outputs bound env f value
    let run (f : Filter) : Outputs Value := outputs bound env f value
    match filter with
    | .here => pure value
    | .within => .ofList value.within
    | .nothing => .none
    | .constant c => pure c
    | .shown => pure (.string value.shown)
    | .collect f => .array <$> (run f).all
    | .entry key f => .pairs (run key) (fun _ => run f) entryOf
    | .pick key =>
      .pairs (run key) (fun _ => do .ofResult (value.part (← run key))) entryOf
    | .negate f => do .ofResult (← run f).negate
    | .pipe f g => do runOn g (← run f)
    | .bind f pattern g => do
      let env ← Env.bindings runOn pattern (← run f) env
      outputs bound env g value
    | .comma f g => (run f).append fun _ => run g
    | .operate operation f g =>
      .pairs (run f) (fun _ => run g) fun a b => a.apply operation b
    | .compare comparison f g =>
      .pairs (run f) (fun _ => run g) fun a b => .ok (.bool (comparison.holds (a.compare b)))
    -- The first side decides, or leaves it to the second one.
    | .connect connective f g => do
      if (← run f).isTrue == connective.decisive then
        return .bool connective.decisive
      else
        return .bool (← run g).isTrue
    | .orElse f g => .ofSequence (((run f).run.filter counts).orElse fun _ => run g)
    | .update target change => updates bound env target (runOn change) value
    | .assign assignment target f => do
      let given ← run f
      updates bound env target (fun part => .ofResult (assignment.result part given)) value
    | .loop kind values pattern (init :: step :: others) => do
      let items := Outputs.later fun _ => do Env.bindings runOn pattern (← run values) env
      let step (env : Env) (state : Value) : Outputs Value := outputs bound env step state
      let state ← run init
      match kind, others with
      | .reduce, [] => Outputs.inTurn step items.run state
      | .foreach, [] => Outputs.scan step (fun _ state => pure state) items.run state
      | .foreach, [view] =>
        Outputs.scan step (fun env state => outputs bound env view state) items.run state
      | _, _ => .none
    | .loop _ _ _ _ => .none
    | .recover f handler => Outputs.rescue (runOn handler) (run f).run
    | .choose condition yes no => do run (if (← run condition).isTrue then yes else no)
    | .define name parameters body rest =>
      outputs bound (.definition ⟨name, parameters, body⟩ env) rest value
    | .call name arguments =>
      match env.callee? name arguments.length with
      | some (.argument body scope) => outputs bound scope body value
      | some (.definition d scope) => do
        let env ← Env.frames run env arguments d scope
        outputs bound env d.body value
      | none =>
        match Native.find? name arguments.length with
        | some native => do
          let values ← Native.values run native.arguments arguments
          native.run values ((Native.filters native.arguments arguments).map runOn) value
        | none => .none
    | .variable name =>
      match env.value? name with
      | some value => pure value
      | none => .none
    | .label name body =>
      Outputs.upTo bound (outputs bound (.label name bound env) body value).run
    | .leave name =>
      match env.label? name with
      | some number => throw (.leave number)
      | none => .none
    | .path f steps => do
      let part ← run f
      let ways ← ways run steps
      Way.follow ways part

/-- The value with the parts changed that the filter leads to. -/
def updates : (bound : Nat) → Env → Filter → (Value → Outputs Value) → Value → Outputs Value
  | 0, _, _, _, _ => tooDeep
  | bound + 1, env, filter, change, value => .paced bound fun _ =>
    let runOn (f : Filter) (value : Value) : Outputs Value := outputs bound env f value
    let run (f : Filter) : Outputs Value := outputs bound env f value
    let changed (f : Filter) (change : Value → Outputs Value) (value : Value) : Outputs Value :=
      updates bound env f change value
    match filter with
    | .here => change value
    | .nothing => pure value
    | .within => do
      change (← Way.update (changed .within change) [(.each, true)] value)
    | .pipe f g => changed f (changed g change) value
    | .bind f pattern g =>
      let envs := do Env.bindings runOn pattern (← run f) env
      Outputs.inTurn (fun env value => updates bound env g change value) envs.run value
    | .comma f g => do changed g change (← changed f change value)
    | .orElse f g => do
      let first ← .ofSequence (((run f).run.any counts).map .ok)
      changed (if first then f else g) change value
    | .loop .reduce values pattern [init, step] =>
      let items := Outputs.later fun _ => do Env.bindings runOn pattern (← run values) env
      let step (env : Env) (change : Value → Outputs Value) (value : Value) : Outputs Value :=
        updates bound env step change value
      changed init (Outputs.inside step change items.run) value
    | .choose condition yes no =>
      Outputs.inTurn (fun c value => changed (if c.isTrue then yes else no) change value)
        (run condition).run value
    | .define name parameters body rest =>
      updates bound (.definition ⟨name, parameters, body⟩ env) rest change value
    | .call name arguments =>
      match env.callee? name arguments.length with
      | some (.argument body scope) => updates bound scope body change value
      | some (.definition d scope) =>
        Outputs.inTurn (fun env value => updates bound env d.body change value)
          (Env.frames run env arguments d scope).run value
      | none =>
        match Native.find? name arguments.length with
        | some .empty => pure value
        | some native =>
          Outputs.inTurn (fun _ value => noPath value)
            (Native.values run native.arguments arguments).run value
        | none => .none
    | .path f steps =>
      changed f (Outputs.inTurn (fun ways part => Way.update change ways part) (ways run steps).run)
        value
    | _ => noPath value

end

end SampleTypes.Filter
