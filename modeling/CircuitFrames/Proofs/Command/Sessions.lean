import CircuitFrames.Command.Directory

/-!
# Commands in a session

`Runs x d r d'` says what the command `x` does on a directory in memory: on `d` it answers `r` and
leaves `d'`, whatever has been printed before. A command runs as its parts do one after another, up to
the first that fails. So what a rendering answers and leaves is a function of the directory
(`runs_render`).
-/

namespace CircuitFrames

/-- A command in a session. -/
abbrev SessionM : Type → Type :=
  ExceptT CommandError (StateM Session)

/-- What a command answers on a directory, and which directory it leaves. -/
def Runs {α : Type} (x : SessionM α) (d : Directory) (q : Except CommandError α × Directory) : Prop :=
  ∀ printed, ∃ printed', x.run.run ⟨d, printed⟩ = (q.1, ⟨q.2, printed'⟩)

namespace Runs

variable {α β : Type} {x : SessionM α} {f : α → SessionM β} {d d' : Directory} {e : CommandError}

theorem pure (a : α) (d : Directory) : Runs (Pure.pure a : SessionM α) d (.ok a, d) :=
  fun printed => ⟨printed, rfl⟩

theorem throw (e : CommandError) (d : Directory) :
    Runs (MonadExcept.throw e : SessionM α) d (.error e, d) :=
  fun printed => ⟨printed, rfl⟩

theorem bind_ok {a : α} {q : Except CommandError β × Directory} (hx : Runs x d (.ok a, d'))
    (hf : Runs (f a) d' q) : Runs (x >>= f) d q := by
  intro printed
  obtain ⟨printed', hx⟩ := hx printed
  obtain ⟨printed'', hf⟩ := hf printed'
  refine ⟨printed'', ?_⟩
  rw [ExceptT.run_bind, StateT.run_bind, hx]
  exact hf

theorem bind_error (hx : Runs x d (.error e, d')) : Runs (x >>= f) d (.error e, d') := by
  intro printed
  obtain ⟨printed', hx⟩ := hx printed
  refine ⟨printed', ?_⟩
  rw [ExceptT.run_bind, StateT.run_bind, hx]
  rfl

section

variable (environment : List (String × String)) (path name line : String) (d : Directory)

theorem printLine : Runs ((Directory.host environment).printLine line : SessionM Unit) d (.ok (), d) :=
  fun printed => ⟨printed ++ [line], rfl⟩

theorem isThere :
    Runs ((Directory.host environment).isThere path : SessionM Bool) d (.ok (d.isThere path), d) :=
  fun printed => ⟨printed, rfl⟩

theorem readFile :
    Runs ((Directory.host environment).readFile path : SessionM (Except SystemError String)) d
      (.ok (d.read path), d) :=
  fun printed => ⟨printed, rfl⟩

theorem getVariable :
    Runs ((Directory.host environment).getVariable name : SessionM (Option String)) d
      (.ok (environment.lookup name), d) :=
  fun printed => ⟨printed, rfl⟩

theorem writeFile (text : String) :
    Runs ((Directory.host environment).writeFile path text : SessionM (Except SystemError Unit)) d
      (.ok ((d.write path text).map fun _ => ()), (d.write path text).toOption.getD d) := by
  intro printed
  have hrun : ((Directory.host environment).writeFile path text).run ⟨d, printed⟩ =
      ((d.write path text).map fun _ => (), ⟨(d.write path text).toOption.getD d, printed⟩) := by
    simp only [Directory.host, StateT.run_bind, StateT.run_get, pure_bind]
    cases d.write path text <;> rfl
  refine ⟨printed, ?_⟩
  rw [ExceptT.run_liftM, StateT.run_map, hrun]
  rfl

end

end Runs

namespace Directory

/-! ### What is read -/

/-- The circuit in a file. -/
def circuitAt (d : Directory) (path : String) : Except CommandError Circuit :=
  if d.isThere path then
    (d.read path).mapError (.unreadable path) >>= fun source => (Text.parse source).mapError .parse
  else .error (.noInput path)

/-- The settings of a run. -/
def configFor (d : Directory) (environment : List (String × String)) (o : RenderOptions) :
    Except CommandError Config := do
  let file ← o.config.mapM fun path =>
    (d.read path).mapError fun e => .config (.unreadable path e.text)
  (Config.load file (environment.lookup ·) o.width o.height).mapError .config

/-- The fault mechanism in a file. -/
def faultAt (d : Directory) (path : String) : Except CommandError FaultMechanism := do
  let text ← (d.read path).mapError (.unreadable path)
  match FaultMechanism.ofJsonText? text with
  | none => .error (.invalidFault path)
  | some mechanism => .ok mechanism

/-- The page that a run writes. -/
def pageFor (d : Directory) (environment : List (String × String)) (o : RenderOptions) :
    Except CommandError String := do
  let circuit ← d.circuitAt o.input
  let config ← d.configFor environment o
  let fault ← o.fault.mapM d.faultAt
  let rendering ← (render config circuit fault none).mapError (.render o.input)
  return rendering.diagram.page config

end Directory

variable {environment : List (String × String)} {d : Directory}

theorem runs_loadCircuit (path : String) :
    Runs (loadCircuit (Directory.host environment) path) d (d.circuitAt path, d) := by
  refine .bind_ok (.isThere environment path d) ?_
  unfold Directory.circuitAt
  split
  case isFalse => exact .throw _ d
  case isTrue =>
    refine .bind_ok (.readFile environment path d) ?_
    cases d.read path with
    | error e => exact .throw _ d
    | ok source =>
      change Runs _ d ((Text.parse source).mapError .parse, d)
      dsimp only
      cases Text.parse source with
      | error e => exact .throw _ d
      | ok c => exact .pure c d

theorem runs_variables (names : List String) :
    Runs (names.mapM fun name => return (name, ← (Directory.host environment).getVariable name)) d
      (.ok (names.map fun name => (name, environment.lookup name)), d) := by
  induction names with
  | nil => exact .pure [] d
  | cons name names ih =>
    rw [List.mapM_cons]
    exact .bind_ok (.bind_ok (.getVariable environment name d) (.pure _ d)) (.bind_ok ih (.pure _ d))

theorem runs_settings (o : RenderOptions) (file : Option String) :
    Runs (do
      let values ← ["TESSEL_WIDTH", "TESSEL_HEIGHT", "TESSEL_EDITOR_URL"].mapM fun name =>
        return (name, ← (Directory.host environment).getVariable name)
      match Config.load file (fun name => (values.lookup name).join) o.width o.height with
      | .error e => throw (.config e)
      | .ok config => return config) d
      ((Config.load file (environment.lookup ·) o.width o.height).mapError .config, d) := by
  refine .bind_ok (runs_variables _) ?_
  have hload : Config.load file (fun name => ((["TESSEL_WIDTH", "TESSEL_HEIGHT",
      "TESSEL_EDITOR_URL"].map fun name => (name, environment.lookup name)).lookup name).join)
      o.width o.height = Config.load file (environment.lookup ·) o.width o.height := by
    simp [Config.load, Config.withEnvironment, List.lookup_cons]
  rw [hload]
  cases Config.load file (environment.lookup ·) o.width o.height with
  | error e => exact .throw _ d
  | ok config => exact .pure config d

theorem runs_loadConfig (o : RenderOptions) :
    Runs (loadConfig (Directory.host environment) o) d (d.configFor environment o, d) := by
  unfold loadConfig Directory.configFor
  cases o.config with
  | none => exact .bind_ok (.pure none d) (runs_settings o none)
  | some path =>
    refine .bind_ok (.readFile environment path d) ?_
    change Runs _ d ((some <$> (d.read path).mapError _) >>= _, d)
    cases d.read path with
    | error e => exact .bind_error (.throw _ d)
    | ok text => exact .bind_ok (.pure (some text) d) (runs_settings o (some text))

theorem runs_loadFault (path : String) :
    Runs (loadFault (Directory.host environment) path) d (d.faultAt path, d) := by
  refine .bind_ok (.readFile environment path d) ?_
  unfold Directory.faultAt
  cases d.read path with
  | error e => exact .throw _ d
  | ok text =>
    change Runs _ d (match FaultMechanism.ofJsonText? text with
      | none => .error (.invalidFault path)
      | some mechanism => .ok mechanism, d)
    dsimp only
    cases FaultMechanism.ofJsonText? text with
    | none => exact .throw _ d
    | some mechanism => exact .pure mechanism d

/-! ### What is written -/

namespace Directory

/-- What a run answers and leaves that has come to a page, or has failed before. -/
def written (d : Directory) (output : String) :
    Except CommandError String → Except CommandError Unit × Directory
  | .error e => (.error e, d)
  | .ok page =>
    match d.write output page with
    | .error e => (.error (.unwritable output e), d)
    | .ok d' => (.ok (), d')

end Directory

theorem Runs.bind_written {α : Type} {x : SessionM α} {f : α → SessionM Unit} {output : String}
    {r : Except CommandError α} {g : α → Except CommandError String} (hx : Runs x d (r, d))
    (hf : ∀ a, Runs (f a) d (d.written output (g a))) :
    Runs (x >>= f) d (d.written output (r >>= g)) := by
  cases r with
  | ok a => exact hx.bind_ok (hf a)
  | error e => exact hx.bind_error

theorem runs_page (o : RenderOptions) (circuit : Circuit) (config : Config)
    (fault : Option FaultMechanism) (output : String) :
    Runs (match render config circuit fault none with
      | .error e => throw (.render o.input e)
      | .ok rendering => do
        match ← (Directory.host environment).writeFile output (rendering.diagram.page config) with
        | .error e => throw (.unwritable output e)
        | .ok () =>
          (Directory.host environment).printLine
            ("✓ Rendered " ++ toString rendering.diagram.frames.length ++ " layers")
          (Directory.host environment).printLine ("  Output: " ++ output)) d
      (d.written output do
        let rendering ← (render config circuit fault none).mapError (.render o.input)
        return rendering.diagram.page config) := by
  cases render config circuit fault none with
  | error e => exact .throw _ d
  | ok rendering =>
    refine .bind_ok (.writeFile environment output d _) ?_
    change Runs _ _ (d.written output (.ok (rendering.diagram.page config)))
    unfold Directory.written
    dsimp only
    cases d.write output (rendering.diagram.page config) with
    | error e => exact .throw _ d
    | ok d' => exact .bind_ok (.printLine environment _ d') (.printLine environment _ d')

/-- **What a rendering does.** Only the page is written, and only once there is one. -/
theorem runs_render (o : RenderOptions) :
    Runs (runRender (Directory.host environment) o) d
      (d.written (o.output.getD (defaultOutput o.input)) (d.pageFor environment o)) := by
  unfold runRender Directory.pageFor
  refine .bind_ok (.printLine environment _ d) ?_
  refine .bind_written (runs_loadCircuit o.input) fun circuit => ?_
  refine .bind_ok (.printLine environment _ d) ?_
  refine .bind_written (runs_loadConfig o) fun config => ?_
  cases o.fault with
  | none => exact .bind_ok (.pure none d) (runs_page o circuit config none _)
  | some path =>
    have hfault (g : Option FaultMechanism → Except CommandError String) :
        (some path).mapM d.faultAt >>= g = d.faultAt path >>= fun mechanism => g (some mechanism) := by
      rw [Option.mapM_some]
      cases d.faultAt path <;> rfl
    rw [hfault]
    refine .bind_written (runs_loadFault path) fun mechanism => ?_
    exact .bind_ok (.printLine environment _ d)
      (.bind_ok (.pure (some mechanism) d) (runs_page o circuit config (some mechanism) _))

/-- How a run ends that answers this. -/
def Outcome.ofAnswer : Except CommandError Unit → Outcome
  | .ok () => .success
  | .error e => .failure e

theorem runProgram_render {arguments : List String} {o : RenderOptions}
    (h : Invocation.parse? arguments = some (.render o)) :
    let q := d.written (o.output.getD (defaultOutput o.input)) (d.pageFor environment o)
    (d.runProgram environment arguments).1 = .ofAnswer q.1 ∧
      (d.runProgram environment arguments).2.directory = q.2 := by
  intro q
  have hruns : Runs (runRender (Directory.host environment) o) d q := runs_render o
  obtain ⟨printed, hrun⟩ := hruns []
  have hanswer : d.runProgram environment arguments = (.ofAnswer q.1, ⟨q.2, printed⟩) := by
    unfold Directory.runProgram CircuitFrames.runProgram
    rw [h]
    dsimp only [CircuitFrames.run]
    rw [StateT.run_bind, hrun]
    change StateT.run (match q.1 with
      | .ok () => return Outcome.success
      | .error e => return Outcome.failure e) _ = _
    cases q.1 <;> rfl
  rw [hanswer]
  exact ⟨rfl, rfl⟩

end CircuitFrames
