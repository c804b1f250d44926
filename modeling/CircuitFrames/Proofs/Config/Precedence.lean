import CircuitFrames.Proofs.Circuit.Execution
import CircuitFrames.Proofs.Command.Sessions

/-!
# Where settings come from

A settings file, the environment and the options of a command each give some of the settings
(`Overrides`), and each of them stands over what comes before it. The settings are judged behind every
one of the three. So a setting that makes no sense is refused even where a later source gives another
one, and loading succeeds exactly if no source gives such a setting (`loadConfig_judged`).
-/

namespace CircuitFrames

/-! ### Sources -/

/-- The settings that one source gives. -/
structure Overrides where
  width : Option UInt32
  height : Option UInt32
  editorUrl : Option (Option String)
  labelDetectorCoordinates : Option Bool
deriving DecidableEq, Repr

namespace Overrides

/-- No settings. -/
def nothing : Overrides :=
  ⟨none, none, none, none⟩

/-- The setting under a key, if it is given. A setting that is given twice or cannot be read spoils the
file. -/
def given? {α : Type} (entries : List Config.Entry) (key : String) (read : Yaml.Scalar → Option α) :
    Option (Option α) :=
  match entries.filter (·.1 == key) with
  | [] => some none
  | [(_, value)] => (value.bind read).map some
  | _ => none

/-- The settings that a mapping gives. -/
def ofEntries? (entries : List Config.Entry) : Option Overrides := do
  let width ← given? entries "width" Config.readSize
  let height ← given? entries "height" Config.readSize
  let editorUrl ← given? entries "editor_url" Yaml.Scalar.optional?
  let labels ← given? entries "label_detector_coordinates" Yaml.Scalar.bool?
  return ⟨width, height, editorUrl, labels⟩

/-- The settings that the text of a file gives. -/
def ofYaml? (text : String) : Option Overrides :=
  (Yaml.Document.ofText? text).bind (·.entries?) |>.bind ofEntries?

/-- The settings that variables give: sizes that can be read, and an address, which leaves out the link
if it is empty. -/
def ofEnvironment (lookup : String → Option String) : Overrides where
  width := (lookup "TESSEL_WIDTH").bind Config.size?
  height := (lookup "TESSEL_HEIGHT").bind Config.size?
  editorUrl := (lookup "TESSEL_EDITOR_URL").map fun url => if url.isEmpty then none else some url
  labelDetectorCoordinates := none

/-- The settings that options give. -/
def ofSize (width height : Option UInt32) : Overrides :=
  ⟨width, height, none, none⟩

/-- Whether the settings that are given make sense. -/
structure Valid (l : Overrides) : Prop where
  width : ∀ w ∈ l.width, w ≠ 0
  height : ∀ h ∈ l.height, h ≠ 0
  editorUrl : ∀ address ∈ l.editorUrl, ∀ url ∈ address, Config.isWebAddress url = true

end Overrides

namespace Config

/-- The settings with those of a source over them. -/
def under (c : Config) (l : Overrides) : Config where
  width := l.width.getD c.width
  height := l.height.getD c.height
  editorUrl := l.editorUrl.getD c.editorUrl
  labelDetectorCoordinates := l.labelDetectorCoordinates.getD c.labelDetectorCoordinates

theorem under_nothing (c : Config) : c.under .nothing = c :=
  rfl

theorem setting?_eq {α : Type} (entries : List Entry) (key : String) (read : Yaml.Scalar → Option α)
    (default : α) :
    setting? entries key read default = (Overrides.given? entries key read).map (·.getD default) := by
  unfold setting? Overrides.given?
  generalize entries.filter (·.1 == key) = found
  rcases found with _ | ⟨⟨_, value⟩, _ | ⟨_, _⟩⟩
  · rfl
  · dsimp only
    rw [Option.map_map]
    exact Option.map_id'.symm
  · rfl

theorem ofEntries?_eq (entries : List Entry) :
    ofEntries? entries = (Overrides.ofEntries? entries).map default.under := by
  simp only [ofEntries?, Overrides.ofEntries?, setting?_eq]
  cases Overrides.given? entries "width" readSize <;> try rfl
  cases Overrides.given? entries "height" readSize <;> try rfl
  cases Overrides.given? entries "editor_url" Yaml.Scalar.optional? <;> try rfl
  cases Overrides.given? entries "label_detector_coordinates" Yaml.Scalar.bool? <;> rfl

theorem withEnvironment_eq (c : Config) (lookup : String → Option String) :
    c.withEnvironment lookup = c.under (.ofEnvironment lookup) := by
  unfold withEnvironment under Overrides.ofEnvironment
  cases lookup "TESSEL_EDITOR_URL" <;> rfl

theorem withSize_eq (c : Config) (width height : Option UInt32) :
    c.withSize width height = c.under (.ofSize width height) :=
  rfl

/-! ### Settings that make sense -/

/-- Whether settings make sense: the panel has an area, and the editor an address of the web. -/
structure Valid (c : Config) : Prop where
  width : c.width ≠ 0
  height : c.height ≠ 0
  editorUrl : ∀ url ∈ c.editorUrl, isWebAddress url = true

theorem validate_eq_ok_iff {c settled : Config} :
    c.validate = .ok settled ↔ c.Valid ∧ settled = c := by
  unfold validate
  by_cases hsize : c.width = 0 ∨ c.height = 0
  · rw [if_pos hsize]
    refine ⟨nofun, fun ⟨h, _⟩ => ?_⟩
    rcases hsize with hzero | hzero
    · exact absurd hzero h.width
    · exact absurd hzero h.height
  · rw [if_neg hsize]
    obtain ⟨hwidth, hheight⟩ := not_or.mp hsize
    cases hurl : c.editorUrl with
    | none =>
      have hvalid : c.Valid := ⟨hwidth, hheight, by simp [hurl]⟩
      exact ⟨fun h => ⟨hvalid, (Except.ok.inj h).symm⟩, fun ⟨_, h⟩ => by rw [h]⟩
    | some url =>
      dsimp only
      split
      case isTrue hweb =>
        have hvalid : c.Valid := ⟨hwidth, hheight, by simpa [hurl] using hweb⟩
        exact ⟨fun h => ⟨hvalid, (Except.ok.inj h).symm⟩, fun ⟨_, h⟩ => by rw [h]⟩
      case isFalse hweb =>
        exact ⟨nofun, fun ⟨h, _⟩ => absurd (h.editorUrl url hurl) hweb⟩

theorem validate_eq_ok_self_iff {c : Config} : c.validate = .ok c ↔ c.Valid :=
  validate_eq_ok_iff.trans (and_iff_left rfl)

instance (c : Config) : Decidable c.Valid :=
  decidable_of_iff _ validate_eq_ok_self_iff

theorem valid_default : default.Valid := by
  decide +kernel

theorem valid_under_iff {c : Config} {l : Overrides} (h : c.Valid) : (c.under l).Valid ↔ l.Valid := by
  constructor
  · intro hunder
    constructor
    · rintro w hw
      have := hunder.width
      rwa [under, hw] at this
    · rintro w hw
      have := hunder.height
      rwa [under, hw] at this
    · intro address hgiven
      have := hunder.editorUrl
      rwa [under, hgiven] at this
  · intro hl
    constructor
    · cases hw : l.width with
      | none => rw [under, hw]; exact h.width
      | some w => rw [under, hw]; exact hl.width w hw
    · cases hw : l.height with
      | none => rw [under, hw]; exact h.height
      | some w => rw [under, hw]; exact hl.height w hw
    · cases hgiven : l.editorUrl with
      | none => rw [under, hgiven]; exact h.editorUrl
      | some address => rw [under, hgiven]; exact hl.editorUrl address hgiven

/-! ### Loading -/

theorem ofYaml_eq {text : String} {l : Overrides} (h : Overrides.ofYaml? text = some l) :
    ofYaml text = (default.under l).validate := by
  obtain ⟨entries, hentries, h⟩ := Option.bind_eq_some_iff.mp h
  have hread : ((Yaml.Document.ofText? text).bind (·.entries?)).bind ofEntries? =
      some (default.under l) := by
    rw [hentries, Option.bind_some, ofEntries?_eq, h, Option.map_some]
  rw [ofYaml, hread]

/-- What a settings file gives; if there is none, nothing. -/
def overrides? : Option String → Option Overrides
  | none => some .nothing
  | some text => Overrides.ofYaml? text

/-- The settings are judged behind each of the three sources. -/
theorem load_eq {file : Option String} {l : Overrides} (h : overrides? file = some l)
    (lookup : String → Option String) (width height : Option UInt32) :
    load file lookup width height =
      (default.under l).validate >>= fun c => (c.under (.ofEnvironment lookup)).validate >>= fun c =>
        (c.under (.ofSize width height)).validate := by
  unfold load
  simp only [withEnvironment_eq, withSize_eq]
  cases file with
  | none =>
    obtain rfl := Option.some.inj h
    rw [under_nothing, validate_eq_ok_self_iff.mpr valid_default]
  | some text =>
    dsimp only
    rw [ofYaml_eq h]

end Config

/-! ### The settings of a run -/

/-- Whether the settings file of a run, if there is one, can be read and gives certain settings. -/
def Directory.Gives (d : Directory) (config : Option String) (l : Overrides) : Prop :=
  ∃ file, config.mapM d.read = .ok file ∧ Config.overrides? file = some l

theorem configFor_eq {d : Directory} {environment : List (String × String)} {o : RenderOptions}
    {l : Overrides} (h : d.Gives o.config l) :
    d.configFor environment o = ((Config.default.under l).validate >>= fun c =>
      (c.under (.ofEnvironment (environment.lookup ·))).validate >>= fun c =>
        (c.under (.ofSize o.width o.height)).validate).mapError .config := by
  obtain ⟨file, hfile, hgiven⟩ := h
  have hread : o.config.mapM (fun path =>
      (d.read path).mapError fun e => CommandError.config (.unreadable path e.text)) = .ok file := by
    cases hconfig : o.config with
    | none =>
      rw [hconfig] at hfile
      cases hfile
      rfl
    | some path =>
      rw [hconfig, Option.mapM_some] at hfile
      rw [Option.mapM_some]
      cases hpath : d.read path with
      | error e =>
        rw [hpath] at hfile
        cases hfile
      | ok text =>
        rw [hpath] at hfile
        cases hfile
        rfl
  unfold Directory.configFor
  rw [hread, ← Config.load_eq hgiven]
  rfl

/-- **The settings are judged source by source.** The settings of a run are those of the file over the
default, then those of the variables, then those of the options. Loading succeeds if the settings make
sense behind each of the three, which means that no source gives a setting that makes none, and fails
at the first source behind which they do not. -/
theorem loadConfig_judged (environment : List (String × String)) (o : RenderOptions) (s : Session)
    {file : Overrides} (h : s.directory.Gives o.config file) :
    let exported := Overrides.ofEnvironment (environment.lookup ·)
    let options := Overrides.ofSize o.width o.height
    let given := Config.default.under file
    let merged := given.under exported
    let final := merged.under options
    let answer := ((loadConfig (Directory.host environment) o).run.run s).1
    (∀ c, answer = .ok c ↔ (given.Valid ∧ merged.Valid ∧ final.Valid) ∧ c = final) ∧
      (∀ e, answer = .error (.config e) ↔ given.validate = .error e ∨ given.Valid ∧
        (merged.validate = .error e ∨ merged.Valid ∧ final.validate = .error e)) ∧
      (given.Valid ∧ merged.Valid ∧ final.Valid ↔ file.Valid ∧ exported.Valid ∧ options.Valid) := by
  intro exported options given merged final answer
  let judged := given.validate >>= fun c => (c.under exported).validate >>= fun c =>
    (c.under options).validate
  have hanswer : answer = judged.mapError .config := by
    have hruns : Runs (loadConfig (Directory.host environment) o) s.directory
        (s.directory.configFor environment o, s.directory) := runs_loadConfig o
    obtain ⟨printed, hrun⟩ := hruns s.printed
    rw [configFor_eq h] at hrun
    exact congrArg Prod.fst hrun
  refine ⟨fun c => ?_, fun e => ?_, ?_⟩
  · rw [hanswer, mapError_eq_ok]
    simp only [judged, bind_eq_ok, Config.validate_eq_ok_iff, and_assoc, exists_and_left,
      exists_eq_left]
    rfl
  · rw [hanswer, mapError_eq_error]
    simp only [CommandError.config.injEq, exists_eq_right]
    simp only [judged, bind_eq_error, Config.validate_eq_ok_iff, and_assoc, exists_and_left,
      exists_eq_left]
    rfl
  · constructor
    · rintro ⟨hgiven, hmerged, hfinal⟩
      exact ⟨(Config.valid_under_iff Config.valid_default).mp hgiven,
        (Config.valid_under_iff hgiven).mp hmerged, (Config.valid_under_iff hmerged).mp hfinal⟩
    · rintro ⟨hfile, hexported, hoptions⟩
      have hgiven : given.Valid := (Config.valid_under_iff Config.valid_default).mpr hfile
      have hmerged : merged.Valid := (Config.valid_under_iff hgiven).mpr hexported
      exact ⟨hgiven, hmerged, (Config.valid_under_iff hmerged).mpr hoptions⟩

/-- A file that gives a width, a variable with the height, and an option with another width. -/
theorem loadConfig_judged_three_sources :
    let s : Session := ⟨⟨[(["c.yaml"], "width: 700\n")]⟩, []⟩
    let environment := [("TESSEL_HEIGHT", "300")]
    let o : RenderOptions := ⟨"a.stim", none, some "c.yaml", none, some 800, none⟩
    s.directory.Gives o.config ⟨some 700, none, none, none⟩ ∧
      ((loadConfig (Directory.host environment) o).run.run s).1 =
        .ok ⟨800, 300, some Config.defaultEditorUrl, false⟩ := by
  intro s environment o
  have hgives : s.directory.Gives o.config ⟨some 700, none, none, none⟩ :=
    ⟨some "width: 700\n", rfl, by decide +kernel⟩
  refine ⟨hgives, ((loadConfig_judged environment o s hgives).1 _).mpr ⟨?_, ?_⟩⟩
  · decide +kernel
  · decide +kernel

/-- A width in a file that an option stands over is refused all the same. -/
theorem overridden_width_refused :
    let s : Session := ⟨⟨[(["c.yaml"], "width: 0\n")]⟩, []⟩
    let o : RenderOptions := ⟨"a.stim", none, some "c.yaml", none, some 800, none⟩
    let environment : List (String × String) := []
    let file : Overrides := ⟨some 0, none, none, none⟩
    s.directory.Gives o.config file ∧
      (((Config.default.under file).under (.ofEnvironment (environment.lookup ·))).under
        (.ofSize o.width o.height)).Valid ∧
      ((loadConfig (Directory.host environment) o).run.run s).1 =
        .error (.config (.emptyPanel 0 500)) := by
  intro s o environment file
  refine ⟨⟨some "width: 0\n", rfl, by decide +kernel⟩, ?_, ?_⟩
  · decide +kernel
  · decide +kernel

end CircuitFrames
