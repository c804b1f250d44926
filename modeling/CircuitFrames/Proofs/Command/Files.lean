import CircuitFrames.Proofs.Circuit.Execution
import CircuitFrames.Proofs.Command.Sessions
import CircuitFrames.Proofs.Text.Cutting
import CircuitFrames.Proofs.Text.Reading

/-!
# The files of a rendering

A text put at a place of a directory changes nothing about the other files that can be read
(`Directory.read_put_of_ne`), so a rendering leaves the files that it reads as they are unless one of them is
where the page goes. That is so for a circuit file with the extension of a page: the page is named
after it, and replaces it (`inputs_kept_unless_replaced`).
-/

namespace CircuitFrames

/-! ### The name of a page -/

section

variable {directory name old : List Char}

theorem Path.splitName_append {rest : List Char}
    (hdirectory : directory = [] ∨ directory.getLast? = some '/') (hrest : '/' ∉ rest) :
    Path.splitName (directory ++ rest) = (directory, rest) := by
  have hname : (directory ++ rest).reverse.takeWhile (· != '/') = rest.reverse := by
    rw [List.reverse_append]
    refine Numeral.takeWhile_append_of_head (fun c hc => ?_) fun c hc => ?_
    · rw [bne_iff_ne]
      rintro rfl
      exact hrest (List.mem_reverse.mp hc)
    · rcases hdirectory with rfl | hlast
      · cases hc
      · rw [List.head?_reverse, hlast] at hc
        cases hc
        rfl
  unfold Path.splitName
  rw [hname, List.reverse_reverse]
  simp

theorem Path.stem_append (hold : '.' ∉ old) (hname : name ≠ []) :
    Path.stem (name ++ '.' :: old) = name := by
  have hdrop : (name ++ '.' :: old).reverse.dropWhile (· != '.') = '.' :: name.reverse := by
    rw [List.reverse_append, List.reverse_cons, List.append_assoc]
    refine Numeral.dropWhile_append_of_head (fun c hc => ?_) fun c hc => ?_
    · rw [bne_iff_ne]
      rintro rfl
      exact hold (List.mem_reverse.mp hc)
    · cases hc
      rfl
  unfold Path.stem
  rw [hdrop, List.drop_one, List.tail_cons]
  split
  next h => exact absurd (List.reverse_eq_nil_iff.mp h) hname
  next => exact List.reverse_reverse name

theorem Path.withExtension_append (hdirectory : directory = [] ∨ directory.getLast? = some '/')
    (hname : '/' ∉ name ++ '.' :: old) (hold : '.' ∉ old) (hne : name ≠ []) (hdots : name ≠ ['.'])
    (new : String) :
    Path.withExtension (.ofList (directory ++ (name ++ '.' :: old))) new =
      .ofList (directory ++ (name ++ '.' :: new.toList)) := by
  unfold Path.withExtension
  rw [String.toList_ofList, Path.splitName_append hdirectory hname]
  dsimp only
  rw [Path.stem_append hold hne, if_neg hdots]
  simp

end

/-- A path to a name with an extension, which is what stands behind the last dot. A dot at the beginning
of the name does not count, and neither do two. -/
def Path.HasExtension (path extension : String) : Prop :=
  ∃ directory name : List Char, (directory = [] ∨ directory.getLast? = some '/') ∧
    '/' ∉ name ++ '.' :: extension.toList ∧ '.' ∉ extension.toList ∧ name ≠ [] ∧ name ≠ ['.'] ∧
    path = .ofList (directory ++ (name ++ '.' :: extension.toList))

theorem defaultOutput_eq_self_iff {path extension : String} (h : Path.HasExtension path extension) :
    defaultOutput path = path ↔ extension = "html" := by
  obtain ⟨directory, name, hdirectory, hname, hold, hne, hdots, rfl⟩ := h
  rw [defaultOutput, Path.withExtension_append hdirectory hname hold hne hdots, String.ofList_inj,
    ← String.toList_inj]
  simp [eq_comm]

namespace Directory

/-! ### Writing a file -/

variable {d d' : Directory} {place other : Place} {path text : String}

theorem write_eq_ok (h : d.write path text = .ok d') :
    (∃ place, d.resolve path = .ok (.below place) ∧ d.isDirectory place = false ∧
      d' = d.put place text) ∨ d' = d ∧ ∀ place, d.resolve path ≠ .ok (.below place) := by
  obtain ⟨parts, hparts, h⟩ := bind_eq_ok.mp h
  have hresolve : d.resolve path = d.follow parts := by
    unfold resolve
    rw [hparts]
    rfl
  rw [hresolve]
  dsimp only at h
  split at h
  case isTrue =>
    -- a path with a slash at its end names a directory, and none is written
    obtain ⟨_, _, h⟩ := bind_eq_ok.mp h
    cases h
  case isFalse =>
    obtain ⟨there, hthere, h⟩ := bind_eq_ok.mp h
    rw [hthere]
    cases there with
    | below place =>
      dsimp only at h
      split at h
      case isTrue => cases h
      case isFalse hdirectory =>
        exact .inl ⟨place, rfl, by simpa using hdirectory, (Except.ok.inj h).symm⟩
    | around => cases h
    | root => cases h
    | devices => cases h
    | outside => exact .inr ⟨(Except.ok.inj h).symm, nofun⟩
    | nullDevice => exact .inr ⟨(Except.ok.inj h).symm, nofun⟩

theorem text?_put_self (d : Directory) (place : Place) (text : String) :
    (d.put place text).text? place = some text := by
  simp [text?, put]

theorem text?_put_of_ne (h : other ≠ place) : (d.put place text).text? other = d.text? other := by
  have hne : (other == place) = false := by simpa using h
  have hfiles (files : List (Place × String)) :
      (files.filter (·.1 != place)).lookup other = files.lookup other := by
    induction files with
    | nil => rfl
    | cons file files ih =>
      obtain ⟨name, content⟩ := file
      by_cases hname : name = place
      · subst hname
        simpa [List.lookup_cons, hne] using ih
      · simp [hname, List.lookup_cons, ih]
  simp only [text?, put, List.lookup_cons, hne, hfiles]

theorem isDirectory_put (h : d.isDirectory other = true) :
    (d.put place text).isDirectory other = true := by
  simp only [isDirectory, put, Bool.or_eq_true, List.any_eq_true, Prod.exists] at h ⊢
  refine h.imp_right fun ⟨name, content, hmem, hbelow⟩ => ?_
  by_cases hname : name = place
  · exact ⟨place, text, List.mem_cons_self, hname ▸ hbelow⟩
  · exact ⟨name, content, List.mem_cons_of_mem _ (List.mem_filter.mpr ⟨hmem, by simpa using hname⟩),
      hbelow⟩

theorem step_put (hplace : d.isDirectory place = false) {part : String} {here there : Destination}
    (h : d.step part here = .ok there) : (d.put place text).step part here = .ok there := by
  cases here with
  | below other =>
    simp only [step] at h ⊢
    by_cases htext : (d.text? other).isSome
    · rw [if_pos htext] at h
      cases h
    · rw [if_neg htext] at h
      by_cases hdirectory : d.isDirectory other = true
      · have hne : other ≠ place := by
          rintro rfl
          rw [hplace] at hdirectory
          cases hdirectory
        rw [hdirectory] at h
        rw [text?_put_of_ne hne, if_neg htext, isDirectory_put hdirectory]
        exact h
      · rw [if_pos (by simpa using hdirectory)] at h
        cases h
  | around => exact h
  | root => exact h
  | devices => exact h
  | outside => exact h
  | nullDevice => exact h

theorem follow_put (hplace : d.isDirectory place = false) {parts : List String}
    {there : Destination} (h : d.follow parts = .ok there) :
    (d.put place text).follow parts = .ok there := by
  have hparts (more : List String) : ∀ here, more.foldlM (fun place part => d.step part place) here =
      .ok there → more.foldlM (fun other part => (d.put place text).step part other) here =
        .ok there := by
    induction more with
    | nil => exact fun here h => h
    | cons part more ih =>
      intro here h
      rw [List.foldlM_cons] at h ⊢
      obtain ⟨next, hnext, h⟩ := bind_eq_ok.mp h
      exact bind_eq_ok.mpr ⟨next, step_put hplace hnext, ih next h⟩
  exact hparts parts _ h

theorem resolve_put (hplace : d.isDirectory place = false) {there : Destination}
    (h : d.resolve path = .ok there) : (d.put place text).resolve path = .ok there := by
  obtain ⟨parts, hparts, h⟩ := bind_eq_ok.mp h
  exact bind_eq_ok.mpr ⟨parts, hparts, follow_put hplace h⟩

/-- **A text at another place is not seen** by who reads a file. -/
theorem read_put_of_ne (hplace : d.isDirectory place = false) {content : String}
    (h : d.read path = .ok content) (hne : d.resolve path ≠ .ok (.below place)) :
    (d.put place text).read path = .ok content := by
  obtain ⟨there, hthere, h⟩ := bind_eq_ok.mp h
  refine bind_eq_ok.mpr ⟨there, resolve_put hplace hthere, ?_⟩
  cases there with
  | below other =>
    have hother : other ≠ place := by
      rintro rfl
      exact hne hthere
    dsimp only at h ⊢
    rw [text?_put_of_ne hother]
    cases hcontent : d.text? other with
    | none =>
      rw [hcontent] at h
      cases h
    | some found =>
      rw [hcontent] at h
      exact h
  | around => exact h
  | root => exact h
  | devices => exact h
  | outside => exact h
  | nullDevice => exact h

theorem read_put_self (hplace : d.isDirectory place = false)
    (h : d.resolve path = .ok (.below place)) : (d.put place text).read path = .ok text := by
  refine bind_eq_ok.mpr ⟨.below place, resolve_put hplace h, ?_⟩
  dsimp only
  rw [text?_put_self]

/-- Whether two paths lead to the same place of a directory. -/
def SamePlace (d : Directory) (path other : String) : Prop :=
  ∃ place, d.resolve path = .ok (.below place) ∧ d.resolve other = .ok (.below place)

variable {output content : String}

theorem text?_write (h : d.write output text = .ok d') (hchanged : d'.text? place ≠ d.text? place) :
    d.resolve output = .ok (.below place) := by
  rcases write_eq_ok h with ⟨written, hwritten, _, rfl⟩ | ⟨rfl, _⟩
  · by_contra hne
    have hplace : place ≠ written := by
      rintro rfl
      exact hne hwritten
    exact hchanged (text?_put_of_ne hplace)
  · exact absurd rfl hchanged

theorem read_write_of_not_samePlace (h : d.write output text = .ok d')
    (hread : d.read path = .ok content) (hplace : ¬ d.SamePlace path output) :
    d'.read path = .ok content := by
  rcases write_eq_ok h with ⟨place, hwritten, hdirectory, rfl⟩ | ⟨rfl, _⟩
  · exact read_put_of_ne hdirectory hread fun hpath => hplace ⟨place, hpath, hwritten⟩
  · exact hread

theorem read_write_of_samePlace (h : d.write output text = .ok d')
    (hplace : d.SamePlace path output) : d'.read path = .ok text := by
  obtain ⟨place, hpath, houtput⟩ := hplace
  rcases write_eq_ok h with ⟨written, hwritten, hdirectory, rfl⟩ | ⟨rfl, hnowhere⟩
  · obtain rfl : written = place := by
      rw [hwritten] at houtput
      cases houtput
      rfl
    exact read_put_self hdirectory hpath
  · exact absurd houtput (hnowhere place)

end Directory

/-! ### What a rendering reads -/

/-- Whether a run reads the file at a path. -/
def RenderOptions.Reads (o : RenderOptions) (path : String) : Prop :=
  path = o.input ∨ o.config = some path ∨ o.fault = some path

namespace Directory

variable {d d' : Directory} {environment : List (String × String)} {o : RenderOptions}
  {path page : String}

theorem exists_read_of_circuitAt {c : Circuit} (h : d.circuitAt path = .ok c) :
    ∃ source, d.read path = .ok source ∧ Text.parse source = .ok c := by
  unfold circuitAt at h
  split at h
  case isTrue =>
    obtain ⟨source, hread, hparse⟩ := bind_eq_ok.mp h
    exact ⟨source, mapError_eq_ok.mp hread, mapError_eq_ok.mp hparse⟩
  case isFalse => cases h

theorem exists_read_of_configFor {config : Config} (h : d.configFor environment o = .ok config)
    (hpath : o.config = some path) : ∃ text, d.read path = .ok text := by
  obtain ⟨file, hfile, _⟩ := bind_eq_ok.mp h
  rw [hpath, Option.mapM_some] at hfile
  obtain ⟨text, hread, _⟩ := bind_eq_ok.mp hfile
  exact ⟨text, mapError_eq_ok.mp hread⟩

theorem exists_read_of_faultAt {fault : FaultMechanism} (h : d.faultAt path = .ok fault) :
    ∃ text, d.read path = .ok text := by
  obtain ⟨text, hread, _⟩ := bind_eq_ok.mp h
  exact ⟨text, mapError_eq_ok.mp hread⟩

theorem exists_read_of_pageFor (h : d.pageFor environment o = .ok page) (hpath : o.Reads path) :
    ∃ text, d.read path = .ok text := by
  obtain ⟨c, hcircuit, h⟩ := bind_eq_ok.mp h
  obtain ⟨config, hconfig, h⟩ := bind_eq_ok.mp h
  obtain ⟨fault, hfault, h⟩ := bind_eq_ok.mp h
  rcases hpath with rfl | hpath | hpath
  · obtain ⟨source, hread, _⟩ := exists_read_of_circuitAt hcircuit
    exact ⟨source, hread⟩
  · exact exists_read_of_configFor hconfig hpath
  · rw [hpath, Option.mapM_some] at hfault
    obtain ⟨mechanism, hmechanism, _⟩ := bind_eq_ok.mp hfault
    exact exists_read_of_faultAt hmechanism

theorem parse_page (diagram : Diagram) (config : Config) (c : Circuit) :
    Text.parse (diagram.page config) ≠ .ok c := by
  -- a page starts with what no token starts with
  intro h
  obtain ⟨ts, _, _, hscan, _⟩ := Text.parse_eq_ok_iff.mp h
  have hcontrols : Page.controls.toList.head? = some '<' := by decide +kernel
  have hhead : (diagram.page config).toList.head? = some '<' := by
    unfold Diagram.page
    simp only [String.toList_append, List.append_assoc, List.head?_append, hcontrols, Option.some_or]
  obtain ⟨rest, hrest⟩ := List.head?_eq_some_iff.mp hhead
  rw [← Text.scanned_eq_some_iff, hrest, Text.scanned_unreadable rfl (by decide) rfl] at hscan
  cases hscan

/-- The page of a circuit is no circuit, so it is not the text that was read. -/
theorem page_ne_source {source : String} (h : d.pageFor environment o = .ok page)
    (hread : d.read o.input = .ok source) : page ≠ source := by
  rintro rfl
  obtain ⟨c, hcircuit, h⟩ := bind_eq_ok.mp h
  obtain ⟨config, hconfig, h⟩ := bind_eq_ok.mp h
  obtain ⟨fault, hfault, h⟩ := bind_eq_ok.mp h
  obtain ⟨rendering, _, h⟩ := bind_eq_ok.mp h
  obtain rfl := Except.ok.inj h
  obtain ⟨source, hsource, hparse⟩ := exists_read_of_circuitAt hcircuit
  rw [hread] at hsource
  obtain rfl := Except.ok.inj hsource
  exact parse_page rendering.diagram config c hparse

theorem written_cases (d : Directory) (environment : List (String × String)) (o : RenderOptions)
    (output : String) :
    (∃ e, d.written output (d.pageFor environment o) = (.error e, d)) ∨
      ∃ page d', d.pageFor environment o = .ok page ∧ d.write output page = .ok d' ∧
        d.written output (d.pageFor environment o) = (.ok (), d') := by
  cases hpage : d.pageFor environment o with
  | error e => exact .inl ⟨e, rfl⟩
  | ok page =>
    cases hwrite : d.write output page with
    | error e => exact .inl ⟨.unwritable output e, by rw [written, hwrite]⟩
    | ok d' => exact .inr ⟨page, d', rfl, hwrite, by rw [written, hwrite]⟩

end Directory

/-- **A rendering changes one file, and that one can be the circuit.** Where no page is named, a run that
fails leaves the directory as it is, and one that succeeds puts the page at the place that is named after
the circuit file, and changes no other file. So what the run has read is still there unless it is at that
place, and the circuit is replaced exactly if it is. The page has the name of the circuit file itself if
that has the extension of a page. -/
theorem inputs_kept_unless_replaced (d : Directory) (environment : List (String × String))
    {arguments : List String} {o : RenderOptions} (hrender : Invocation.parse? arguments = some (.render o))
    (houtput : o.output = none) :
    let outcome := (d.runProgram environment arguments).1
    let after := (d.runProgram environment arguments).2.directory
    (outcome ≠ .success → after = d) ∧
      (outcome = .success → ∃ page, d.pageFor environment o = .ok page ∧
        d.write (defaultOutput o.input) page = .ok after) ∧
      (∀ place, after.text? place ≠ d.text? place →
        outcome = .success ∧ d.resolve (defaultOutput o.input) = .ok (.below place)) ∧
      (∀ path, o.Reads path → after.read path ≠ d.read path →
        outcome = .success ∧ d.SamePlace path (defaultOutput o.input)) ∧
      (after.read o.input ≠ d.read o.input ↔
        outcome = .success ∧ d.SamePlace o.input (defaultOutput o.input)) ∧
      ∀ extension, Path.HasExtension o.input extension →
        (defaultOutput o.input = o.input ↔ extension = "html") := by
  intro outcome after
  obtain ⟨houtcome, hafter⟩ : outcome = .ofAnswer
      (d.written (o.output.getD (defaultOutput o.input)) (d.pageFor environment o)).1 ∧
      after = (d.written (o.output.getD (defaultOutput o.input)) (d.pageFor environment o)).2 :=
    runProgram_render hrender
  rw [houtput, Option.getD_none] at houtcome hafter
  rcases d.written_cases environment o (defaultOutput o.input) with
    ⟨e, hwritten⟩ | ⟨page, d', hpage, hwrite, hwritten⟩
  · rw [hwritten] at houtcome hafter
    have hfailed : outcome ≠ .success := by
      rw [houtcome]
      exact nofun
    refine ⟨fun _ => hafter, fun h => absurd h hfailed, fun place h => ?_, fun path _ h => ?_, ?_,
      fun _ => defaultOutput_eq_self_iff⟩
    · exact absurd (by rw [hafter]) h
    · exact absurd (by rw [hafter]) h
    · exact ⟨fun h => absurd (by rw [hafter]) h, fun h => absurd h.1 hfailed⟩
  · rw [hwritten] at houtcome hafter
    obtain rfl : after = d' := hafter
    have hkept (path : String) (hreads : o.Reads path) (h : after.read path ≠ d.read path) :
        d.SamePlace path (defaultOutput o.input) := by
      by_contra hplace
      obtain ⟨text, hread⟩ := Directory.exists_read_of_pageFor hpage hreads
      rw [hread, Directory.read_write_of_not_samePlace hwrite hread hplace] at h
      exact h rfl
    refine ⟨fun h => absurd houtcome h, fun _ => ⟨page, hpage, hwrite⟩, fun place h => ?_,
      fun path hreads h => ⟨houtcome, hkept path hreads h⟩,
      ⟨fun h => ⟨houtcome, hkept o.input (.inl rfl) h⟩, fun ⟨_, hplace⟩ => ?_⟩,
      fun _ => defaultOutput_eq_self_iff⟩
    · exact ⟨houtcome, Directory.text?_write hwrite h⟩
    · obtain ⟨source, hread⟩ := Directory.exists_read_of_pageFor hpage (.inl rfl)
      rw [Directory.read_write_of_samePlace hwrite hplace, hread]
      exact fun h => Directory.page_ne_source hpage hread (Except.ok.inj h)

/-- A circuit file with an extension of its own. -/
theorem inputs_kept_own_extension :
    let d : Directory := ⟨[(["circuit.stim"], "M 0\n")]⟩
    let arguments := ["render", "-i", "circuit.stim"]
    let o : RenderOptions := ⟨"circuit.stim", none, none, none, none, none⟩
    Invocation.parse? arguments = some (.render o) ∧ o.output = none ∧
      (d.runProgram [] arguments).2.directory.read o.input = d.read o.input ∧
      Path.HasExtension o.input "stim" ∧ defaultOutput o.input ≠ o.input := by
  intro d arguments o
  have hrender : Invocation.parse? arguments = some (.render o) := by decide +kernel
  obtain ⟨_, _, _, _, hreplaced, hnamed⟩ := inputs_kept_unless_replaced d [] hrender rfl
  have hextension : Path.HasExtension o.input "stim" :=
    ⟨[], "circuit".toList, .inl rfl, by decide, by decide, by decide, by decide, by decide⟩
  refine ⟨hrender, rfl, not_ne_iff.mp (mt hreplaced.mp ?_), hextension,
    mt (hnamed _ hextension).mp (by decide)⟩
  rintro ⟨_, place, hinput, hpage⟩
  rw [show d.resolve o.input = .ok (.below ["circuit.stim"]) by decide +kernel] at hinput
  rw [show d.resolve (defaultOutput o.input) = .ok (.below ["circuit.html"]) by decide +kernel] at hpage
  cases hinput
  simp at hpage

/-- A circuit file with the extension of a page is replaced. -/
theorem circuit_replaced_by_page :
    let d : Directory := ⟨[(["circuit.html"], "M 0\n")]⟩
    let run := d.runProgram [] ["render", "-i", "circuit.html"]
    run.1 = .success ∧ run.2.directory.read "circuit.html" ≠ d.read "circuit.html" := by
  intro d run
  decide +kernel

end CircuitFrames
