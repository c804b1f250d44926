import CircuitFrames.Proofs.Diagram.FrameCount
import CircuitFrames.Proofs.Diagram.Layers
import CircuitFrames.Proofs.Diagram.Views
import CircuitFrames.Proofs.Numeral.Plain
import CircuitFrames.Proofs.Text.Scanning

/-!
# What a fault mechanism changes in a drawing

A walk looks at the fault mechanism for one thing only, the colour of the labels of detectors. Seen
without that colour and without the boxes behind highlighted labels (`dim?`), the walks under any two
mechanisms are the same. What a walk paints on a layer is glyphs and labels (`Painted`), with one box
right before a label exactly if the mechanism toggles the detector. Both together say that the
mechanism does not interfere with the drawing (`mechanisms_do_not_interfere`).
-/

namespace CircuitFrames

open Svg (Primitive)

/-! ### Names of detectors -/

/-- A text that begins with the name of a detector and goes on with its coordinates, if at all. -/
def Names (n : Nat) (content : String) : Prop :=
  ∃ rest : List Char, content.toList = 'D' :: (Nat.toDigits 10 n ++ rest) ∧
    (rest = [] ∨ rest.head? = some '(')

namespace Names

variable {n k : Nat} {content : String}

theorem head (h : Names n content) : content.toList.head? = some 'D' := by
  obtain ⟨rest, hcontent, -⟩ := h
  rw [hcontent]
  rfl

theorem takeWhile (h : Names n content) :
    (content.toList.drop 1).takeWhile Char.isDigit = Nat.toDigits 10 n := by
  obtain ⟨rest, hcontent, hrest⟩ := h
  rw [hcontent, List.drop_one, List.tail_cons]
  refine Numeral.takeWhile_append_of_head (fun c hc => Numeral.isDigit_of_mem_toDigits hc) ?_
  rcases hrest with rfl | hparen
  · exact nofun
  · rw [hparen]
    rintro c ⟨⟩
    rfl

theorem unique (h : Names n content) (h' : Names k content) : n = k := by
  have hdigits := h.takeWhile.symm.trans h'.takeWhile
  rw [← Nat.ofDigitChars_ten_toDigits (n := n), hdigits, Nat.ofDigitChars_ten_toDigits]

end Names

/-- The text of the labels of a detector. -/
def DetectorStyle.name (style : DetectorStyle) (n : Nat) : String :=
  match style.coordinates[n]? with
  | none => "D" ++ toString n
  | some coords => "D" ++ toString n ++ "(" ++ ",".intercalate (coords.map Numeral.plain) ++ ")"

theorem names_name (style : DetectorStyle) (n : Nat) : Names n (style.name n) := by
  have hdigits : (toString n).toList = Nat.toDigits 10 n := Nat.toList_repr
  unfold DetectorStyle.name
  cases style.coordinates[n]? with
  | none =>
    refine ⟨[], ?_, .inl rfl⟩
    rw [String.toList_append, hdigits, List.append_nil]
    rfl
  | some coords =>
    refine ⟨'(' :: ((",".intercalate (coords.map Numeral.plain)).toList ++ ")".toList), ?_, .inr rfl⟩
    simp only [String.toList_append, hdigits, List.append_assoc]
    rfl

theorem Walk.detectorLabel_eq (style : DetectorStyle) (w : Walk) :
    w.detectorLabel style =
      if style.highlighted w.nextDetector then ⟨style.name w.nextDetector, "#FF8000", true⟩
      else ⟨style.name w.nextDetector, "black", false⟩ := by
  rfl

/-! ### Seen without highlights -/

/-- A primitive without highlights: no box behind a label, and labels of detectors in black. -/
def dim? : Primitive → Option Primitive
  | .rect x y width height fill =>
    if fill == "#FF8000" then none else some (.rect x y width height fill)
  | .text x y content fill size anchor baseline =>
    some (.text x y content (if content.toList.head? == some 'D' then "black" else fill) size anchor
      baseline)
  | p => some p

/-- The style with no detector highlighted. -/
def DetectorStyle.dimmed (style : DetectorStyle) : DetectorStyle :=
  { style with highlighted := fun _ => false }

theorem dim?_of_unmarked {p : Primitive} (h : Unmarked p) : dim? p = some p := by
  cases p with
  | rect x y width height fill =>
    have hfill : (fill == "#FF8000") = false := h.filled
    simp only [dim?, hfill, Bool.false_eq_true, if_false]
  | text x y content fill size anchor baseline =>
    have hname : (content.toList.head? == some 'D') = false := h.named
    simp only [dim?, hname, Bool.false_eq_true, if_false]
  | circle => rfl
  | line => rfl

namespace Walk

theorem sees_dimmed (style : DetectorStyle) : Sees dim? style style.dimmed where
  unmarked _ := dim?_of_unmarked
  detector := by
    intro w p slot
    have hname := (names_name style w.nextDetector).head
    have hdimmed : detectorLabel style.dimmed w = ⟨style.name w.nextDetector, "black", false⟩ := rfl
    rw [hdimmed, detectorLabel_eq]
    split <;> simp [label, dim?, Primitive.square, Primitive.label, Primitive.aligned, hname]
  observable := by
    intro content p slot
    simp [label, dim?, Primitive.label, Primitive.aligned]

theorem of_through_dim? {style style' : DetectorStyle} (h : style.dimmed = style'.dimmed) (c : Circuit) :
    (Walk.of style c).map (through dim?) = (Walk.of style' c).map (through dim?) := by
  rw [← (sees_dimmed style).of, h, (sees_dimmed style').of]

theorem layers_through (f : Primitive → Option Primitive) (w : Walk) :
    (w.through f).layers = w.layers.map (Layer.through f) :=
  Array.map_push.symm

end Walk

/-! ### What is painted on a layer -/

/-- Lists of primitives that a walk draws on a layer, where some detectors are lit: glyphs and labels,
and right before the label of a detector that is lit a box. -/
inductive Painted (lit : Nat → Bool) : List Primitive → Prop
  | nil : Painted lit []
  | glyph {ps : List Primitive} {p : Primitive} (h : Painted lit ps) (hp : Unmarked p) :
    Painted lit (ps ++ [p])
  | observable {ps : List Primitive} (h : Painted lit ps) (x y : Float) (content : String) :
    Painted lit (ps ++ [.text x y ("L" ++ content) "blue" 16 .start .hanging])
  | dark {ps : List Primitive} {n : Nat} {content : String} (h : Painted lit ps) (hn : lit n = false)
    (hname : Names n content) (x y : Float) :
    Painted lit (ps ++ [.text x y content "black" 16 .start .hanging])
  | bright {ps : List Primitive} {n : Nat} {content : String} (h : Painted lit ps) (hn : lit n = true)
    (hname : Names n content) (left top x y : Float) :
    Painted lit (ps ++ [.square left top Glyph.diameter "#FF8000"] ++
      [.text x y content "#FF8000" 16 .start .hanging])

namespace Painted

variable {lit : Nat → Bool} {ps : List Primitive}

theorem glyphs (h : Painted lit ps) {gs : List Primitive} (hgs : ∀ p ∈ gs, Unmarked p) :
    Painted lit (ps ++ gs) := by
  induction gs generalizing ps with
  | nil => rwa [List.append_nil]
  | cons g gs ih =>
    obtain ⟨hg, hrest⟩ := List.forall_mem_cons.mp hgs
    rw [List.append_cons]
    exact ih (h.glyph hg) hrest

theorem rtakeWhile_eq_nil (h : Painted lit ps) : ps.rtakeWhile isHighlight = [] := by
  cases h with
  | nil => rfl
  | glyph h hp => exact List.rtakeWhile_concat_neg _ _ _ (by simp [hp.filled])
  | observable | dark | bright => exact List.rtakeWhile_concat_neg _ _ _ (by simp [isHighlight])

theorem eq_of_concat_eq {α : Type} {as pre post : List α} {a b : α} (h : as ++ [a] = pre ++ b :: post) :
    as = pre ∧ a = b ∨ ∃ more, as = pre ++ b :: more := by
  rcases List.eq_nil_or_concat' post with rfl | ⟨more, c, rfl⟩
  · obtain ⟨has, ha⟩ := List.append_inj' h rfl
    exact .inl ⟨has, List.singleton_inj.mp ha⟩
  · rw [← List.cons_append, ← List.append_assoc] at h
    exact .inr ⟨more, (List.append_inj' h rfl).1⟩

theorem label_eq (h : Painted lit ps) {pre post : List Primitive} {x y : Float} {content fill : String}
    {size : Nat} {anchor : Svg.Anchor} {baseline : Svg.Baseline} {n : Nat}
    (hsplit : ps = pre ++ .text x y content fill size anchor baseline :: post)
    (hname : Names n content) :
    fill = (if lit n then "#FF8000" else "black") ∧
      (pre.rtakeWhile isHighlight).length = if lit n then 1 else 0 := by
  induction h generalizing pre post with
  | nil => simp at hsplit
  | glyph h hp ih =>
    rcases eq_of_concat_eq hsplit with ⟨-, rfl⟩ | ⟨more, hmore⟩
    · have hnamed : (content.toList.head? == some 'D') = false := hp.named
      rw [hname.head] at hnamed
      cases hnamed
    · exact ih hmore
  | observable h x' y' content' ih =>
    rcases eq_of_concat_eq hsplit with ⟨-, htext⟩ | ⟨more, hmore⟩
    · cases htext
      have hhead := hname.head
      rw [String.toList_append] at hhead
      cases hhead
    · exact ih hmore
  | dark h hn hname' x' y' ih =>
    rcases eq_of_concat_eq hsplit with ⟨rfl, htext⟩ | ⟨more, hmore⟩
    · cases htext
      obtain rfl := hname.unique hname'
      rw [hn, h.rtakeWhile_eq_nil]
      exact ⟨rfl, rfl⟩
    · exact ih hmore
  | bright h hn hname' left top x' y' ih =>
    rcases eq_of_concat_eq hsplit with ⟨rfl, htext⟩ | ⟨more, hmore⟩
    · cases htext
      obtain rfl := hname.unique hname'
      rw [hn, List.rtakeWhile_concat_pos _ _ _ (by rfl), h.rtakeWhile_eq_nil]
      exact ⟨rfl, rfl⟩
    · rcases eq_of_concat_eq hmore with ⟨-, htext⟩ | ⟨more', hmore'⟩
      · cases htext
      · exact ih hmore'

end Painted

namespace Walk

variable {style : DetectorStyle} {w : Walk}

/-- **Whatever a walk draws is painted.** -/
theorem painted_of_foldlM {ops : List Operation} (h : ops.foldlM (step style) start = .ok w) {l : Layer}
    (hl : l ∈ w.layers) : Painted style.highlighted l.primitives.toList := by
  refine forall_mem_layers_of_foldlM ⟨.nil, ?_, ?_⟩ h l hl
  · intro ps coords o hps
    exact hps.glyphs (Operation.unmarked_glyphs coords o)
  · intro ps w o p slot hps
    unfold lookOf
    split
    · rw [detectorLabel_eq]
      split
      next hlit =>
        have hbright := hps.bright hlit (names_name style _) (p.x - Glyph.radius) (p.y - Glyph.radius)
          (p.x + Glyph.radius + 1) (p.y - Glyph.radius + Float.ofNat slot * labelStep)
        rw [List.append_assoc] at hbright
        exact hbright
      next hlit => exact hps.dark (by simpa using hlit) (names_name style _) _ _
    · exact hps.observable _ _ _

end Walk

/-! ### Mechanisms -/

/-- The mechanism that is drawn: the given one, else the one that the search finds. -/
def drawnMechanism? (c : Circuit) (known : Option FaultMechanism) (search : Option FaultSearch) :
    Option FaultMechanism :=
  match known, search with
  | some m, _ => some m
  | none, none => none
  | none, some find => (find c).toOption

/-- The mechanism that is drawn has an error that toggles the detector. -/
def Toggled (c : Circuit) (known : Option FaultMechanism) (search : Option FaultSearch) (n : Nat) :
    Prop :=
  ∃ m, drawnMechanism? c known search = some m ∧ ∃ e ∈ m.errors, .detector n ∈ e.symptoms

theorem ExplainedError.mem_detectors {e : ExplainedError} {n : Nat} :
    n ∈ e.detectors ↔ .detector n ∈ e.symptoms := by
  unfold detectors
  rw [List.mem_filterMap]
  constructor
  · rintro ⟨symptom, hmem, hindex⟩
    cases symptom with
    | detector index =>
      cases hindex
      exact hmem
    | observable index => cases hindex
  · exact fun hmem => ⟨.detector n, hmem, rfl⟩

theorem Overlay.highlighted_iff {c : Circuit} {known : Option FaultMechanism}
    {search : Option FaultSearch} {n : Nat} :
    (resolve c known search).1.highlighted.contains n = true ↔ Toggled c known search n := by
  have hmechanism (m : FaultMechanism) : (ofMechanism m).highlighted.contains n = true ↔
      ∃ m', some m = some m' ∧ ∃ e ∈ m'.errors, .detector n ∈ e.symptoms := by
    simp [ofMechanism, ExplainedError.mem_detectors]
  have hempty : empty.highlighted.contains n = true ↔
      ∃ m, none = some m ∧ ∃ e ∈ FaultMechanism.errors m, .detector n ∈ e.symptoms := by
    simp [empty]
  unfold resolve Toggled drawnMechanism?
  cases known with
  | some m => exact hmechanism m
  | none =>
    cases search with
    | none => exact hempty
    | some find =>
      dsimp only
      cases find c with
      | ok m => exact hmechanism m
      | error message => exact hempty

/-- Among some primitives the labels of those detectors are highlighted, with one box right before
each, that are toggled, and all others are black, without a box. -/
def HighlightsToggled (toggled : Nat → Prop) (ps : List Primitive) : Prop :=
  ∀ pre post x y content fill size anchor baseline n,
    ps = pre ++ .text x y content fill size anchor baseline :: post → Names n content →
      (toggled n → fill = "#FF8000" ∧ (pre.rtakeWhile isHighlight).length = 1) ∧
      (¬toggled n → fill = "black" ∧ pre.rtakeWhile isHighlight = [])

theorem Painted.highlightsToggled {lit : Nat → Bool} {toggled : Nat → Prop}
    (hlit : ∀ n, lit n = true ↔ toggled n) {ps : List Primitive} (h : Painted lit ps) :
    HighlightsToggled toggled ps := by
  intro pre post x y content fill size anchor baseline n hsplit hname
  obtain ⟨hfill, hbox⟩ := h.label_eq hsplit hname
  constructor
  · intro htoggled
    rw [(hlit n).mpr htoggled] at hfill hbox
    exact ⟨hfill, hbox⟩
  · intro htoggled
    rw [Bool.eq_false_iff.mpr (mt (hlit n).mp htoggled)] at hfill hbox
    exact ⟨hfill, List.length_eq_zero_iff.mp hbox⟩

/-! ### Renderings -/

theorem Config.eq_of_validate {config settled : Config} (h : config.validate = .ok settled) :
    settled = config := by
  unfold validate at h
  split at h
  · cases h
  · split at h
    · cases h
      rfl
    · split at h <;> cases h
      rfl

theorem Frame.exists_layer_of_frame {w : Walk} {flips : List Mark} {i : Nat} {f : Frame}
    (h : (ofWalk w flips).1[i]? = some f) :
    ∃ l, w.layers[i]? = some l ∧ l.primitives.toList <+: f.primitives := by
  have hframe := getElem?_frames_ofWalk w flips i
  dsimp only at hframe
  rw [h, eq_comm, Option.map_eq_some_iff] at hframe
  obtain ⟨l, hl, rfl⟩ := hframe
  rw [getElem?_shown _ (Array.getElem?_eq_some_iff.mp hl).1] at hl
  exact ⟨l, hl, _, (List.append_assoc _ _ _).symm⟩

section

variable {config : Config} {c : Circuit} {known : Option FaultMechanism} {search : Option FaultSearch}

theorem render_of_walk_error (hvalid : config.validate = .ok config) {e : WalkError}
    (hw : Walk.of (.of config (Overlay.resolve c known search).1 c) c = .error e) :
    render config c known search = .error (.walk e) := by
  unfold render
  rw [hvalid]
  dsimp only
  rw [hw]

theorem render_of_walk_ok (hvalid : config.validate = .ok config) {w : Walk}
    (hw : Walk.of (.of config (Overlay.resolve c known search).1 c) c = .ok w) :
    ∃ r, render config c known search = .ok r ∧
      r.diagram.frames = (Frame.ofWalk w (Overlay.resolve c known search).1.flips).1 ∧
      r.diagram.editorLink = config.editorUrl.map (editorLink c) ∧
      r.events.getLast? =
        some (.rendered r.diagram.frames.length w.timeline.length w.nextDetector) := by
  unfold render
  rw [hvalid]
  dsimp only
  rw [hw]
  exact ⟨_, rfl, rfl, rfl, List.getLast?_concat⟩

/-- The labels on the layers of the walk behind a rendering are highlighted as the mechanism says. -/
theorem Walk.highlightsToggled {w : Walk}
    (hw : Walk.of (.of config (Overlay.resolve c known search).1 c) c = .ok w) {l : Layer}
    (hl : l ∈ w.layers) : HighlightsToggled (Toggled c known search) l.primitives.toList := by
  rw [Walk.of, Circuit.run_eq_foldlM] at hw
  exact (painted_of_foldlM hw hl).highlightsToggled fun n => Overlay.highlighted_iff

end

theorem Walk.dimmed_eq {w w' : Walk} (h : w.through dim? = w'.through dim?) {i : Nat} {l l' : Layer}
    (hl : w.layers[i]? = some l) (hl' : w'.layers[i]? = some l') :
    l'.primitives.toList.filterMap dim? = l.primitives.toList.filterMap dim? := by
  have hlayers : (w.layers.map (Layer.through dim?))[i]? = (w'.layers.map (Layer.through dim?))[i]? := by
    rw [← layers_through, h, layers_through]
  rw [Array.getElem?_map, Array.getElem?_map, hl, hl'] at hlayers
  have hprimitives := congrArg Layer.primitives (Option.some.inj hlayers)
  rw [← Array.toList_filterMap, ← Array.toList_filterMap]
  exact congrArg Array.toList hprimitives.symm

theorem exists_eq_of_map_eq {ε α β : Type} {f : α → β} {x y : Except ε α} (h : x.map f = y.map f) :
    (∃ e, x = .error e ∧ y = .error e) ∨ ∃ a b, x = .ok a ∧ y = .ok b ∧ f a = f b := by
  cases x with
  | error e =>
    cases y with
    | error e' =>
      cases h
      exact .inl ⟨e, rfl, rfl⟩
    | ok b => cases h
  | ok a =>
    cases y with
    | error e' => cases h
    | ok b => exact .inr ⟨a, b, rfl, rfl, Except.ok.inj h⟩

/-- **A fault mechanism does not interfere with the drawing.** Under any two mechanisms, given, found
or none, rendering fails with the same error, or gives as many frames, the same link and the same
counts. What the walks drew on the layer of a frame, with which the frame begins, is the same but for
highlights, and in each rendering those labels of detectors are highlighted that its own mechanism
toggles. -/
theorem mechanisms_do_not_interfere (config : Config) (c : Circuit)
    (known known' : Option FaultMechanism) (search search' : Option FaultSearch) :
    (∃ e, render config c known search = .error e ∧ render config c known' search' = .error e) ∨
      ∃ (r r' : Rendering) (w w' : Walk),
        render config c known search = .ok r ∧ render config c known' search' = .ok r' ∧
        Walk.of (.of config (Overlay.resolve c known search).1 c) c = .ok w ∧
        Walk.of (.of config (Overlay.resolve c known' search').1 c) c = .ok w' ∧
        r'.diagram.frames.length = r.diagram.frames.length ∧
        r'.diagram.editorLink = r.diagram.editorLink ∧
        (∃ measurements detectors,
          r.events.getLast? = some (.rendered r.diagram.frames.length measurements detectors) ∧
          r'.events.getLast? = some (.rendered r'.diagram.frames.length measurements detectors)) ∧
        ∀ (i : Nat) (f f' : Frame),
          r.diagram.frames[i]? = some f → r'.diagram.frames[i]? = some f' →
          ∃ l l' : Layer, w.layers[i]? = some l ∧ w'.layers[i]? = some l' ∧
            l.primitives.toList <+: f.primitives ∧ l'.primitives.toList <+: f'.primitives ∧
            l'.primitives.toList.filterMap dim? = l.primitives.toList.filterMap dim? ∧
            HighlightsToggled (Toggled c known search) l.primitives.toList ∧
            HighlightsToggled (Toggled c known' search') l'.primitives.toList := by
  cases hvalid : config.validate with
  | error e =>
    refine .inl ⟨.config e, ?_, ?_⟩ <;> unfold render <;> rw [hvalid]
  | ok settled =>
    obtain rfl := Config.eq_of_validate hvalid
    have hdimmed : DetectorStyle.dimmed (.of settled (Overlay.resolve c known search).1 c) =
        .dimmed (.of settled (Overlay.resolve c known' search').1 c) := rfl
    rcases exists_eq_of_map_eq (Walk.of_through_dim? hdimmed c) with
      ⟨e, hw, hw'⟩ | ⟨w, w', hw, hw', hsame⟩
    · exact .inl ⟨.walk e, render_of_walk_error hvalid hw, render_of_walk_error hvalid hw'⟩
    · have htimeline := congrArg Walk.timeline hsame
      have hdetectors := congrArg Walk.nextDetector hsame
      rw [Walk.timeline_through, Walk.timeline_through] at htimeline
      rw [Walk.nextDetector_through, Walk.nextDetector_through] at hdetectors
      obtain ⟨r, hr, hframes, hlink, hlast⟩ := render_of_walk_ok hvalid hw
      obtain ⟨r', hr', hframes', hlink', hlast'⟩ := render_of_walk_ok hvalid hw'
      refine .inr ⟨r, r', w, w', hr, hr', hw, hw', ?_, hlink'.trans hlink.symm, ?_, ?_⟩
      · rw [length_frames_of_render hr, length_frames_of_render hr']
      · rw [← htimeline, ← hdetectors] at hlast'
        exact ⟨_, _, hlast, hlast'⟩
      · intro i f f' hf hf'
        rw [hframes] at hf
        rw [hframes'] at hf'
        obtain ⟨l, hl, hfront⟩ := Frame.exists_layer_of_frame hf
        obtain ⟨l', hl', hfront'⟩ := Frame.exists_layer_of_frame hf'
        exact ⟨l, l', hl, hl', hfront, hfront', Walk.dimmed_eq hsame hl hl',
          Walk.highlightsToggled hw (Array.mem_of_getElem? hl),
          Walk.highlightsToggled hw' (Array.mem_of_getElem? hl')⟩

/-- The only detector is drawn black under no mechanism, and highlighted under one that toggles it. -/
theorem mechanisms_do_not_interfere_toggled :
    let measure : Operation := ⟨"M", .single .m, [.qubit 0 false], []⟩
    let detector : Operation := ⟨"DETECTOR", .detector, [.record (-1)], []⟩
    let c : Circuit := .op measure (.op detector .nil)
    let m : FaultMechanism := ⟨[⟨[⟨0, [⟨0, .x⟩]⟩], [.detector 0]⟩]⟩
    let drawn (fill : String) (l : Layer) : Bool := l.primitives.any fun
      | .text _ _ content color _ _ _ => content == "D0" && color == fill
      | _ => false
    ∃ (r r' : Rendering) (f f' : Frame) (l l' : Layer),
      render .default c none none = .ok r ∧ render .default c (some m) none = .ok r' ∧
      r.diagram.frames = [f] ∧ r'.diagram.frames = [f'] ∧
      l.primitives.toList <+: f.primitives ∧ l'.primitives.toList <+: f'.primitives ∧
      l'.primitives.toList.filterMap dim? = l.primitives.toList.filterMap dim? ∧
      drawn "black" l ∧ drawn "#FF8000" l' := by
  intro measure detector c m drawn
  rcases mechanisms_do_not_interfere .default c none (some m) none none with
    ⟨e, he, -⟩ | ⟨r, r', w, w', hr, hr', hw, hw', hlength, -, -, hframes⟩
  · obtain ⟨r, hr⟩ : ∃ r, render .default c none none = .ok r :=
      exists_eq_ok_of_isSome (by decide +kernel)
    rw [hr] at he
    cases he
  · have hone : r.diagram.frames.length = 1 := length_frames_of_render hr
    obtain ⟨f, hf⟩ := List.length_eq_one_iff.mp hone
    obtain ⟨f', hf'⟩ := List.length_eq_one_iff.mp (hlength.trans hone)
    obtain ⟨l, l', hl, hl', hfront, hfront', hsame, -, -⟩ :=
      hframes 0 f f' (by rw [hf]; rfl) (by rw [hf']; rfl)
    have hdrawn (overlay : Overlay) (fill : String) (w : Walk) (l : Layer)
        (hw : Walk.of (.of .default overlay c) c = .ok w) (hl : w.layers[0]? = some l)
        (h : ((Walk.of (.of .default overlay c) c).toOption.bind (·.layers[0]?)).any (drawn fill)) :
        drawn fill l := by
      rw [hw] at h
      change (w.layers[0]?).any _ at h
      rw [hl] at h
      exact h
    exact ⟨r, r', f, f', l, l', hr, hr', hf, hf', hfront, hfront', hsame,
      hdrawn _ _ w l hw hl (by decide +kernel), hdrawn _ _ w' l' hw' hl' (by decide +kernel)⟩

end CircuitFrames
